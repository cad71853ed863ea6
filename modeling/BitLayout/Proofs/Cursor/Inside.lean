import BitLayout.Proofs.Cursor.Ahead

/-!
# Cursors inside their text

A cursor can be put anywhere, also behind the end of its text, and the
escape that a text ends with would take it there. Reading a token does not:
a token ends inside the text, and at the end of the input a cursor is put to
the end of the text and no further. So whoever begins inside the text stays
there (`Cursor.Inside`), and whoever has read a token is inside.

A line ends at the first line feed without a backslash before it
(`Text.EndsLine`), and the next line begins right behind that, unless there
is no further line (`split_endsLine`).
-/

namespace BitLayout

/-- At the position stands a line feed that ends its line: no backslash is right before it. -/
def Text.EndsLine (text : Text) (n : Nat) : Prop :=
  text[n]? = some '\n' ∧ (text.take n).getLast? ≠ some '\\'

theorem Text.EndsLine.lt_length {text : Text} {n : Nat} (h : text.EndsLine n) : n < text.length :=
  (List.getElem?_eq_some_iff.mp h.1).1

/-- A line ends where it does whatever follows the text. -/
theorem Text.endsLine_iff_of_isPrefix {text whole : Text} {n : Nat} (h : text <+: whole)
    (hn : n < text.length) : text.EndsLine n ↔ whole.EndsLine n := by
  obtain ⟨rest, rfl⟩ := h
  rw [EndsLine, EndsLine, List.getElem?_append_left hn,
    List.take_append_of_le_length (Nat.le_of_lt hn)]

namespace Cursor

/-- The position is one of the text, or its end. -/
def Inside (cursor : Cursor) : Prop :=
  cursor.pos ≤ cursor.buffer.length

theorem inside_finish (cursor : Cursor) : cursor.finish.Inside :=
  Nat.le_refl _

section

variable {cursor later : Cursor} {token : Token}

theorem eq_or_eq_finish_of_next (h : cursor.next = (none, later)) :
    later = cursor ∨ later = cursor.finish := by
  unfold next at h
  split at h
  · cases h
    exact Or.inl rfl
  · split at h
    · cases h
    · cases h
      exact Or.inr rfl

/-- Behind a token a cursor is inside, wherever it was before. -/
theorem inside_of_next (h : cursor.next = (some token, later)) : later.Inside := by
  obtain ⟨-, -, hstop, rfl⟩ := bounds_next h
  exact hstop

theorem offset_lt_of_next (h : cursor.next = (some token, later)) :
    token.offset < cursor.buffer.length := by
  obtain ⟨-, hlt, hstop, -⟩ := bounds_next h
  exact Nat.lt_of_lt_of_le hlt hstop

theorem ended_of_next (h : cursor.next = (some token, later)) : cursor.ended = false := by
  obtain ⟨c, tail, hahead, -⟩ := next_eq_some h
  exact not_ended_of_ahead hahead

theorem Inside.next (h : cursor.Inside) : cursor.next.2.Inside := by
  rcases hnext : cursor.next with ⟨_ | token, later⟩
  · rcases eq_or_eq_finish_of_next hnext with rfl | rfl
    · exact h
    · exact inside_finish cursor
  · exact inside_of_next hnext

theorem Inside.want (h : cursor.Inside) (w : Want) : (cursor.want w).2.Inside := by
  simp only [Cursor.want]
  split
  · exact h.next
  · exact h

end

/-! ## Lines -/

/-- From a position on there is no end of a line before another position. -/
def SameLine (text : Text) (start stop : Nat) : Prop :=
  ∀ n, start ≤ n → n < stop → ¬ text.EndsLine n

theorem endsLine_length {front rest : Text} {c : Char} :
    (front ++ c :: rest).EndsLine front.length ↔
      c = '\n' ∧ (!(front.getLast? == some '\\')) = true := by
  rw [Text.EndsLine, List.getElem?_append_right (Nat.le_refl _), Nat.sub_self, List.take_left]
  simp

theorem endsLine_concat {front rest : Text} {c : Char} {n : Nat} :
    ((front ++ [c]) ++ rest).EndsLine ((front ++ [c]).length + n) ↔
      (front ++ c :: rest).EndsLine (front.length + (n + 1)) := by
  rw [List.append_assoc, List.length_append, Nat.add_assoc, List.length_singleton,
    Nat.add_comm 1 n]
  rfl

theorem endsLine_of_lineLength {front rest : Text} {n : Nat}
    (h : lineLength? (front.getLast? == some '\\') rest = some n) :
    (front ++ rest).EndsLine (front.length + n) := by
  induction rest generalizing front n with
  | nil => cases h
  | cons c rest ih =>
    rw [lineLength?] at h
    split at h
    · next hline =>
      cases h
      exact endsLine_length.mpr hline
    · obtain ⟨m, hm, rfl⟩ := Option.map_eq_some_iff.mp h
      refine endsLine_concat.mp (ih ?_)
      rw [List.getLast?_concat]
      exact hm

theorem lineLength_of_endsLine {front rest : Text} {n : Nat}
    (h : (front ++ rest).EndsLine (front.length + n)) :
    ∃ m ≤ n, lineLength? (front.getLast? == some '\\') rest = some m := by
  induction rest generalizing front n with
  | nil =>
    rw [Text.EndsLine, List.append_nil, List.getElem?_eq_none (Nat.le_add_right _ _)] at h
    exact nomatch h.1
  | cons c rest ih =>
    rw [lineLength?]
    split
    · exact ⟨0, Nat.zero_le n, rfl⟩
    · next hline =>
      cases n with
      | zero => exact absurd (endsLine_length.mp h) hline
      | succ n =>
        obtain ⟨m, hle, hm⟩ := ih (endsLine_concat.mpr h)
        rw [List.getLast?_concat] at hm
        exact ⟨m + 1, Nat.succ_le_succ hle, Option.map_eq_some_iff.mpr ⟨m, hm, rfl⟩⟩

theorem Inside.distance? {cursor : Cursor} (h : cursor.Inside) :
    cursor.distance? ['\n'] =
      lineLength? ((cursor.buffer.take cursor.pos).getLast? == some '\\')
        (cursor.buffer.drop cursor.pos) := by
  simp only [Cursor.distance?, if_neg (Nat.not_lt.mpr h), if_true]

theorem endsLine_of_distance {cursor : Cursor} {n : Nat}
    (h : cursor.distance? ['\n'] = some n) : cursor.buffer.EndsLine (cursor.pos + n) := by
  by_cases hinside : cursor.Inside
  · rw [hinside.distance?] at h
    have hends := endsLine_of_lineLength h
    rwa [List.take_append_drop, List.length_take_of_le hinside] at hends
  · rw [distance?, if_pos (Nat.lt_of_not_le hinside)] at h
    cases h

theorem distance_of_endsLine {cursor : Cursor} {n : Nat} (hn : cursor.pos ≤ n)
    (h : cursor.buffer.EndsLine n) : ∃ m, cursor.distance? ['\n'] = some m ∧ cursor.pos + m ≤ n := by
  have hinside : cursor.Inside := Nat.le_of_lt (Nat.lt_of_le_of_lt hn h.lt_length)
  obtain ⟨k, rfl⟩ := Nat.exists_eq_add_of_le hn
  have hends : Text.EndsLine (cursor.buffer.take cursor.pos ++ cursor.buffer.drop cursor.pos)
      ((cursor.buffer.take cursor.pos).length + k) := by
    rwa [List.take_append_drop, List.length_take_of_le hinside]
  obtain ⟨m, hle, hm⟩ := lineLength_of_endsLine hends
  exact ⟨m, hinside.distance?.trans hm, Nat.add_le_add_left hle _⟩

/-- **The end of a line** is the first line feed that ends one, or the end of the text. -/
theorem split_endsLine (cursor : Cursor) :
    (cursor.split ['\n'] = (cursor.buffer.length, cursor.finish) ∨
      ∃ stop, cursor.buffer.EndsLine stop ∧
        cursor.split ['\n'] = (stop, cursor.seek (stop + 1))) ∧
    SameLine cursor.buffer cursor.pos (cursor.split ['\n']).1 := by
  rw [split]
  cases hdistance : cursor.distance? ['\n'] with
  | none =>
    refine ⟨Or.inl rfl, fun n hn _ hends => ?_⟩
    obtain ⟨m, hm, -⟩ := distance_of_endsLine hn hends
    cases hdistance.symm.trans hm
  | some stop =>
    refine ⟨Or.inr ⟨_, endsLine_of_distance hdistance, rfl⟩, fun n hn hlt hends => ?_⟩
    obtain ⟨m, hm, hle⟩ := distance_of_endsLine hn hends
    cases hdistance.symm.trans hm
    exact absurd hlt (Nat.not_lt.mpr hle)

end Cursor

end BitLayout
