import BitLayout.Proofs.Cursor.Ahead

/-!
# Lines behind a token

From behind a token on, the rest of its line is a matter of the text that
follows it (`cutLine`): where the line ends, what is cut out of it from the
start of the token, and what lies ahead on the next line
(`split_behind_token`). The one thing that the cursor looks back at, whether
a backslash stands right before it, does not occur there, unless a literal
ends in one.
-/

namespace BitLayout

namespace Cursor

/-- The rest of a line, from behind a backslash or not, and the text behind its
end. -/
def cutLine (escaped : Bool) : Text → Text × Text
  | [] => ([], [])
  | c :: t =>
    if c = '\n' ∧ !escaped then ([], t)
    else
      let cut := cutLine (c == '\\') t
      (c :: cut.1, cut.2)

theorem cutLine_eq (escaped : Bool) (text : Text) :
    cutLine escaped text =
      match lineLength? escaped text with
      | some n => (text.take n, text.drop (n + 1))
      | none => (text, []) := by
  induction text generalizing escaped with
  | nil => rfl
  | cons c t ih =>
    rw [cutLine, lineLength?]
    split
    · rfl
    · rw [ih]
      cases lineLength? (c == '\\') t <;> rfl

/-- The cut loses the line feed and nothing else. -/
theorem cutLine_snd_suffix (escaped : Bool) (text : Text) : (cutLine escaped text).2 <:+ text := by
  induction text generalizing escaped with
  | nil => exact List.suffix_refl _
  | cons c t ih =>
    rw [cutLine]
    split
    · exact List.suffix_cons c t
    · exact (ih _).trans (List.suffix_cons c t)

/-- A backslash before anything but a line feed makes no difference. -/
theorem cutLine_of_head {text : Text} (h : text.head? ≠ some '\n') (escaped other : Bool) :
    cutLine escaped text = cutLine other text := by
  cases text with
  | nil => rfl
  | cons c t =>
    have hc : c ≠ '\n' := fun heq => h (congrArg some heq)
    rw [cutLine, cutLine, if_neg (fun hline => hc hline.1), if_neg (fun hline => hc hline.1)]

section BehindToken

variable {cursor later : Cursor} {token : Token} {rest : Text}

/-- The token is what lies ahead begins with. -/
theorem drop_stop (h : cursor.next = (some token, later))
    (hahead : cursor.ahead = token.text ++ rest) :
    later.ended = false ∧ later.pos = token.offset + token.text.length ∧
      later.buffer.drop token.offset = token.text ++ rest := by
  obtain ⟨c, tail, hcons, hdrop, -, rfl⟩ := next_eq_some h
  have hended : cursor.ended = false := not_ended_of_ahead hcons
  exact ⟨hended, rfl, hdrop.trans (hcons.symm.trans hahead)⟩

theorem ahead_behind_token (h : cursor.next = (some token, later))
    (hahead : cursor.ahead = token.text ++ rest) :
    later.ahead = Token.dropGap .between rest := by
  obtain ⟨hended, hpos, hdrop⟩ := drop_stop h hahead
  refine ahead_of_drop hended ?_
  rw [hpos, ← List.drop_drop, hdrop, List.drop_left]

theorem distance?_behind_token (h : cursor.next = (some token, later))
    (hahead : cursor.ahead = token.text ++ rest) (hlast : token.text.getLast? ≠ some '\\') :
    later.distance? ['\n'] = lineLength? false rest := by
  obtain ⟨-, hpos, hdrop⟩ := drop_stop h hahead
  have hbounds := bounds_next h
  have hinside : ¬ later.buffer.length < later.pos := by
    rw [hbounds.2.2.2]
    exact Nat.not_lt.mpr hbounds.2.2.1
  have hne : token.text ≠ [] := by
    intro hnil
    have hlt := hbounds.2.1
    rw [Token.stop, hnil] at hlt
    exact Nat.lt_irrefl _ hlt
  have hflag : ((later.buffer.take later.pos).getLast? == some '\\') = false := by
    rw [hpos, List.take_add, hdrop, List.take_left, List.getLast?_append_of_ne_nil _ hne]
    exact beq_eq_false_iff_ne.mpr hlast
  have hbehind : later.buffer.drop later.pos = rest := by
    rw [hpos, ← List.drop_drop, hdrop, List.drop_left]
  simp only [distance?, if_neg hinside, if_true, hflag, hbehind]

/-- **Moving to the next line** from behind a token: what is cut out, and what lies
ahead afterwards. -/
theorem split_behind_token (h : cursor.next = (some token, later))
    (hahead : cursor.ahead = token.text ++ rest) (hlast : token.text.getLast? ≠ some '\\') :
    later.slice (some token.offset) (some (later.split ['\n']).1) =
        token.text ++ (cutLine false rest).1 ∧
      (later.split ['\n']).2.ahead = Token.dropGap .between (cutLine false rest).2 := by
  obtain ⟨hended, hpos, hdrop⟩ := drop_stop h hahead
  have hbehind : later.buffer.drop later.pos = rest := by
    rw [hpos, ← List.drop_drop, hdrop, List.drop_left]
  rw [split, distance?_behind_token h hahead hlast, cutLine_eq]
  cases hlength : lineLength? false rest with
  | none =>
    refine ⟨?_, ahead_of_ended rfl⟩
    show later.slice (some (token.offset : Int)) (some (later.buffer.length : Nat)) = _
    rw [slice_natCast, List.take_length, hdrop]
  | some n =>
    refine ⟨?_, ahead_of_drop hended ?_⟩
    · show later.slice (some (token.offset : Int)) (some (later.pos + n : Nat)) = _
      rw [slice_natCast, List.drop_take, hdrop, hpos, Nat.add_assoc, Nat.add_sub_cancel_left,
        List.take_length_add_append]
    · show later.buffer.drop (later.pos + n + 1) = _
      rw [Nat.add_assoc, ← List.drop_drop, hbehind]

end BehindToken

end Cursor

end BitLayout
