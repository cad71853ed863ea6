import BitLayout.Proofs.Cursor.Facing

/-!
# A cursor on a plain line

A line is plain if it has printable characters only, and neither literals
nor comments nor continuations (`Text.PlainLine`). What such a line begins
with does not depend on what stands below it (`Token.exists_lineFront`),
and a token that is read from it leaves the cursor on the rest of the line
(`Cursor.Faces.next_line`).

A row of wanted tokens is looked for beyond the end of the line, though. So
whether it stands there is told by the line only if the line does not end
before the row does (`Cursor.rowOn`).
-/

namespace BitLayout

namespace Text

/-- A line of printable ASCII characters and tabs, without literals, comments and
continuations. -/
structure PlainLine (text : Text) : Prop extends Plain text where
  printable : ∀ c ∈ text, c = '\t' ∨ ' ' ≤ c ∧ c ≤ '~'
  unescaped : '\\' ∉ text

instance (text : Text) : Decidable text.PlainLine :=
  have : Decidable (∀ c ∈ text, c = '\t' ∨ ' ' ≤ c ∧ c ≤ '~') := List.decidableBAll _ text
  decidable_of_iff
    (text.Plain ∧ (∀ c ∈ text, c = '\t' ∨ ' ' ≤ c ∧ c ≤ '~') ∧ '\\' ∉ text)
    ⟨fun h => ⟨h.1, h.2.1, h.2.2⟩, fun h => ⟨h.toPlain, h.printable, h.unescaped⟩⟩

theorem PlainLine.of_infix {line piece : Text} (h : line.PlainLine) (hpiece : piece <:+: line) :
    piece.PlainLine :=
  ⟨h.toPlain.of_infix hpiece, fun c hc => h.printable c (hpiece.subset hc),
    fun hmem => h.unescaped (hpiece.subset hmem)⟩

theorem PlainLine.oneLine {line : Text} (h : line.PlainLine) : '\n' ∉ line := by
  intro hmem
  rcases h.printable '\n' hmem with heq | ⟨hle, -⟩
  · exact absurd heq (by decide)
  · exact absurd hle (by decide)

/-- The white space of a plain line is blanks and tabs. -/
theorem PlainLine.visible {line : Text} (h : line.PlainLine) {c : Char} (hc : c ∈ line)
    (hblank : Token.isBlank c = false) : isSpace c = false := by
  have hrange := h.printable c hc
  have hascii : c.toNat < 128 := by
    rcases hrange with rfl | ⟨-, hle⟩
    · decide
    · exact Nat.lt_of_le_of_lt (UInt32.le_iff_toNat_le.mp hle) (by decide)
  revert hblank hrange
  exact ascii_cases
    (P := fun c => Token.isBlank c = false → (c = '\t' ∨ ' ' ≤ c ∧ c ≤ '~') → isSpace c = false)
    (by decide) hascii

end Text

namespace Token

open Text (PlainLine)

/-- A gap goes on below a plain line only if the whole line is blank. -/
theorem dropGap_plainLine {line : Text} (h : line.PlainLine) (rest : Text) :
    dropGap .between (line ++ '\n' :: rest) =
      if dropGap .between line = [] then dropGap .between rest
      else dropGap .between line ++ '\n' :: rest := by
  induction line with
  | nil => exact dropGap_blank rfl
  | cons c line ih =>
    cases hblank : isBlank c with
    | true =>
      rw [List.cons_append, dropGap_blank hblank, dropGap_blank hblank,
        ih (h.of_infix (List.suffix_cons c line).isInfix)]
    | false =>
      have hslash : c ≠ '\\' := (List.ne_of_not_mem_cons h.unescaped).symm
      have hstop : dropGap .between (c :: line) = c :: line := by
        refine dropGap_of_stop (by rw [hblank]; exact Bool.false_ne_true) hslash ?_
        rintro rfl d tail rfl
        obtain ⟨hline, hblock⟩ := h.toPlain.head?_ne
        exact ⟨fun hd => hline (congrArg some hd), fun hd => hblock (congrArg some hd)⟩
      rw [hstop, if_neg nofun]
      exact dropGap_append_lineFeed hstop rest

/-- The first token of a line, and what stands behind it there. -/
structure LineFront (line : Text) (kind : TokenKind) (word tail : Text) : Prop where
  suffix : word ++ tail <:+ line
  visible : ∃ front last, word = front ++ [last] ∧ Text.isSpace last = false ∧ last ≠ '\\'
  front : ∀ rest, Front (line ++ '\n' :: rest) kind word (tail ++ '\n' :: rest)

/-- A plain line with something on it begins with the same token whatever stands
below. -/
theorem exists_lineFront {line : Text} (h : line.PlainLine) (hne : dropGap .between line ≠ []) :
    ∃ kind word tail, LineFront line kind word tail := by
  obtain ⟨c, text, hgap⟩ := List.exists_cons_of_ne_nil hne
  have hsuffix : c :: text <:+ line := hgap ▸ dropGap_suffix .between line
  have hplain : PlainLine (c :: text) := h.of_infix hsuffix.isInfix
  obtain ⟨kind, word, tail, hcut, hword, hbegins⟩ :=
    exists_word hplain.toUnquoted (hgap ▸ dropGap_dropGap .between line)
  have hnonempty : word ≠ [] := by
    intro hnil
    have htail : EndsWord [] := nofun
    exact (hbegins [] fun _ => htail).nonempty (by rw [hnil]; rfl)
  obtain ⟨front, last, rfl⟩ : ∃ front last, word = front ++ [last] :=
    ⟨_, _, (List.dropLast_concat_getLast hnonempty).symm⟩
  have hmem : last ∈ front ++ [last] := List.mem_append_right front List.mem_cons_self
  obtain ⟨hblank, hslash⟩ := hword last hmem
  have hvisible : Text.isSpace last = false := by
    refine hplain.visible ?_ hblank
    rw [hcut]
    exact List.mem_append_left tail hmem
  refine ⟨kind, front ++ [last], tail, hcut ▸ hsuffix, ⟨front, last, rfl, hvisible, hslash⟩,
    fun rest => ⟨?_, ⟨front, last, rfl, hvisible⟩, ?_⟩⟩
  · rw [dropGap_plainLine h, if_neg hne, hgap, hcut, List.append_assoc]
  · intro d others shorter hd hshorter
    have hends : EndsWord tail → EndsWord shorter := by
      intro htail
      refine EndsWord.of_isPrefix ?_ hshorter
      cases tail with
      | nil => exact EndsWord.of_cons rfl rest
      | cons e tail => exact EndsWord.of_cons (htail e tail rfl) _
    refine (hbegins shorter hends).lexeme d (others ++ shorter) ?_
    rw [hd, List.cons_append]

theorem LineFront.plain_tail {line word tail : Text} {kind : TokenKind}
    (h : LineFront line kind word tail) (hline : line.PlainLine) : tail.PlainLine :=
  hline.of_infix ((List.suffix_append word tail).trans h.suffix).isInfix

/-- No token stands in the text, or none is left of it when its end is trimmed. -/
def Absent (text : Text) : Prop :=
  Text.trimRight (dropGap .between text) = []

end Token

namespace Cursor

open Text (PlainLine)
open Token (LineFront Absent)

/-! ## On a line -/

/-- A cursor on a line: the rest of the line lies ahead, and below that the text
beneath it. -/
structure OnLine (cursor : Cursor) (line rest : Text) : Prop where
  faces : cursor.Faces (line ++ '\n' :: rest)
  below : (cursor.split ['\n']).2.Faces rest

variable {cursor : Cursor} {line rest : Text}

theorem Faces.below_blank (h : cursor.Faces (line ++ '\n' :: rest)) (hline : line.PlainLine)
    (hblank : Token.dropGap .between line = []) : cursor.Faces rest := by
  refine h.congr ?_
  rw [Token.dropGap_plainLine hline, if_pos hblank]

theorem Faces.next_absent {text : Text} (h : cursor.Faces text) (habsent : Absent text) :
    cursor.next.1 = none :=
  (next_of_ahead_nil (h.trans habsent)).1

/-- Reading the first token of a line that ends where the line feed behind it stands. -/
theorem Faces.next_front {kind : TokenKind} {word tail : Text}
    (h : cursor.Faces (line ++ '\n' :: rest)) (hfront : LineFront line kind word tail)
    (htail : '\n' ∉ tail) (hend : tail.getLast? ≠ some '\\') :
    ∃ offset later, cursor.next = (some ⟨kind, word, offset⟩, later) ∧ later.OnLine tail rest ∧
      (later.slice (some offset) (some (later.split ['\n']).1) = word ++ tail ∨
        later.slice (some offset) (some (later.split ['\n']).1) =
          Text.trimRight (word ++ tail)) := by
  obtain ⟨front, last, rfl, hvisible, hslash⟩ := hfront.visible
  obtain ⟨offset, later, hnext, hended, hpos, hdrop⟩ := h.next_offset (hfront.front rest)
  obtain ⟨hbelow, hslice⟩ := split_visible hended hdrop hpos hvisible hslash htail hend
  have hbehind : later.Faces (tail ++ '\n' :: rest) :=
    Faces.of_drop hended (drop_of_visible hdrop hpos hvisible)
  exact ⟨offset, later, hnext, ⟨hbehind, hbelow⟩, hslice⟩

theorem Faces.next_line {kind : TokenKind} {word tail : Text}
    (h : cursor.Faces (line ++ '\n' :: rest)) (hline : line.PlainLine)
    (hfront : LineFront line kind word tail) :
    ∃ offset later, cursor.next = (some ⟨kind, word, offset⟩, later) ∧ later.OnLine tail rest ∧
      (later.slice (some offset) (some (later.split ['\n']).1) = word ++ tail ∨
        later.slice (some offset) (some (later.split ['\n']).1) =
          Text.trimRight (word ++ tail)) := by
  have htail := hfront.plain_tail hline
  exact h.next_front hfront htail.oneLine fun hlast =>
    htail.unescaped (List.mem_of_getLast? hlast)

/-- The line on its own is a line with nothing below. -/
theorem faces_line (line : Text) : (ofText line).Faces (line ++ ['\n']) := by
  have htrim : Text.trimRight (line ++ ['\n']) = Text.trimRight line :=
    Text.trimRight_append_of_nil rfl
  rw [Faces, ← Token.dropGap_trimRight, htrim, Token.dropGap_trimRight]
  exact faces_ofText line

/-! ## A row of tokens on a line -/

/-- How a row of wanted tokens begins on a line: all of it stands there, some other
token does, or the line ends before the row. -/
inductive RowOn (wants : List Want) (line : Text) : Prop where
  | all (texts : List Text)
      (read : ∀ {cursor rest}, OnLine cursor line rest →
        ∃ later, matchedTexts wants cursor = (texts, some later) ∧
          (later.split ['\n']).2.Faces rest)
  | other
      (read : ∀ {cursor rest}, OnLine cursor line rest → (matchedTexts wants cursor).2 = none)
  | short (n : Nat) (lt : n < wants.length)
      (read : ∀ {cursor rest}, OnLine cursor line rest → Absent rest →
        (matchedTexts (wants.take n ++ [.kind none]) cursor).2.isSome = true)

/-- Where the input ends before the row does, the row does not stand there. -/
theorem matchedTexts_of_short {wants : List Want} {n : Nat} {cursor : Cursor}
    (hwants : ∀ w ∈ wants, w.accepts none = false) (hn : n < wants.length)
    (h : (matchedTexts (wants.take n ++ [.kind none]) cursor).2.isSome = true) :
    (matchedTexts wants cursor).2 = none := by
  induction wants generalizing n cursor with
  | nil => cases hn
  | cons w wants ih =>
    have hw := hwants w List.mem_cons_self
    cases n with
    | zero =>
      have hnone : cursor.next.1 = none := by
        cases hnext : cursor.next.1 with
        | none => rfl
        | some token =>
          simp only [List.take_zero, List.nil_append, matchedTexts, hnext] at h
          cases h
      simp only [matchedTexts, hnone, hw, Bool.false_eq_true, if_false]
    | succ n =>
      rw [List.take_succ_cons, List.cons_append, matchedTexts] at h
      rw [matchedTexts]
      split at h
      · next haccepts =>
        rw [if_pos haccepts]
        exact ih (fun v hv => hwants v (List.mem_cons_of_mem w hv)) (Nat.lt_of_succ_lt_succ hn) h
      · cases h

/-- Every line is one or the other, by induction over what is wanted. -/
theorem rowOn {wants : List Want} (hwants : ∀ w ∈ wants, w.accepts none = false)
    (hline : line.PlainLine) : RowOn wants line := by
  induction wants generalizing line with
  | nil => exact .all [] fun {cursor rest} h => ⟨cursor, rfl, h.below⟩
  | cons w wants ih =>
    by_cases hblank : Token.dropGap .between line = []
    · refine .short 0 (Nat.succ_pos _) fun {cursor rest} h habsent => ?_
      have hnone := (h.faces.below_blank hline hblank).next_absent habsent
      simp only [List.take_zero, List.nil_append, matchedTexts, hnone]
      rfl
    · obtain ⟨kind, word, tail, hfront⟩ := Token.exists_lineFront hline hblank
      have hothers := ih (fun v hv => hwants v (List.mem_cons_of_mem w hv))
        (hfront.plain_tail hline)
      cases haccepts : w.accepts (some ⟨kind, word, 0⟩) with
      | false =>
        refine .other fun {cursor rest} h => ?_
        obtain ⟨offset, later, hnext, -, -⟩ := h.faces.next_line hline hfront
        rw [Token.accepts_offset w kind word 0 offset] at haccepts
        simp only [matchedTexts, hnext, haccepts, Bool.false_eq_true, if_false]
      | true =>
        cases hothers with
        | all texts read =>
          refine .all (word :: texts) fun {cursor rest} h => ?_
          obtain ⟨offset, later, hnext, hlater, -⟩ := h.faces.next_line hline hfront
          obtain ⟨last, hmatched, hbelow⟩ := read hlater
          rw [Token.accepts_offset w kind word 0 offset] at haccepts
          refine ⟨last, ?_, hbelow⟩
          simp only [matchedTexts, hnext, haccepts, hmatched, if_true]
          rfl
        | other read =>
          refine .other fun {cursor rest} h => ?_
          obtain ⟨offset, later, hnext, hlater, -⟩ := h.faces.next_line hline hfront
          rw [Token.accepts_offset w kind word 0 offset] at haccepts
          simp only [matchedTexts, hnext, haccepts, read hlater, if_true]
        | short n hn read =>
          refine .short (n + 1) (Nat.succ_lt_succ hn) fun {cursor rest} h habsent => ?_
          obtain ⟨offset, later, hnext, hlater, -⟩ := h.faces.next_line hline hfront
          have hsome := read hlater habsent
          rw [Token.accepts_offset w kind word 0 offset] at haccepts
          simp only [List.take_succ_cons, List.cons_append, matchedTexts, hnext, haccepts, hsome,
            if_true]

end Cursor

end BitLayout
