import BitLayout.Proofs.Cursor.Row
import BitLayout.Proofs.Token.Blank

/-!
# Looking ahead

Three operations only look: reading a token that is put back (`peek`), asking
for a token that is not there (`want`), and asking for a row of tokens that is
not there (`matchAll`). Whoever asks in vain still has the very cursor that
asked. So has whoever looks at a token.

Only a look at the end of the input is different (`peek_eq_finish`). It
leaves the cursor behind the text and marked, and a cursor with nothing but a
gap before it is moved by that (`untouched_peek_iff`). Where this happens is
told by the grammar of gaps, since a gap that the text ends with is exactly
what the scanner finds no token in (`Token.dropGap_eq_nil_iff`).
-/

namespace BitLayout

namespace Token

/-! ## The last gap -/

/-- A blank is passed over as a whole. -/
theorem Blank.dropGap_append {blank : Text} (h : Blank blank) (rest : Text) :
    dropGap .between (blank ++ rest) = dropGap .between rest := by
  cases h with
  | char hblank => exact dropGap_blank hblank
  | escape c => rfl
  | lineComment hbody =>
    simp only [List.cons_append, List.append_assoc, List.nil_append]
    exact dropGap_line hbody rest
  | blockComment hbody =>
    simp only [List.cons_append, List.append_assoc, List.nil_append]
    exact dropGap_closed hbody rest

theorem CutShort.dropGap_eq_nil {text : Text} (h : CutShort text) :
    dropGap .between text = [] := by
  cases h with
  | nothing => rfl
  | escape => rfl
  | lineComment hbody => exact dropGap_lineComment_open hbody
  | blockComment hbody => exact dropGap_blockComment_open hbody

theorem Gap.dropGap_append {gap : Text} (h : Gap gap) (rest : Text) :
    dropGap .between (gap ++ rest) = dropGap .between rest := by
  obtain ⟨blanks, hblanks, rfl⟩ := h
  induction blanks with
  | nil => rfl
  | cons blank blanks ih =>
    obtain ⟨hblank, hothers⟩ := List.forall_mem_cons.mp hblanks
    rw [List.flatten_cons, List.append_assoc, hblank.dropGap_append, ih hothers]

/-- **There is no token exactly where the text ends with a gap.** -/
theorem dropGap_eq_nil_iff (text : Text) : dropGap .between text = [] ↔ LastGap text := by
  constructor
  · intro hnil
    rcases exists_gap text with ⟨hlast, -⟩ | ⟨_, _, _, -, -, hstop⟩
    · exact hlast
    · cases hnil.symm.trans hstop
  · rintro ⟨gap, rest, rfl, hgap, hrest⟩
    exact (hgap.dropGap_append rest).trans hrest.dropGap_eq_nil

end Token

namespace Cursor

/-! ## The operations that look ahead -/

/-- Place of the cursor, and the answer to whether it is at the end, are the same as before. -/
def Untouched (cursor later : Cursor) : Prop :=
  later.pos = cursor.pos ∧ later.atEnd = cursor.atEnd

instance (cursor later : Cursor) : Decidable (Untouched cursor later) :=
  inferInstanceAs (Decidable (_ ∧ _))

theorem Untouched.refl (cursor : Cursor) : Untouched cursor cursor :=
  ⟨rfl, rfl⟩

/-- Moving to the end of the text is noticed anywhere but there. -/
theorem untouched_finish_iff (cursor : Cursor) :
    Untouched cursor cursor.finish ↔ cursor.pos = cursor.buffer.length := by
  constructor
  · exact fun h => h.1.symm
  · intro hpos
    have hend : cursor.atEnd = true := by simp [atEnd, hpos]
    exact ⟨hpos.symm, hend.symm⟩

section

variable {cursor : Cursor}

theorem peek_of_ended (h : cursor.ended = true) : cursor.peek = (none, cursor) := by
  rw [peek, next_of_ended h]

theorem peek_eq_finish (hended : cursor.ended = false)
    (hgap : Token.LastGap (cursor.buffer.drop cursor.pos)) :
    cursor.peek = (none, cursor.finish) := by
  have hnil := (Token.dropGap_eq_nil_iff _).mpr hgap
  rw [peek, next, next?, hended, Token.first?_of_gap_nil hnil]
  rfl

/-- A look at a token leaves the cursor. -/
theorem peek_of_token (hended : cursor.ended = false)
    (hgap : ¬ Token.LastGap (cursor.buffer.drop cursor.pos)) :
    ∃ token later, cursor.next = (some token, later) ∧ cursor.peek = (some token, cursor) := by
  have hne : cursor.ahead ≠ [] := by
    rw [ahead_of_drop hended rfl]
    exact fun hnil => hgap ((Token.dropGap_eq_nil_iff _).mp hnil)
  obtain ⟨c, rest, hahead⟩ := List.exists_cons_of_ne_nil hne
  obtain ⟨offset, hnext, -⟩ := next_of_ahead hahead
  exact ⟨_, _, hnext, by rw [peek, hnext]⟩

/-- **A look ahead is noticed** exactly where a gap and nothing else is left before the end. -/
theorem untouched_peek_iff (cursor : Cursor) :
    Untouched cursor cursor.peek.2 ↔
      cursor.ended = true ∨ ¬ Token.LastGap (cursor.buffer.drop cursor.pos) ∨
        cursor.pos = cursor.buffer.length := by
  cases hended : cursor.ended with
  | true => simp [peek_of_ended hended, Untouched.refl]
  | false =>
    by_cases hgap : Token.LastGap (cursor.buffer.drop cursor.pos)
    · simp [peek_eq_finish hended hgap, untouched_finish_iff, hgap]
    · obtain ⟨token, later, -, hpeek⟩ := peek_of_token hended hgap
      simp [hpeek, Untouched.refl, hgap]

theorem want_of_none {w : Want} (h : (cursor.want w).1 = none) : (cursor.want w).2 = cursor := by
  simp only [want] at h ⊢
  split
  · next haccepts => simp [haccepts] at h
  · rfl

/-- Only a row that breaks off leaves no cursor behind it. -/
theorem matchedTexts_of_length {wants : List Want} {cursor : Cursor}
    (h : (matchedTexts wants cursor).1.length < wants.length) :
    (matchedTexts wants cursor).2 = none := by
  induction wants generalizing cursor with
  | nil => exact absurd h (Nat.not_lt_zero _)
  | cons w wants ih =>
    rw [matchedTexts] at h ⊢
    split
    · next haccepts =>
      rw [if_pos haccepts, List.length_cons, List.length_cons] at h
      exact ih (Nat.lt_of_succ_lt_succ h)
    · rfl

theorem matchAll_of_length {wants : List Want}
    (h : (cursor.matchAll wants).1.length < wants.length) :
    (cursor.matchAll wants).2 = cursor := by
  have hnone : (matchedTexts wants cursor).2 = none := matchedTexts_of_length h
  rw [matchAll, hnone, Option.getD_none]

end

/-! ## Every cursor over a text -/

/-- What looking ahead from a cursor leaves of it. -/
structure LooksAhead (cursor : Cursor) : Prop where
  /-- What is asked for and not found leaves the cursor itself. -/
  want : ∀ w : Want, (cursor.want w).1 = none → (cursor.want w).2 = cursor
  matchAll : ∀ wants : List Want,
    (cursor.matchAll wants).1.length < wants.length → (cursor.matchAll wants).2 = cursor
  /-- So does a look at a token, which is the one that is read next. -/
  peek : ∀ token, cursor.peek.1 = some token →
    cursor.next.1 = some token ∧ cursor.peek.2 = cursor
  /-- A look at the end of the input leaves an ended cursor, and moves any other to the end. -/
  peek_end : cursor.peek.1 = none →
    cursor.peek.2 = if cursor.ended then cursor else cursor.finish
  /-- Looking is noticed only where a gap, and no token, stands before the end of the text, or
  the cursor behind it. -/
  untouched : Untouched cursor cursor.peek.2 ↔
    cursor.ended = true ∨ ¬ Token.LastGap (cursor.buffer.drop cursor.pos) ∨
      cursor.pos = cursor.buffer.length

theorem looksAhead (cursor : Cursor) : LooksAhead cursor where
  want _ := want_of_none
  matchAll _ := matchAll_of_length
  peek token h := by
    unfold peek at h ⊢
    rcases hnext : cursor.next with ⟨_ | found, later⟩
    · simp [hnext] at h
    · simp only [hnext, Option.some.injEq] at h ⊢
      exact ⟨h, trivial⟩
  peek_end h := by
    cases hended : cursor.ended with
    | true => exact congrArg Prod.snd (peek_of_ended hended)
    | false =>
      by_cases hgap : Token.LastGap (cursor.buffer.drop cursor.pos)
      · exact congrArg Prod.snd (peek_eq_finish hended hgap)
      · obtain ⟨token, later, -, hpeek⟩ := peek_of_token hended hgap
        cases h.symm.trans (congrArg Prod.fst hpeek)
  untouched := untouched_peek_iff cursor

/-- **Looking ahead**, with a cursor that was used in any way before. -/
theorem looksAhead_after (text : Text) (steps : List Step) :
    LooksAhead (after steps (ofText text)) :=
  looksAhead _

/-- Behind the last token, with a comment before the end of the text, a look moves the cursor. -/
theorem looksAhead_after_comment :
    let cursor := after [.next] (ofText "a // b".toList)
    ¬ Untouched cursor cursor.peek.2 ∧
      (cursor.pos, cursor.atEnd) = (1, false) ∧
      (cursor.peek.2.pos, cursor.peek.2.atEnd) = (6, true) := by
  decide

end Cursor

end BitLayout
