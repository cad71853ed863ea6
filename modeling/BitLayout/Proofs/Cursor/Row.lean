import BitLayout.Cursor
import BitLayout.Proofs.Cursor.Ahead

/-!
# A cursor as a position in a row of tokens

A cursor has a place in the text and a mark that it is ended. Whoever only
reads tokens sees neither: there is one row of tokens, the one that is read
from the start to the end (`Cursor.tokens`), and all answers are those of a
machine that knows a position in this row and nothing else (`RowStep.answerAt`).

The simulation relates a cursor to a position if the tokens that the cursor
still has ahead (`Cursor.row`) are those of the row from the position on.
One lemma for each operation says what it answers and what it leaves ahead,
in terms of what was ahead; where in a gap the cursor stands, and whether it
has already noticed that the text is at its end, drops out there. The run
over a list of operations is then an induction (`run_row`).

Two facts go beyond the machine, as they are about moving a cursor. A token
is read again from its own start and from where the cursor was before it.
And a cursor that has met the end of the text stays at the end, also if it
is moved back (`ended_step`).
-/

namespace BitLayout

/-- A token is wanted; the end of the input is not one. -/
def Want.takes (want : Want) (token : Token) : Bool :=
  want.accepts (some token)

namespace Cursor

/-! ## The tokens ahead -/

theorem next_of_ended {cursor : Cursor} (h : cursor.ended = true) :
    cursor.next = (none, cursor) := by
  rw [next, if_pos h]

theorem ended_of_next_none {cursor later : Cursor} (h : cursor.next = (none, later)) :
    later.ended = true := by
  cases hahead : cursor.ahead with
  | nil =>
    have hended := (next_of_ahead_nil hahead).2
    rwa [h] at hended
  | cons c rest =>
    obtain ⟨offset, hsome, -⟩ := next_of_ahead hahead
    cases (Prod.mk.inj (hsome.symm.trans h)).1

theorem tokens_of_next_none {cursor later : Cursor} (h : cursor.next = (none, later)) :
    cursor.tokens = ([], later) := by
  rw [tokens]
  split <;> rename_i hnext <;> cases hnext.symm.trans h
  rfl

theorem tokens_of_next_some {cursor later : Cursor} {token : Token}
    (h : cursor.next = (some token, later)) :
    cursor.tokens = (token :: later.tokens.1, later.tokens.2) := by
  rw [tokens]
  split <;> rename_i hnext <;> cases hnext.symm.trans h
  rfl

/-- The tokens that are read one after the other from here on. -/
def row (cursor : Cursor) : List Token :=
  cursor.tokens.1

theorem row_of_next_none {cursor later : Cursor} (h : cursor.next = (none, later)) :
    cursor.row = [] :=
  congrArg Prod.fst (tokens_of_next_none h)

theorem row_of_next_some {cursor later : Cursor} {token : Token}
    (h : cursor.next = (some token, later)) : cursor.row = token :: later.row :=
  congrArg Prod.fst (tokens_of_next_some h)

theorem row_of_ended {cursor : Cursor} (h : cursor.ended = true) : cursor.row = [] :=
  row_of_next_none (next_of_ended h)

/-! ## Operations on the row

What each operation answers and leaves ahead. -/

theorem next_row (cursor : Cursor) :
    cursor.next.1 = cursor.row.head? ∧ cursor.next.2.row = cursor.row.tail := by
  rcases hnext : cursor.next with ⟨_ | token, later⟩
  · rw [row_of_next_none hnext]
    exact ⟨rfl, row_of_ended (ended_of_next_none hnext)⟩
  · rw [row_of_next_some hnext]
    exact ⟨rfl, rfl⟩

theorem peek_row (cursor : Cursor) :
    cursor.peek.1 = cursor.row.head? ∧ cursor.peek.2.row = cursor.row := by
  unfold peek
  rcases hnext : cursor.next with ⟨_ | token, later⟩
  · rw [row_of_next_none hnext]
    exact ⟨rfl, row_of_ended (ended_of_next_none hnext)⟩
  · rw [row_of_next_some hnext]
    exact ⟨rfl, rfl⟩

theorem ended_tokens (cursor : Cursor) : cursor.tokens.2.ended = true := by
  fun_induction tokens cursor with
  | case1 cursor later hnext => exact ended_of_next_none hnext
  | case2 cursor token later hnext _ others ih => exact ih

/-- Stepping back to the start of a token puts it at the front of the row again. -/
theorem row_seek_offset {cursor later : Cursor} {token : Token}
    (h : cursor.next = (some token, later)) : (later.seek token.offset).row = cursor.row := by
  rw [row_of_next_some h, row_of_next_some (next_seek_offset h)]

theorem exhaust_row (w : Want) (cursor : Cursor) :
    (cursor.exhaust w).1 = (cursor.row.dropWhile w.takes).isEmpty ∧
      (cursor.exhaust w).2.row = cursor.row.dropWhile w.takes := by
  fun_induction exhaust w cursor with
  | case1 cursor later hnext =>
    rw [row_of_next_none hnext]
    exact ⟨rfl, row_of_ended (ended_of_next_none hnext)⟩
  | case2 cursor token later hnext _ haccepts ih =>
    have htakes : w.takes token = true := haccepts
    rw [row_of_next_some hnext, List.dropWhile_cons_of_pos htakes]
    exact ih
  | case3 cursor token later hnext _ haccepts =>
    have htakes : ¬ w.takes token = true := haccepts
    rw [row_seek_offset hnext, row_of_next_some hnext, List.dropWhile_cons_of_neg htakes]
    exact ⟨rfl, rfl⟩

theorem want_row (w : Want) (cursor : Cursor) :
    (cursor.want w).1 =
        (if w.accepts cursor.row.head? then some cursor.row.head? else none) ∧
      (cursor.want w).2.row =
        if w.accepts cursor.row.head? then cursor.row.tail else cursor.row := by
  obtain ⟨hfound, hlater⟩ := next_row cursor
  simp only [want, hfound]
  split
  · exact ⟨rfl, hlater⟩
  · exact ⟨rfl, rfl⟩

end Cursor

/-! ## The machine -/

/-- What can be done with a cursor by reading tokens only. -/
inductive RowStep where
  | next
  | peek
  | tokens
  | exhaust (want : Want)
  | want (want : Want)
  | matchAll (wants : List Want)
  deriving Repr, DecidableEq

namespace RowStep

open Cursor (Answer Step)

def toStep : RowStep → Step
  | .next => .next
  | .peek => .peek
  | .tokens => .tokens
  | .exhaust w => .exhaust w
  | .want w => .want w
  | .matchAll ws => .matchAll ws

/-- The texts of the tokens from position `k` on that are wanted, up to the first
that is not. Behind the row stands the end of the input. -/
def matched (row : List Token) (k : Nat) (wants : List Want) : List Text :=
  ((wants.zipIdx k).takeWhile fun wanted => wanted.1.accepts row[wanted.2]?).map
    fun wanted => Token.textOf row[wanted.2]?

/-- The answer at position `k` of a row, and the position afterwards. -/
def answerAt (row : List Token) (k : Nat) : RowStep → Answer × Nat
  | .next => (.found row[k]?, k + 1)
  | .peek => (.found row[k]?, k)
  | .tokens => (.tokens (row.drop k), row.length)
  | .exhaust w =>
    let skipped := (row.drop k).takeWhile w.takes
    (.flag (row.length ≤ k + skipped.length), k + skipped.length)
  | .want w => if w.accepts row[k]? then (.wanted (some row[k]?), k + 1) else (.wanted none, k)
  | .matchAll ws =>
    let texts := matched row k ws
    (.texts texts, if texts.length = ws.length then k + ws.length else k)

/-- The answers of the machine that begins at position `k`. -/
def answers (row : List Token) : Nat → List RowStep → List Answer
  | _, [] => []
  | k, step :: steps => (step.answerAt row k).1 :: answers row (step.answerAt row k).2 steps

theorem matched_cons (row : List Token) (k : Nat) (w : Want) (wants : List Want) :
    matched row k (w :: wants) =
      if w.accepts row[k]? then Token.textOf row[k]? :: matched row (k + 1) wants else [] := by
  rw [matched, List.zipIdx_cons, List.takeWhile_cons]
  split
  · rfl
  · rfl

end RowStep

namespace Cursor

/-! ## The simulation -/

section Simulation

variable {row : List Token} {cursor : Cursor} {k : Nat}

theorem head?_row (h : cursor.row = row.drop k) : cursor.row.head? = row[k]? := by
  rw [h, List.head?_drop]

theorem tail_row (h : cursor.row = row.drop k) : cursor.row.tail = row.drop (k + 1) := by
  rw [h, List.tail_drop]

theorem matchedTexts_row (h : cursor.row = row.drop k) (wants : List Want) :
    (matchedTexts wants cursor).1 = RowStep.matched row k wants ∧
      (matchedTexts wants cursor).2.map Cursor.row =
        if (RowStep.matched row k wants).length = wants.length then
          some (row.drop (k + wants.length)) else none := by
  induction wants generalizing cursor k with
  | nil => exact ⟨rfl, congrArg some h⟩
  | cons w wants ih =>
    obtain ⟨hfound, hlater⟩ := next_row cursor
    rw [head?_row h] at hfound
    rw [tail_row h] at hlater
    obtain ⟨htexts, hlast⟩ := ih hlater
    rw [RowStep.matched_cons, matchedTexts, hfound]
    split
    · have hlength : k + 1 + wants.length = k + (wants.length + 1) := by omega
      refine ⟨congrArg _ htexts, hlast.trans ?_⟩
      simp only [List.length_cons, Nat.succ_inj, hlength]
    · exact ⟨rfl, (if_neg (Nat.succ_ne_zero wants.length).symm).symm⟩

/-- **One step.** A cursor that has the row from a position on ahead answers as
the position does, and the two stay together. -/
theorem step_row (h : cursor.row = row.drop k) (s : RowStep) :
    (cursor.step s.toStep).1 = (s.answerAt row k).1 ∧
      (cursor.step s.toStep).2.row = row.drop (s.answerAt row k).2 := by
  cases s with
  | next =>
    obtain ⟨hfound, hlater⟩ := next_row cursor
    exact ⟨congrArg Answer.found (hfound.trans (head?_row h)), hlater.trans (tail_row h)⟩
  | peek =>
    obtain ⟨hfound, hlater⟩ := peek_row cursor
    exact ⟨congrArg Answer.found (hfound.trans (head?_row h)), hlater.trans h⟩
  | tokens =>
    refine ⟨congrArg Answer.tokens h, ?_⟩
    show cursor.tokens.2.row = row.drop row.length
    rw [row_of_ended (ended_tokens cursor), List.drop_length]
  | exhaust w =>
    obtain ⟨hflag, hlater⟩ := exhaust_row w cursor
    rw [h] at hflag hlater
    have hparts := List.takeWhile_append_dropWhile (p := w.takes) (l := row.drop k)
    have hothers := congrArg (List.drop ((row.drop k).takeWhile w.takes).length) hparts
    rw [List.drop_left, List.drop_drop] at hothers
    refine ⟨congrArg Answer.flag (hflag.trans ?_), hlater.trans hothers⟩
    rw [hothers, Bool.eq_iff_iff, List.isEmpty_iff, List.drop_eq_nil_iff, decide_eq_true_iff]
  | want w =>
    obtain ⟨hfound, hlater⟩ := want_row w cursor
    rw [head?_row h] at hfound hlater
    rw [tail_row h] at hlater
    simp only [RowStep.toStep, step, RowStep.answerAt, hfound, hlater]
    split
    · exact ⟨rfl, rfl⟩
    · exact ⟨rfl, h⟩
  | matchAll ws =>
    obtain ⟨htexts, hlast⟩ := matchedTexts_row h ws
    refine ⟨congrArg Answer.texts htexts, ?_⟩
    show ((matchedTexts ws cursor).2.getD cursor).row = _
    rw [← Option.getD_map Cursor.row, hlast]
    simp only [RowStep.answerAt]
    split
    · rfl
    · exact h

/-- **The run**, by induction over what is done. -/
theorem run_row (h : cursor.row = row.drop k) (steps : List RowStep) :
    (run (steps.map RowStep.toStep) cursor).map Prod.fst = RowStep.answers row k steps := by
  induction steps generalizing cursor k with
  | nil => rfl
  | cons s steps ih =>
    obtain ⟨hanswer, hlater⟩ := step_row h s
    rw [List.map_cons, run, List.map_cons, RowStep.answers, hanswer, ih hlater]

end Simulation

/-! ## Moving the cursor -/

/-- The cursor with which several things were done. -/
def after (steps : List Step) (cursor : Cursor) : Cursor :=
  steps.foldl (fun cursor step => (cursor.step step).2) cursor

/-- Stepping back in front of the gap before a token puts it ahead again. -/
theorem next_seek_pos {cursor later : Cursor} {token : Token}
    (h : cursor.next = (some token, later)) : (later.seek cursor.pos).next = (some token, later) := by
  obtain ⟨_, _, _, _, _, rfl⟩ := next_eq_some h
  exact h

theorem ended_matchedTexts {wants : List Want} {cursor last : Cursor}
    (h : cursor.ended = true) (hlast : (matchedTexts wants cursor).2 = some last) :
    last.ended = true := by
  induction wants generalizing cursor with
  | nil =>
    cases hlast
    exact h
  | cons w wants ih =>
    rw [matchedTexts, next_of_ended h] at hlast
    split at hlast
    · exact ih h hlast
    · cases hlast

/-- Nothing that is done with an ended cursor makes it read on. -/
theorem ended_step {cursor : Cursor} (h : cursor.ended = true) (s : Step) :
    (cursor.step s).2.ended = true := by
  have hnext := next_of_ended h
  cases s with
  | next => simpa only [step, hnext] using h
  | peek => simpa only [step, peek, hnext] using h
  | tokens => exact ended_tokens cursor
  | seek pos => exact h
  | split delim =>
    simp only [step, split]
    split
    · exact h
    · rfl
  | slice start stop => exact h
  | exhaust w => simpa only [step, exhaust_of_next_none hnext] using h
  | want w =>
    simp only [step, want, hnext]
    split <;> exact h
  | matchAll ws =>
    show ((matchedTexts ws cursor).2.getD cursor).ended = true
    cases hlast : (matchedTexts ws cursor).2 with
    | none => exact h
    | some last => exact ended_matchedTexts h hlast

theorem ended_after {cursor : Cursor} (h : cursor.ended = true) (steps : List Step) :
    (after steps cursor).ended = true := by
  induction steps generalizing cursor with
  | nil => exact h
  | cons s steps ih => exact ih (ended_step h s)

/-- A cursor over the text is a position in the row of its tokens. -/
structure OnRow (text : Text) : Prop where
  /-- Whatever is read, and in whatever order, a position is all that is known. -/
  answers : ∀ steps : List RowStep,
    (run (steps.map RowStep.toStep) (ofText text)).map Prod.fst =
      RowStep.answers (ofText text).tokens.1 0 steps
  /-- A token is read again from where the cursor was before it, and from its start. -/
  rereads : ∀ (steps : List RowStep) (token : Token) (later : Cursor),
    let cursor := after (steps.map RowStep.toStep) (ofText text)
    cursor.next = (some token, later) →
      (later.seek cursor.pos).next = (some token, later) ∧
        (later.seek token.offset).next = (some token, later)
  /-- Once the end was met, by reading a token or all of them, it is met again
  whatever is done with the cursor, also if it is moved. -/
  stays : ∀ (steps : List RowStep) (more : List Step),
    let cursor := after (steps.map RowStep.toStep) (ofText text)
    (∀ later, cursor.next = (none, later) →
      (after more later).next = (none, after more later)) ∧
    (after more cursor.tokens.2).next = (none, after more cursor.tokens.2)

/-- **A cursor is a position in a row of tokens**, for whoever reads tokens. -/
theorem onRow_ofText (text : Text) : OnRow text where
  answers := run_row rfl
  rereads steps token later := by
    intro cursor h
    exact ⟨next_seek_pos h, next_seek_offset h⟩
  stays steps more := by
    intro cursor
    refine ⟨?_, ?_⟩
    · intro later h
      exact next_of_ended (ended_after (ended_of_next_none h) more)
    · exact next_of_ended (ended_after (ended_tokens cursor) more)

end Cursor

end BitLayout
