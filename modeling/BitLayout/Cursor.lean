import BitLayout.Token

/-!
# A cursor over a description

A cursor stands at a position of a text and reads tokens from there. It is marked as ended once it
has found no further token, and from then on it finds none, wherever it is moved to.

Reading several tokens either consumes all that was asked for or leaves the cursor as it was
(`want`, `matchAll`). A look ahead (`peek`) restores the position, except at the end of the input,
where the cursor ends up marked and behind the text.

Everything that can be done with a cursor is data as well. `Cursor.step` does one thing and
`Cursor.run` a sequence of them, so that a statement about every way of using a cursor is a
statement about lists of steps.
-/

namespace BitLayout

/-- A place in a text from which tokens are read. -/
structure Cursor where
  /-- The whole text, without white space at its end. -/
  buffer : Text
  /-- The position that is read next. It may lie behind the text. -/
  pos : Nat
  /-- No further token was found. -/
  ended : Bool
  deriving Repr, DecidableEq

namespace Cursor

def ofText (text : Text) : Cursor :=
  ⟨Text.trimRight text, 0, false⟩

def atEnd (cursor : Cursor) : Bool :=
  cursor.ended || cursor.buffer.length ≤ cursor.pos

def remaining (cursor : Cursor) : Nat :=
  cursor.buffer.length - cursor.pos

/-- The cursor that has found no further token. -/
def finish (cursor : Cursor) : Cursor :=
  { cursor with pos := cursor.buffer.length, ended := true }

/-- The cursor moved to a position; an ended one stays ended. -/
def seek (cursor : Cursor) (pos : Nat) : Cursor :=
  { cursor with pos := pos }

/-! ## Tokens -/

def next? (cursor : Cursor) : Option Token :=
  if cursor.ended then none
  else Token.first? cursor.pos (cursor.buffer.drop cursor.pos)

def next (cursor : Cursor) : Option Token × Cursor :=
  if cursor.ended then (none, cursor)
  else match cursor.next? with
    | some token => (some token, cursor.seek token.stop)
    | none => (none, cursor.finish)

/-- Reads a token and steps back in front of the gap before it. -/
def peek (cursor : Cursor) : Option Token × Cursor :=
  match cursor.next with
  | (some token, _) => (some token, cursor)
  | (none, ended) => (none, ended)

/-- A token that is read lies behind the cursor and inside the text, and the cursor is moved to
its end. -/
theorem bounds_next {cursor later : Cursor} {token : Token}
    (h : cursor.next = (some token, later)) :
    cursor.pos ≤ token.offset ∧ token.offset < token.stop ∧ token.stop ≤ cursor.buffer.length ∧
      later = cursor.seek token.stop := by
  by_cases hended : cursor.ended
  · simp [next, hended] at h
  · rw [next, if_neg hended] at h
    cases hfound : cursor.next? with
    | none => simp [hfound] at h
    | some found =>
      rw [hfound] at h
      cases h
      rw [next?, if_neg hended] at hfound
      have hbounds := Token.stop_of_first? hfound
      rw [List.length_drop] at hbounds
      exact ⟨hbounds.1, hbounds.2.1, by omega, rfl⟩

theorem remaining_next {cursor later : Cursor} {token : Token}
    (h : cursor.next = (some token, later)) : later.remaining < cursor.remaining := by
  obtain ⟨hstart, hlt, hstop, rfl⟩ := bounds_next h
  simp only [remaining, seek]
  omega

theorem remaining_next_le (cursor : Cursor) : cursor.next.2.remaining ≤ cursor.remaining := by
  cases h : cursor.next with
  | mk found later =>
    cases found with
    | some token => exact Nat.le_of_lt (remaining_next h)
    | none =>
      unfold next at h
      split at h
      · cases h; exact Nat.le_refl _
      · split at h
        · cases h
        · cases h; simp [remaining, finish]

def tokens (cursor : Cursor) : List Token × Cursor :=
  match h : cursor.next with
  | (none, later) => ([], later)
  | (some token, later) =>
    have := remaining_next h
    let others := later.tokens
    (token :: others.1, others.2)
termination_by cursor.remaining

/-- Reads as many of the wanted tokens as stand in a row. Answers whether that reached the end of
the input; otherwise the cursor stops right before the first other token. -/
def exhaust (want : Want) (cursor : Cursor) : Bool × Cursor :=
  match h : cursor.next with
  | (none, later) => (true, later)
  | (some token, later) =>
    have := remaining_next h
    if want.accepts (some token) then later.exhaust want
    else (false, later.seek token.offset)
termination_by cursor.remaining

/-- Reading a row of tokens does not step back. -/
theorem remaining_exhaust_le (want : Want) (cursor : Cursor) :
    (cursor.exhaust want).2.remaining ≤ cursor.remaining := by
  fun_induction exhaust want cursor with
  | case1 cursor later hnext => simpa [hnext] using remaining_next_le cursor
  | case2 cursor token later hnext hlt _ ih => exact Nat.le_trans ih (Nat.le_of_lt hlt)
  | case3 cursor token later hnext hlt _ =>
    obtain ⟨hstart, -, -, rfl⟩ := bounds_next hnext
    simp only [remaining, seek]
    omega

/-- Reads what is wanted, or nothing. What is wanted may be the end of the input. -/
def want (want : Want) (cursor : Cursor) : Option (Option Token) × Cursor :=
  let read := cursor.next
  if want.accepts read.1 then (some read.1, read.2) else (none, cursor)

theorem remaining_want_le (w : Want) (cursor : Cursor) :
    (cursor.want w).2.remaining ≤ cursor.remaining := by
  simp only [want]
  split
  · exact remaining_next_le cursor
  · exact Nat.le_refl _

/-- The texts of the wanted tokens that stand in a row, and the cursor behind them if these are
all of the wanted ones. -/
def matchedTexts : List Want → Cursor → List Text × Option Cursor
  | [], cursor => ([], some cursor)
  | want :: wants, cursor =>
    let read := cursor.next
    if want.accepts read.1 then
      let others := matchedTexts wants read.2
      (Token.textOf read.1 :: others.1, others.2)
    else ([], none)

theorem remaining_matchedTexts {wants : List Want} {cursor last : Cursor} {texts : List Text}
    (h : matchedTexts wants cursor = (texts, some last)) : last.remaining ≤ cursor.remaining := by
  induction wants generalizing cursor texts with
  | nil => cases h; exact Nat.le_refl _
  | cons want wants ih =>
    simp only [matchedTexts] at h
    split at h
    · simp only [Prod.mk.injEq] at h
      exact Nat.le_trans (ih (Prod.ext rfl h.2)) (remaining_next_le cursor)
    · cases h

/-- Reads all of the wanted tokens or nothing, and answers the texts of those that stand in a
row. -/
def matchAll (wants : List Want) (cursor : Cursor) : List Text × Cursor :=
  let read := matchedTexts wants cursor
  (read.1, read.2.getD cursor)

theorem remaining_matchAll_le (wants : List Want) (cursor : Cursor) :
    (cursor.matchAll wants).2.remaining ≤ cursor.remaining := by
  simp only [matchAll]
  cases h : (matchedTexts wants cursor).2 with
  | none => exact Nat.le_refl _
  | some last => exact remaining_matchedTexts (Prod.ext rfl h)

/-! ## Characters -/

/-- The distance to the end of a line, in a text behind a backslash or not. A line feed right
behind a backslash does not end a line. -/
def lineLength? (escaped : Bool) : Text → Option Nat
  | [] => none
  | c :: t =>
    if c = '\n' ∧ !escaped then some 0
    else (lineLength? (c == '\\') t).map (· + 1)

/-- The distance to the next delimiter. The one-character delimiter line feed is the end of a
line, which a backslash before the cursor can escape too. -/
def distance? (delim : Text) (cursor : Cursor) : Option Nat :=
  if cursor.buffer.length < cursor.pos then none
  else
    let rest := cursor.buffer.drop cursor.pos
    if delim = ['\n'] then
      lineLength? ((cursor.buffer.take cursor.pos).getLast? == some '\\') rest
    else Text.findFirst? delim rest

/-- Moves behind the next delimiter and answers its position; without one, to the end of the
text. -/
def split (delim : Text) (cursor : Cursor) : Nat × Cursor :=
  match cursor.distance? delim with
  | some n => (cursor.pos + n, cursor.seek (cursor.pos + n + delim.length))
  | none => (cursor.buffer.length, cursor.finish)

theorem remaining_split_le (delim : Text) (cursor : Cursor) :
    (cursor.split delim).2.remaining ≤ cursor.remaining := by
  unfold split
  split
  · simp only [remaining, seek]
    omega
  · simp [remaining, finish]

/-- A bound of a slice as a position: below zero it counts from the end, and outside the text it
is the nearer end. -/
def bound (length : Nat) (n : Int) : Nat :=
  if n < 0 then (n + length).toNat else min n.toNat length

/-- The text between two bounds; a missing bound is an end of the text. -/
def slice (cursor : Cursor) (start stop : Option Int) : Text :=
  let length := cursor.buffer.length
  let first := (start.map (bound length)).getD 0
  let last := (stop.map (bound length)).getD length
  (cursor.buffer.take last).drop first

/-! ## Steps -/

inductive Step where
  | next
  | peek
  | tokens
  | seek (pos : Nat)
  | split (delim : Text)
  | slice (start stop : Option Int)
  | exhaust (want : Want)
  | want (want : Want)
  | matchAll (wants : List Want)
  deriving Repr, DecidableEq

inductive Answer where
  | done
  | flag (value : Bool)
  | position (pos : Nat)
  | text (text : Text)
  | texts (texts : List Text)
  /-- What stood at the cursor; `none` is the end of the input. -/
  | found (found : Option Token)
  /-- What stood at the cursor if it was wanted. -/
  | wanted (found? : Option (Option Token))
  | tokens (tokens : List Token)
  deriving Repr, DecidableEq

def step (cursor : Cursor) : Step → Answer × Cursor
  | .next => let read := cursor.next; (.found read.1, read.2)
  | .peek => let read := cursor.peek; (.found read.1, read.2)
  | .tokens => let read := cursor.tokens; (.tokens read.1, read.2)
  | .seek pos => (.done, cursor.seek pos)
  | .split delim => let read := cursor.split delim; (.position read.1, read.2)
  | .slice start stop => (.text (cursor.slice start stop), cursor)
  | .exhaust w => let read := cursor.exhaust w; (.flag read.1, read.2)
  | .want w => let read := cursor.want w; (.wanted read.1, read.2)
  | .matchAll ws => let read := cursor.matchAll ws; (.texts read.1, read.2)

def run : List Step → Cursor → List (Answer × Cursor)
  | [], _ => []
  | step :: steps, cursor =>
    let read := cursor.step step
    read :: run steps read.2

end Cursor

end BitLayout
