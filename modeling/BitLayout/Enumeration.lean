import BitLayout.Cursor
import BitLayout.Numeral
import BitLayout.Table

/-!
# Enumerations

An enumeration names numbers, in the notation of C:

    enum [Name] { A [= N], B, ... }

A member without a number of its own is one more than the member before it, and the first one is
zero. Any number of commas may stand before, between and behind the members. A member is a word
or a string literal, whose name is then what stands between the quotes.

The reader works on a cursor. When it fails, the cursor stays where reading stopped, and the error
says what was found there.
-/

namespace BitLayout

structure Enumeration where
  /-- The tag; a definition may do without. -/
  name : Option Text
  members : NameTable
  deriving DecidableEq, Repr

inductive EnumError where
  | noKeyword (pos : Nat)
  | noBrace (offset : Int) (found : Text)
  | noMember (offset : Int) (found : Text)
  | badSeparator (offset : Int) (found member : Text)
  | noNumber (pos : Nat) (found : Text)
  | badNumber (offset : Nat) (error : NumeralError)
  deriving Repr, DecidableEq

namespace EnumError

def message : EnumError → String
  | .noKeyword pos => s!"Expected \"enum\" at {pos}"
  | .noBrace offset found =>
    s!"Expected \"\x7b\" at {offset}, got {String.ofList (Text.quoted found)}"
  | .noMember offset found =>
    s!"Expected an enum member at {offset}, got {String.ofList (Text.quoted found)}"
  | .badSeparator offset found member =>
    s!"Unexpected {String.ofList (Text.quoted found)} after enum member " ++
      s!"{String.ofList (Text.quoted member)} at {offset}"
  | .noNumber pos found =>
    s!"Expected a number after \"=\" at {pos}, got {String.ofList (Text.quoted found)}"
  | .badNumber offset error => s!"Bad enum value at {offset}: {error.message}"

end EnumError

namespace Enumeration

/-! ## Members -/

/-- The text without a double quote at its end. -/
def dropClosingQuote (t : Text) : Text :=
  if t.getLast? = some '"' then t.dropLast else t

/-- The member name that a token spells. A string literal that the end of the text cuts short has
no closing quote to be dropped. -/
def memberName? : Option Token → Option Text
  | some ⟨.identifier, text, _⟩ => some text
  | some ⟨.string, text, _⟩ => some (dropClosingQuote (text.drop 1))
  | _ => none

/-- Reads the number behind an equals sign, with a minus sign or without. -/
def readNumber (cursor : Cursor) : Except (Failure EnumError) Int × Cursor :=
  let minus := cursor.want (.text ['-'])
  match minus.2.next with
  | (some ⟨.numeric, text, offset⟩, later) =>
    match Numeral.read .dec text with
    | .ok n => (.ok (if minus.1.isSome then -n else n), later)
    | .error e => (.error (e.map (.badNumber offset)), later)
  | (found, later) => (.error (.refused (.noNumber later.pos (Token.textOf found))), later)

/-- What is read at the place of a member. -/
inductive Member where
  /-- A closing brace, or the end of the input. -/
  | last
  /-- A name, and its number if it has one of its own. -/
  | named (name : Text) (value? : Option Int)
  deriving Repr, DecidableEq

/-- Reads what stands behind a member name: a number of its own, or nothing that belongs to the
member. In the second case the next reading finds it again. -/
def readMemberEnd (name : Text) (cursor : Cursor) : Except (Failure EnumError) Member × Cursor :=
  match cursor.next with
  | (none, ended) => (.error (.refused (.badSeparator (Token.offsetOf none) [] name)), ended)
  | (some token, later) =>
    if (memberName? (some token)).isSome ∨ token.text = [','] ∨ token.text = ['}'] then
      (.ok (.named name none), later.seek token.offset)
    else if token.text = ['='] then
      let value := readNumber later
      (value.1.map fun n => .named name (some n), value.2)
    else (.error (.refused (.badSeparator token.offset token.text name)), later)

/-- Reads a member, after any commas. -/
def readMember (cursor : Cursor) : Except (Failure EnumError) Member × Cursor :=
  match cursor.exhaust (.text [',']) with
  | (true, ended) => (.ok .last, ended)
  | (false, front) =>
    let read := front.next
    if Token.textOf read.1 = ['}'] then (.ok .last, read.2)
    else match memberName? read.1 with
      | some name => readMemberEnd name read.2
      | none =>
        (.error (.refused (.noMember (Token.offsetOf read.1) (Token.textOf read.1))), read.2)

theorem remaining_readNumber {cursor later : Cursor} {n : Int}
    (h : readNumber cursor = (.ok n, later)) : later.remaining < cursor.remaining := by
  unfold readNumber at h
  refine Nat.lt_of_lt_of_le ?_ (Cursor.remaining_want_le (.text ['-']) cursor)
  dsimp only at h
  split at h
  · next text offset behind hnext =>
    split at h
    · cases h
      exact Cursor.remaining_next hnext
    · cases h
  · cases h

theorem remaining_readMemberEnd {cursor later : Cursor} {name : Text} {member : Member}
    (h : readMemberEnd name cursor = (.ok member, later)) :
    later.remaining ≤ cursor.remaining := by
  unfold readMemberEnd at h
  split at h
  · cases h
  · next token behind hnext =>
    split at h
    · cases h
      obtain ⟨hstart, -, -, rfl⟩ := Cursor.bounds_next hnext
      simp only [Cursor.remaining, Cursor.seek]
      omega
    · split at h
      · rcases hnumber : readNumber behind with ⟨result, last⟩
        rw [hnumber] at h
        cases result with
        | error e => simp [Except.map] at h
        | ok n =>
          simp only [Except.map, Prod.mk.injEq] at h
          rw [← h.2]
          exact Nat.le_of_lt
            (Nat.lt_trans (remaining_readNumber hnumber) (Cursor.remaining_next hnext))
      · cases h

theorem remaining_readMember {cursor later : Cursor} {name : Text} {value? : Option Int}
    (h : readMember cursor = (.ok (.named name value?), later)) :
    later.remaining < cursor.remaining := by
  unfold readMember at h
  split at h
  · cases h
  · next front hfront =>
    have hle := Cursor.remaining_exhaust_le (.text [',']) cursor
    rw [hfront] at hle
    refine Nat.lt_of_lt_of_le ?_ hle
    simp only at h
    split at h
    · cases h
    · split at h
      · next found hfound =>
        refine Nat.lt_of_le_of_lt (remaining_readMemberEnd h) ?_
        cases hread : front.next with
        | mk first behind =>
          cases first with
          | none => simp [hread, memberName?] at hfound
          | some token => exact Cursor.remaining_next hread
      · cases h

theorem remaining_readMember_last {cursor later : Cursor}
    (h : readMember cursor = (.ok .last, later)) : later.remaining ≤ cursor.remaining := by
  have hle := Cursor.remaining_exhaust_le (.text [',']) cursor
  unfold readMember at h
  split at h
  · next ended hended =>
    cases h
    rwa [hended] at hle
  · next front hfront =>
    rw [hfront] at hle
    simp only at h
    split at h
    · cases h
      exact Nat.le_trans (Cursor.remaining_next_le front) hle
    · split at h
      · next name _ =>
        exact Nat.le_trans (remaining_readMemberEnd h)
          (Nat.le_trans (Cursor.remaining_next_le front) hle)
      · cases h

/-- Reads the members that are left. `next` is the number of a member without one of its own. -/
def readMembers (members : NameTable) (next : Int) (cursor : Cursor) :
    Except (Failure EnumError) NameTable × Cursor :=
  match h : readMember cursor with
  | (.error e, later) => (.error e, later)
  | (.ok .last, later) => (.ok members, later)
  | (.ok (.named name value?), later) =>
    have := remaining_readMember h
    let value := value?.getD next
    readMembers (members.insert name value) (value + 1) later
termination_by cursor.remaining

/-! ## Definitions -/

def keyword : Text :=
  ['e', 'n', 'u', 'm']

/-- The tag of a definition, if an identifier stands at the cursor. -/
def readTag (cursor : Cursor) : Option Text × Cursor :=
  match cursor.want (.kind (some .identifier)) with
  | (some found, later) => (some (Token.textOf found), later)
  | (none, later) => (none, later)

def readBody (cursor : Cursor) : Except (Failure EnumError) Enumeration × Cursor :=
  let tag := readTag cursor
  let brace := tag.2.next
  if Token.textOf brace.1 = ['{'] then
    let members := readMembers ∅ 0 brace.2
    (members.1.map (⟨tag.1, ·⟩), members.2)
  else (.error (.refused (.noBrace (Token.offsetOf brace.1) (Token.textOf brace.1))), brace.2)

def read (cursor : Cursor) : Except (Failure EnumError) Enumeration × Cursor :=
  match cursor.want (.text keyword) with
  | (none, later) => (.error (.refused (.noKeyword later.pos)), later)
  | (some _, later) => readBody later

theorem remaining_readMembers {members all : NameTable} {next : Int} {cursor later : Cursor}
    (h : readMembers members next cursor = (.ok all, later)) :
    later.remaining ≤ cursor.remaining := by
  fun_induction readMembers members next cursor with
  | case1 => cases h
  | case2 members next cursor last hlast =>
    cases h
    exact remaining_readMember_last hlast
  | case3 members next cursor name value? behind hmember hlt value ih =>
    exact Nat.le_trans (ih h) (Nat.le_of_lt hlt)

theorem remaining_readTag_le (cursor : Cursor) :
    (readTag cursor).2.remaining ≤ cursor.remaining := by
  have hwant := Cursor.remaining_want_le (.kind (some .identifier)) cursor
  unfold readTag
  split <;> simp_all

/-- A definition that is read leaves the cursor no further back than it was. -/
theorem remaining_readBody {cursor later : Cursor} {enumeration : Enumeration}
    (h : readBody cursor = (.ok enumeration, later)) : later.remaining ≤ cursor.remaining := by
  have htag := remaining_readTag_le cursor
  simp only [readBody] at h
  split at h
  · rcases hmembers : readMembers ∅ 0 (readTag cursor).2.next.2 with ⟨result, last⟩
    rw [hmembers] at h
    cases result with
    | error e => simp [Except.map] at h
    | ok members =>
      simp only [Except.map, Prod.mk.injEq] at h
      rw [← h.2]
      exact Nat.le_trans (remaining_readMembers hmembers)
        (Nat.le_trans (Cursor.remaining_next_le _) htag)
  · cases h

theorem remaining_read {cursor later : Cursor} {enumeration : Enumeration}
    (h : read cursor = (.ok enumeration, later)) : later.remaining ≤ cursor.remaining := by
  have hwant := Cursor.remaining_want_le (.text keyword) cursor
  unfold read at h
  split at h
  · cases h
  · next behind hkeyword =>
    rw [hkeyword] at hwant
    exact Nat.le_trans (remaining_readBody h) hwant

end Enumeration

end BitLayout
