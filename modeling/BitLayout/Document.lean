import BitLayout.Enumeration
import BitLayout.Field

/-!
# Format descriptions

A description is a sequence of items, and the first token of each says what it is:

    #define NAME NUMBER
    enum [Name] { A [= N], B, ... };
    typedef enum [Name] { A [= N], B, ... } [Name];
    name[:width][:color][:references][:comment]

Definitions are read token by token and may spread over several lines; what follows a macro on its
line is passed over, and so are semicolons behind an enumeration. A field takes its line as it
stands, where a backslash at the end of a line joins it to the next.

`Document.read` reads all items or says where and why one of them cannot be read.
-/

namespace BitLayout

inductive Item where
  /-- A name for a number, shared by the whole description. -/
  | define (name : Text) (value : Int)
  /-- An enumeration under each of the names; without a name its members count as macros. -/
  | enumeration (names : List Text) (members : NameTable)
  | field (field : Field)
  /-- A name for the bit at a position. -/
  | indicator (index : Nat) (field : Field)
  deriving DecidableEq, Repr

/-- Why a description cannot be read, and where the item begins that cannot. -/
inductive DocumentError where
  | badDefine (start : Nat)
  | badDefineValue (name : Text) (start : Nat) (error : NumeralError)
  | badEnumeration (start : Nat) (error : EnumError)
  | badField (start : Nat) (line : Text)
  deriving Repr, DecidableEq

namespace DocumentError

/-- What is told about the error. An error inside the item is told as well. -/
def message : DocumentError → String
  | .badDefine start => s!"Cannot parse C macro as a numeric define at {start}"
  | .badDefineValue name start error =>
    s!"Bad value for macro {String.ofList (Text.quoted name)} at {start}: {error.message}"
  | .badEnumeration start error => s!"Cannot parse an enum at {start}: {error.message}"
  | .badField start line =>
    s!"Cannot parse a field description at {start}: {String.ofList (Text.quoted line)}"

end DocumentError

namespace Document

/-- What is read of a description, and the cursor behind it. -/
abbrev Reading (α : Type) := Except (Failure DocumentError) (α × Cursor)

/-! ## Items -/

/-- Reads a macro behind its number sign. -/
def readDefine (cursor : Cursor) : Reading Item :=
  let matched := cursor.matchAll
    [.text ['d', 'e', 'f', 'i', 'n', 'e'], .kind (some .identifier), .kind (some .numeric)]
  match matched.1 with
  | [_, name, value] =>
    match Numeral.read .dec value with
    | .ok value => .ok (.define name value, (matched.2.split ['\n']).2)
    | .error e => .error (e.map (.badDefineValue name cursor.pos))
  | _ => .error (.refused (.badDefine cursor.pos))

def skipSemicolons (cursor : Cursor) : Cursor :=
  (cursor.exhaust (.text [';'])).2

/-- Reads an enumeration whose keyword, at `start`, was just read. -/
def readEnumeration (start : Nat) (cursor : Cursor) : Reading Item :=
  match Enumeration.readBody cursor with
  | (.ok enumeration, later) =>
    .ok (.enumeration enumeration.name.toList enumeration.members, skipSemicolons later)
  | (.error e, _) => .error (e.map (.badEnumeration start))

/-- Reads the enumeration behind `typedef`, which may have a second name at its end. -/
def readTypedef (cursor : Cursor) : Reading Item :=
  match Enumeration.read cursor with
  | (.ok enumeration, later) =>
    let second := Enumeration.readTag later
    .ok (.enumeration (second.1.toList ++ enumeration.name.toList) enumeration.members,
      skipSemicolons second.2)
  | (.error e, _) => .error (e.map (.badEnumeration cursor.pos))

/-- Reads the line of a field whose first token begins at `start` and was just read. -/
def readField (start : Nat) (cursor : Cursor) : Reading Item :=
  let cut := cursor.split ['\n']
  let line := Text.replacePair '\\' '\n' [' '] (cursor.slice (some start) (some cut.1))
  match Field.ofContent line with
  | .error e => .error (e.map fun _ => .badField start line)
  | .ok field =>
    match field.index with
    | some index => .ok (.indicator index.toNat field, cut.2)
    | none => .ok (.field field, cut.2)

def readItem (token : Token) (cursor : Cursor) : Reading Item :=
  if token.text = ['#'] then readDefine cursor
  else if token.text = ['t', 'y', 'p', 'e', 'd', 'e', 'f'] then readTypedef cursor
  else if token.text = Enumeration.keyword then readEnumeration token.offset cursor
  else readField token.offset cursor

/-! ## Progress -/

theorem remaining_skipSemicolons_le (cursor : Cursor) :
    (skipSemicolons cursor).remaining ≤ cursor.remaining :=
  Cursor.remaining_exhaust_le _ cursor

theorem remaining_readDefine {cursor later : Cursor} {item : Item}
    (h : readDefine cursor = .ok (item, later)) : later.remaining ≤ cursor.remaining := by
  simp only [readDefine] at h
  split at h
  · split at h
    · cases h
      exact Nat.le_trans (Cursor.remaining_split_le _ _) (Cursor.remaining_matchAll_le _ _)
    · cases h
  · cases h

theorem remaining_readEnumeration {start : Nat} {cursor later : Cursor} {item : Item}
    (h : readEnumeration start cursor = .ok (item, later)) :
    later.remaining ≤ cursor.remaining := by
  unfold readEnumeration at h
  split at h
  · next enumeration behind hbody =>
    cases h
    exact Nat.le_trans (remaining_skipSemicolons_le _) (Enumeration.remaining_readBody hbody)
  · cases h

theorem remaining_readTypedef {cursor later : Cursor} {item : Item}
    (h : readTypedef cursor = .ok (item, later)) : later.remaining ≤ cursor.remaining := by
  unfold readTypedef at h
  split at h
  · next enumeration behind hread =>
    cases h
    exact Nat.le_trans (remaining_skipSemicolons_le _)
      (Nat.le_trans (Enumeration.remaining_readTag_le _) (Enumeration.remaining_read hread))
  · cases h

theorem remaining_readField {start : Nat} {cursor later : Cursor} {item : Item}
    (h : readField start cursor = .ok (item, later)) : later.remaining ≤ cursor.remaining := by
  simp only [readField] at h
  split at h
  · cases h
  · split at h <;> cases h <;> exact Cursor.remaining_split_le _ _

/-- Reading an item does not step back behind its first token. -/
theorem remaining_readItem {token : Token} {cursor later : Cursor} {item : Item}
    (h : readItem token cursor = .ok (item, later)) : later.remaining ≤ cursor.remaining := by
  unfold readItem at h
  split at h
  · exact remaining_readDefine h
  · split at h
    · exact remaining_readTypedef h
    · split at h
      · exact remaining_readEnumeration h
      · exact remaining_readField h

/-! ## Descriptions -/

def readItems (cursor : Cursor) : Except (Failure DocumentError) (List Item) :=
  match hnext : cursor.next with
  | (none, _) => .ok []
  | (some token, behind) =>
    match hitem : readItem token behind with
    | .error e => .error e
    | .ok (item, later) =>
      have : later.remaining < cursor.remaining :=
        Nat.lt_of_le_of_lt (remaining_readItem hitem) (Cursor.remaining_next hnext)
      (readItems later).map (item :: ·)
termination_by cursor.remaining

def read (text : Text) : Except (Failure DocumentError) (List Item) :=
  readItems (Cursor.ofText text)

end Document

end BitLayout
