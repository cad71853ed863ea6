import BitLayout.Numeral
import BitLayout.Table

/-!
# Fields

A field is a named run of bits in a register. A field of width zero is an indicator: a name for
one bit at a position of its own, which may lie inside other fields. A field that has bits gets
its position only when a layout is resolved.

A field is described on one line:

    name[:width][:color][:references][:comment]

A missing width is one bit. A width that does not begin with a digit makes an indicator, and the
number behind its first character is the position of the bit; the usual first character is a
tilde. References are separated by commas. In a comment a backslash before an `n` stands for a
line feed.

`Field.ofContent` reads such a line, and says no more of a line that describes no field.
`Field.describe` writes it, without the segments at the end that say nothing.
-/

namespace BitLayout

/-- A named run of bits, or a name for one bit. Width and position are any integers, since a field
can be built by hand; a description gives only fields that fit a register. -/
structure Field where
  name : Text
  /-- The number of bits; zero makes the field an indicator. -/
  width : Int
  /-- The position of the lowest bit, once it is known. -/
  index : Option Int
  color : Option Text
  /-- The enumerations, or beginnings of macro names, that name values of the field. -/
  enumRefs : List Text
  comment : Option Text
  /-- The names that the references lead to. -/
  enums : NameTable
  deriving DecidableEq, Repr

namespace Field

/-- A field that names one bit and has none of its own. -/
def isIndicator (field : Field) : Bool :=
  field.width = 0

def low? (field : Field) : Option Int :=
  field.index

/-- The position of the highest bit; an indicator covers one. -/
def high? (field : Field) : Option Int :=
  field.index.map (· + max field.width 1 - 1)

def placeAt (field : Field) (index : Int) : Field :=
  { field with index := some index }

/-! ## Reading -/

/-- Reads a number of ASCII decimal digits, at least one of them. -/
def readCount (t : Text) : Except (Failure Unit) Nat :=
  if t ≠ [] ∧ t.all Text.isAsciiDigit then
    if Numeral.TooMany .dec t then .error .tooLong else .ok (Numeral.ofDigits .dec t)
  else .error (.refused ())

/-- What the width segment says: how many bits the field has, or which bit it names. -/
inductive Extent where
  | bits (count : Nat)
  | indicator (index : Nat)
  deriving Repr, DecidableEq

/-- Reads a width segment. No segment is one bit; no bits are not a width. -/
def readExtent : Text → Except (Failure Unit) Extent
  | [] => .ok (.bits 1)
  | c :: rest =>
    if Text.isAsciiDigit c then
      match readCount (c :: rest) with
      | .ok 0 => .error (.refused ())
      | .ok count => .ok (.bits count)
      | .error failure => .error failure
    else (readCount (Text.trim rest)).map .indicator

/-- The references of a segment, without the empty ones. -/
def readRefs (segment : Text) : List Text :=
  ((Text.splitOn ',' segment).map Text.trim).filter (· ≠ [])

def nonempty? (t : Text) : Option Text :=
  if t = [] then none else some t

/-- The five segments of a line, trimmed. The last one takes the colons that are left, and a
missing one is empty. -/
structure Segments where
  name : Text
  width : Text
  color : Text
  refs : Text
  comment : Text
  deriving Repr, DecidableEq

def Segments.ofLine (line : Text) : Segments :=
  let cut := Text.cutAt ':'
  let name := cut (Text.trim line)
  let width := cut name.2
  let color := cut width.2
  let refs := cut color.2
  ⟨Text.trim name.1, Text.trim width.1, Text.trim color.1, Text.trim refs.1, Text.trim refs.2⟩

/-- The field that segments describe, when the width segment says this. -/
def Segments.field (segments : Segments) (extent : Extent) : Field where
  name := segments.name
  width := match extent with
    | .bits count => count
    | .indicator _ => 0
  index := match extent with
    | .bits _ => none
    | .indicator index => some index
  color := nonempty? segments.color
  enumRefs := readRefs segments.refs
  comment := nonempty? (Text.replacePair '\\' 'n' ['\n'] segments.comment)
  enums := ∅

/-- Reads a line of which it is known that it describes a field. -/
def ofContent (line : Text) : Except (Failure Unit) Field :=
  let segments := Segments.ofLine line
  (readExtent segments.width).map segments.field

theorem ofContent_eq_ok_iff {line : Text} {field : Field} :
    ofContent line = .ok field ↔ ∃ extent,
      readExtent (Segments.ofLine line).width = .ok extent ∧
        (Segments.ofLine line).field extent = field := by
  simp only [ofContent]
  cases readExtent (Segments.ofLine line).width <;> simp [Except.map]

/-- The field of a line that describes one. -/
def ofContent? (line : Text) : Option Field :=
  (ofContent line).toOption

theorem ofContent?_eq_some_iff {line : Text} {field : Field} :
    ofContent? line = some field ↔ ofContent line = .ok field := by
  unfold ofContent?
  cases ofContent line <;> simp [Except.toOption]

/-- The beginnings of lines that describe something else than a field. -/
def directives : List Text :=
  [['#'], ['e', 'n', 'u', 'm'], ['t', 'y', 'p', 'e', 'd', 'e', 'f']]

/-- Reads a line that stands for itself. One that begins like a definition is not a field. -/
def ofLine (line : Text) : Except (Failure Unit) Field :=
  if directives.any (·.isPrefixOf (Text.trim line)) then .error (.refused ()) else ofContent line

/-- The field of a line that stands for itself and describes one. -/
def ofLine? (line : Text) : Option Field :=
  (ofLine line).toOption

theorem ofLine?_eq_some_iff {line : Text} {field : Field} :
    ofLine? line = some field ↔
      directives.any (·.isPrefixOf (Text.trim line)) = false ∧ ofContent line = .ok field := by
  unfold ofLine? ofLine
  split <;> next h => cases ofContent line <;> simp [Except.toOption, h]

/-! ## Writing -/

/-- The width segment. One bit needs none. -/
def describeExtent (field : Field) : Text :=
  if field.isIndicator then
    '~' :: match field.index with
      | some index => Numeral.decimal index
      | none => ['N', 'o', 'n', 'e']
  else if field.width = 1 then []
  else Numeral.decimal field.width

/-- The segments without the empty ones at the end; the first always stays. -/
def dropEmptyEnd : List Text → List Text
  | [] => []
  | first :: others => first :: (others.reverse.dropWhile (· = [])).reverse

/-- The line of a field, however many digits the number in it has. -/
def describe (field : Field) : Text :=
  Text.joinWith [':'] <| dropEmptyEnd
    [field.name,
     field.describeExtent,
     field.color.getD [],
     Text.joinWith [','] field.enumRefs,
     Text.replaceChar '\n' ['\\', 'n'] (field.comment.getD [])]

/-- The number in the width segment, if one is written there. -/
def toldNumber? (field : Field) : Option Int :=
  if field.isIndicator then field.index else if field.width = 1 then none else some field.width

/-- The line of a field, if the number in it can be written. -/
def describe? (field : Field) : Option Text :=
  if field.toldNumber?.any (Numeral.Long .dec ·) then none else some field.describe

end Field

end BitLayout
