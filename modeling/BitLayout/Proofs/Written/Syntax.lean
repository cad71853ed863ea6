import BitLayout.Document

/-!
# Written descriptions

Descriptions as they are written by hand: lines, each with a declaration, a
comment or nothing on it, and with blanks and closed comments in front of
that. A declaration is a macro, an enumeration with its keyword or behind
`typedef`, or the line of a field that can be read back.

`text` writes lines down and `items` says what they mean. Neither knows of
tokens or cursors; that the compiler reads the one as the other is proved
in the modules beside this one.
-/

namespace BitLayout

namespace Written

/-! ## Syntax -/

/-- A letter or an underscore, and behind it letters, digits and underscores. -/
structure Identifier where
  text : Text
  head : text.head?.any (fun c => Token.isWordChar c && !Text.isAsciiDigit c) = true
  word : text.all Token.isWordChar = true

/-- A number in a radix in which it can be written. -/
structure Number where
  radix : Radix
  value : Int
  short : ¬ Numeral.Long radix value

/-- A member, and its number if it has one of its own. -/
structure Member where
  name : Identifier
  number? : Option Number

/-- The line of a field, which is read back as the field, and which cannot be
taken for another declaration. Its width has been read, so it can be written. -/
structure FieldLine where
  field : Field
  readBack : Field.ofContent? field.describe = some field
  oneLine : '\n' ∉ field.describe
  head : field.describe.head?.any (fun c => Token.isWordChar c && !Text.isAsciiDigit c) = true
  not_keyword : field.describe.takeWhile Token.isWordChar ≠ Enumeration.keyword ∧
    field.describe.takeWhile Token.isWordChar ≠ ['t', 'y', 'p', 'e', 'd', 'e', 'f']
  unescaped : field.describe.getLast? ≠ some '\\'

inductive Declaration where
  | define (name : Identifier) (number : Number) (nonneg : 0 ≤ number.value)
  | enumeration (tag : Option Identifier) (members : List Member)
  | typedef (tag second : Option Identifier) (members : List Member)
  | field (line : FieldLine)

/-- What may stand in front of a declaration. -/
inductive Filler where
  | space
  | tab
  /-- A comment, closed by the first mark that closes one. -/
  | comment (body : Text) (closed : ¬ ['*', '/'] <:+: body)

/-- What stands on a line behind its fillers. -/
inductive Content where
  | nothing
  /-- A comment through the end of the line. -/
  | comment (body : Text) (oneLine : '\n' ∉ body)
  | declaration (item : Declaration)

structure Line where
  fillers : List Filler
  content : Content

/-! ## Writing -/

def Number.text (number : Number) : Text :=
  Numeral.render number.radix number.value

def Member.numberText (member : Member) : Text :=
  match member.number? with
  | some number => [' ', '=', ' '] ++ number.text
  | none => []

def Member.text (member : Member) : Text :=
  member.name.text ++ member.numberText

/-- A word with a blank in front of it, or nothing. -/
def optional (word : Option Identifier) : Text :=
  match word with
  | some word => ' ' :: word.text
  | none => []

/-- The members in braces, a comma between neighbours. -/
def block (members : List Member) : Text :=
  [' ', '{'] ++ Text.joinWith [','] (members.map fun member => ' ' :: member.text) ++ [' ', '}']

def Declaration.text : Declaration → Text
  | .define name number _ =>
    ['#', 'd', 'e', 'f', 'i', 'n', 'e', ' '] ++ name.text ++ ' ' :: number.text
  | .enumeration tag members => Enumeration.keyword ++ optional tag ++ block members ++ [';']
  | .typedef tag second members =>
    ['t', 'y', 'p', 'e', 'd', 'e', 'f', ' '] ++ Enumeration.keyword ++ optional tag ++
      block members ++ optional second ++ [';']
  | .field line => line.field.describe

def Filler.text : Filler → Text
  | .space => [' ']
  | .tab => ['\t']
  | .comment body _ => ['/', '*'] ++ body ++ ['*', '/']

def Content.text : Content → Text
  | .nothing => []
  | .comment body _ => ['/', '/'] ++ body
  | .declaration item => item.text

def Line.text (line : Line) : Text :=
  line.fillers.flatMap Filler.text ++ line.content.text

/-- The lines, one below the other. -/
def text (lines : List Line) : Text :=
  Text.joinWith ['\n'] (lines.map Line.text)

example :
    text
      [⟨[.comment [' ', 'a', ' '] (by decide), .space],
        .declaration (.define ⟨['A'], rfl, rfl⟩ ⟨.hex, 26, by decide⟩ (by decide))⟩,
       ⟨[], .declaration (.typedef none (some ⟨['B'], rfl, rfl⟩)
        [⟨⟨['C'], rfl, rfl⟩, none⟩, ⟨⟨['D'], rfl, rfl⟩, some ⟨.dec, -1, by decide⟩⟩])⟩,
       ⟨[.tab], .declaration (.field ⟨⟨['f'], 3, none, none, [['B']], none, ∅⟩,
        by decide, by decide, by decide, by decide, by decide⟩)⟩] =
      "/* a */ #define A 0x1a\ntypedef enum { C, D = -1 } B;\n\tf:3::B".toList := by
  decide

/-! ## Meaning -/

/-- The members with their numbers: its own, or one more than the one before. -/
def numbered (counter : Int) : List Member → List (Text × Int)
  | [] => []
  | member :: members =>
    let value := (member.number?.map Number.value).getD counter
    (member.name.text, value) :: numbered (value + 1) members

/-- The members of an enumeration. -/
def table (members : List Member) : NameTable :=
  Table.ofList (numbered 0 members)

def Content.declaration? : Content → Option Declaration
  | .declaration item => some item
  | _ => none

/-- The declarations in their order. -/
def declarations (lines : List Line) : List Declaration :=
  lines.filterMap (·.content.declaration?)

/-- The item that a declaration is read as. -/
def Declaration.item : Declaration → Item
  | .define name number _ => .define name.text number.value
  | .enumeration tag members => .enumeration (tag.map Identifier.text).toList (table members)
  | .typedef tag second members =>
    .enumeration ((second.map Identifier.text).toList ++ (tag.map Identifier.text).toList)
      (table members)
  | .field line =>
    match line.field.index with
    | some index => .indicator index.toNat line.field
    | none => .field line.field

end Written

end BitLayout
