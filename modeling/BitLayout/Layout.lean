import BitLayout.Document
import BitLayout.Field.Names

/-!
# Layouts

A layout says which bits of a register each field of a description covers. The fields are packed
without gaps, the first one uppermost and the last one down to bit zero. If an indicator names a
bit above them, an unnamed field is put in front that reaches up to the highest such bit.

`Layout.declare` collects the items of a description one after the other, and `Layout.resolve`
places what was collected and looks up the names for the values of each field.
-/

namespace BitLayout

/-- Which bits of a register are which field. -/
structure Layout where
  /-- The fields that have bits, uppermost first. -/
  fields : List Field
  /-- The indicators by the bit they name, in the order in which the bits were first named. -/
  bits : Table Int Field
  enumTypes : EnumTypes
  /-- The number of bits of a register with this layout. -/
  width : Int
  deriving DecidableEq, Repr

namespace Layout

def empty : Layout :=
  ⟨[], ∅, ∅, 0⟩

instance : EmptyCollection Layout := ⟨empty⟩

instance : Inhabited Layout := ⟨∅⟩

/-- No field and no indicator is declared; there may be enumerations and macros. -/
def isEmpty (layout : Layout) : Bool :=
  layout.fields.isEmpty && layout.bits.isEmpty

/-- Some field with bits refers to names for its values. -/
def hasEnums (layout : Layout) : Bool :=
  layout.fields.any fun field => field.enumRefs ≠ []

/-! ## From items to a layout -/

/-- Adds what an item declares. A second indicator for a bit replaces the first one. -/
def declare (layout : Layout) : Item → Layout
  | .define name value =>
    { layout with enumTypes := layout.enumTypes.defineMacro name value }
  | .enumeration names members =>
    { layout with enumTypes := layout.enumTypes.define names members }
  | .field field => { layout with fields := layout.fields ++ [field] }
  | .indicator index field => { layout with bits := layout.bits.insert index field }

/-- All that a description declares, before anything is placed. -/
def declareAll (items : List Item) : Layout :=
  items.foldl declare ∅

def totalWidth (fields : List Field) : Int :=
  fields.foldr (fun field width => field.width + width) 0

/-- The least width that is not below `width` and has room for each of the bits. -/
def widthFor (width : Int) (bits : List Int) : Int :=
  bits.foldl (fun w bit => max w (bit + 1)) width

def padding (width : Int) : Field :=
  ⟨[], width, none, none, [], none, ∅⟩

/-- The fields with one without a name in front that makes them `width` bits together, where one
is missing. -/
def padTo (width : Int) (fields : List Field) : List Field :=
  if totalWidth fields < width then padding (width - totalWidth fields) :: fields else fields

/-- The fields packed one below the other, the first one right below bit `top`. -/
def place (top : Int) : List Field → List Field
  | [] => []
  | field :: fields =>
    field.placeAt (top - field.width) :: place (top - field.width) fields

/-- The layout with its fields placed and the names for their values looked up. -/
def resolve (layout : Layout) : Layout :=
  let width := widthFor (totalWidth layout.fields) layout.bits.keys
  let named := Field.collectNames layout.enumTypes
  { layout with
    fields := (place width (padTo width layout.fields)).map named
    bits := layout.bits.mapValues named
    width := width }

def ofItems (items : List Item) : Layout :=
  let declared := declareAll items
  if declared.isEmpty then declared else declared.resolve

/-- The layout that a text describes; it may be empty. -/
def ofText (text : Text) : Except (Failure DocumentError) Layout :=
  (Document.read text).map ofItems

/-- The layout that a text describes, if it describes any bits. -/
def compile? (text : Text) : Except (Failure DocumentError) (Option Layout) :=
  (ofText text).map fun layout => if layout.isEmpty then none else some layout

/-! ## Looking up fields -/

structure NoSuchField where
  name : Text
  deriving Repr, DecidableEq

/-- What is told about the error: the name, and no more. -/
def NoSuchField.message (error : NoSuchField) : String :=
  String.ofList (Text.quoted error.name)

/-- The first field of the name, or else the first indicator of it. -/
def find? (layout : Layout) (name : Text) : Option Field :=
  (layout.fields ++ layout.bits.values).find? (·.name = name)

def field (layout : Layout) (name : Text) : Except NoSuchField Field :=
  match layout.find? name with
  | some field => .ok field
  | none => .error ⟨name⟩

/-! ## Outlines -/

def outlineField (field : Field) : Text :=
  let index := match field.index with
    | some index => Numeral.decimal index
    | none => "None".toList
  "Field(".toList ++ Text.quoted field.name ++ ", width=".toList ++ Numeral.decimal field.width ++
    ", index=".toList ++ index ++ [')']

/-- The fields of a layout that is still open to changes stand in square brackets; those of a
finished layout in round ones, with a comma behind a single field. -/
def outlineFields (finished : Bool) (fields : List Field) : Text :=
  let inner := Text.joinWith ", ".toList (fields.map outlineField)
  if finished then ['('] ++ inner ++ (if fields.length = 1 then [','] else []) ++ [')']
  else ['['] ++ inner ++ [']']

/-- The outline of a layout, however many digits the numbers in it have. -/
def outline (layout : Layout) (finished : Bool) : Text :=
  "Format(width=".toList ++ Numeral.decimal layout.width ++
    ", fields=".toList ++ outlineFields finished layout.fields ++
    ", bits=[".toList ++ Text.joinWith ", ".toList (layout.bits.keys.map Numeral.decimal) ++
    "])".toList

/-- The numbers that the outline tells. -/
def outlineNumbers (layout : Layout) : List Int :=
  layout.width :: layout.fields.flatMap (fun field => field.width :: field.index.toList) ++
    layout.bits.keys

/-- The outline of a layout, if all numbers in it can be written. -/
def outline? (layout : Layout) (finished : Bool) : Option Text :=
  if layout.outlineNumbers.any (Numeral.Long .dec ·) then none else some (layout.outline finished)

end Layout

end BitLayout
