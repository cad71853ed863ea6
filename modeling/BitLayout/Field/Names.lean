import BitLayout.Field
import BitLayout.Text.UpperCase

/-!
# Named values

A description names numbers in two ways: by enumerations, which have a name themselves, and by
macros, which share one table with the enumerations that have no name.

A reference of a field that is the name of an enumeration leads to all of its members, and a later
enumeration overrides an earlier one. Any other reference leads to the macros that begin with it,
in either case; these never override a member of an enumeration.
-/

namespace BitLayout

/-- All names for numbers that a description gives. -/
structure EnumTypes where
  /-- Macros, and members of enumerations without a name. -/
  macros : NameTable
  /-- Enumerations by name. -/
  named : Table Text NameTable
  deriving DecidableEq, Repr

namespace EnumTypes

def empty : EnumTypes :=
  ⟨∅, ∅⟩

instance : EmptyCollection EnumTypes := ⟨empty⟩

/-- Adds members under each of the names, where they replace former members, or to the macros if
there is no name. -/
def define (types : EnumTypes) (names : List Text) (members : NameTable) : EnumTypes :=
  if names = [] then { types with macros := types.macros.merge members }
  else { types with named := names.foldl (fun named name => named.insert name members) types.named }

def defineMacro (types : EnumTypes) (name : Text) (value : Int) : EnumTypes :=
  { types with macros := types.macros.insert name value }

end EnumTypes

/-! ## The names of a field -/

namespace Field

/-- The members of the enumerations that references name, in the order of the references. -/
def typeMembers (types : EnumTypes) (refs : List Text) : NameTable :=
  (refs.filterMap types.named.find?).foldl Table.merge ∅

/-- The upper-case forms of the references that name no enumeration. -/
def macroStarts (types : EnumTypes) (refs : List Text) : List Text :=
  (refs.filter fun ref => !types.named.contains ref).map Text.upper

/-- The macros with a name that begins, in upper case, with one of the starts. -/
def matchingMacros (types : EnumTypes) (starts : List Text) : List (Text × Int) :=
  types.macros.entries.filter fun e => starts.any (·.isPrefixOf (Text.upper e.1))

def namesOf (types : EnumTypes) (refs : List Text) : NameTable :=
  let members := typeMembers types refs
  members.insertAll <|
    (matchingMacros types (macroStarts types refs)).filter fun e => !members.contains e.1

/-- The field with the names that its references lead to, and no others. -/
def collectNames (types : EnumTypes) (field : Field) : Field :=
  { field with enums := namesOf types field.enumRefs }

end Field

end BitLayout
