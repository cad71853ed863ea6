import BitLayout.Register.Input

/-!
# Reports

What a register holds, field by field, one line each: first the fields that have bits, from the
uppermost down, each with its value and the first name for it; then the indicators from the lowest
bit up. Names are aligned to the right.

A small status register shows all parts together: its description is compiled, a value is loaded
into it and shown field by field, and one field is then set by the name of its value.
-/

namespace BitLayout

namespace Report

/-- Names shorter than this are aligned. -/
def nameWidth : Nat :=
  8

def label? (names : NameTable) (value : Int) : Option Text :=
  (names.entries.find? (·.2 = value)).map Prod.fst

-- There is no limit to be looked at here: the bits of a register with a position that is too long
-- to be written would fit no memory.
def position : Option Int → Text
  | some n => Numeral.decimal n
  | none => "None".toList

def fieldLine (field : Field) (value : Int) : Text :=
  let label := match label? field.enums value with
    | some name => " (".toList ++ name ++ [')']
    | none => []
  Text.alignRight nameWidth field.name ++ " [".toList ++ position field.high? ++ [':'] ++
    position field.low? ++ "] = ".toList ++ Numeral.render .hex value ++ label ++ ['\n']

def indicatorLine (name : Text) (index value : Int) : Text :=
  Text.alignRight nameWidth name ++ " [".toList ++ Numeral.decimal index ++ "] = ".toList ++
    Numeral.decimal value ++ ['\n']

/-- The indicators of a layout from the lowest bit up. -/
def indicators (layout : Layout) : List (Int × Field) :=
  layout.bits.entries.mergeSort fun a b => a.1 ≤ b.1

def lines? (layout : Layout) (register : Register) : Except Bits.Fault (List Text) := do
  let fields ← layout.fields.mapM fun field => do
    return fieldLine field (← register.readField? field)
  let bits ← (indicators layout).mapM fun bit => do
    return indicatorLine bit.2.name bit.1 (← Bits.extract? register.raw bit.1 1)
  return fields ++ bits

def describe? (layout : Layout) (register : Register) : Except Bits.Fault Text :=
  (lines? layout register).map List.flatten

end Report

/-! ## A status register -/

namespace StatusRegister

/-- A field for the state, one for the speed, a counter, and an indicator inside the state. -/
def description : Text :=
  Text.joinWith ['\n'] <| List.map String.toList
    ["",
     "#define STATE_IDLE 0",
     "#define STATE_RUN 1",
     "#define STATE_ERR 3",
     "",
     "enum Speed \x7b SLOW, FAST = 2, TURBO \x7d;",
     "",
     "state:2:lightgreen:STATE:Controller state",
     "speed:2::Speed",
     "count:4",
     "irq:~7:red",
     ""]

/-- The register with a field set to the value of a name, if the field has such a name. -/
def setByName? (register : Register) (field : Field) (name : Text) : Option Register := do
  let index ← field.index
  let value ← field.enums.find? name
  let raw ← (Bits.insert? register.raw index field.width value).toOption
  return { register with raw := raw }

def report? : Option Text := do
  let layout ← (← (Layout.compile? description).toOption)
  let empty : Register := ⟨layout.width, 0⟩
  let loading := (Register.readNumeral "0x7a".toList 16).outcome empty
  let _ ← loading.1.toOption
  let loaded := loading.2
  let first ← (loaded.summary ⟨.bin, false, false⟩).toOption
  let fields ← (Report.describe? layout loaded).toOption
  let speed ← layout.find? "speed".toList
  let fast ← setByName? loaded speed "TURBO".toList
  let last ← (fast.summary ⟨.hex, false, false⟩).toOption
  return first ++ ['\n'] ++ fields ++ last ++ ['\n']

end StatusRegister

end BitLayout
