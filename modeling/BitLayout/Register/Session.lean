import BitLayout.Register.Input

/-!
# Work with a register

Everything that can be done with a register and with the layout that was loaded for it last, as
data. `Session.step` does one thing and tells the register and the layout that it leaves, also when
it fails; `Session.run` does one thing after the other.
-/

namespace BitLayout

structure Session where
  register : Register
  /-- The layout that was loaded last. -/
  layout : Option Layout
  deriving Repr, DecidableEq

namespace Session

inductive Step where
  /-- Stores a numeral or a literal with a point. -/
  | readNumeral (text : Text) (base : Int)
  /-- Stores a numeral, if the text is one. -/
  | tryNumeral (text : Text) (base : Int)
  /-- Stores what was typed in, if it can be read. -/
  | readInput (text : Text) (request : DisplayRequest)
  /-- Stores a literal, if the text is one. -/
  | readFloat (text : Text)
  | toggle (index : Int)
  | read (index width : Int)
  | write (index width x : Int)
  | get (key : Register.Key)
  | set (key : Register.Key) (x : Int)
  | setRaw (x : Int)
  | setWidth (width : Int)
  /-- Loads the layout of a description that is not empty, and takes over its width. -/
  | load (text : Text)
  | fieldValues
  | raw
  | views
  | render (base : Int) (signed : Bool)
  | outline
  | dump
  | summary (request : DisplayRequest)
  | isFloatCapable
  | writeFloat
  deriving Repr, DecidableEq

inductive Answer where
  | done
  | flag (value : Bool)
  | number (n : Int)
  | text (text : Text)
  | views (views : Register.Views)
  | values (values : NameTable)
  deriving Repr, DecidableEq

/-! ## What can be done in a session -/

def onRegister {α : Type} (work : Work RegisterFault Register α) : Work RegisterFault Session α :=
  work.within Session.register (fun session register => { session with register := register }) id

/-- Looks at the register. -/
def view {α : Type} (look : Register → Except RegisterFault α) : Work RegisterFault Session α :=
  onRegister (Work.look look)

/-- The values of the fields of the layout that was loaded last; without one there are none. -/
def fieldValues? (session : Session) : Except Bits.Fault NameTable :=
  match session.layout with
  | some layout => session.register.fieldValues? layout
  | none => .ok ∅

/-- Loads the layout of a description, unless it is empty, and takes over its width. -/
def load (text : Text) : Work RegisterFault Session Answer := do
  match ← Work.look fun _ => (Layout.compile? text).mapError .ofDocument with
  | none => return .done
  | some layout =>
    modify fun session => { session with layout := some layout }
    onRegister (modify fun register => { register with width := layout.width })
    return .number layout.width

/-! ## Steps -/

def perform : Step → Work RegisterFault Session Answer
  | .readNumeral text base => .number <$> onRegister (Register.readNumeral text base)
  | .tryNumeral text base => .flag <$> onRegister (Register.onRaw (Value.tryNumeral text base))
  | .readInput text request => do
    let options ← Work.look fun _ => request.check.mapError .ofNumeral
    .flag <$> onRegister (Register.readInput text options)
  | .readFloat text => .flag <$> onRegister (Register.tryFloat text)
  | .toggle index => .number <$> onRegister (Register.onRaw (Value.toggle index))
  | .read index width => .number <$> onRegister (Register.onRaw (Value.read index width))
  | .write index width x => .number <$> onRegister (Register.onRaw (Value.write index width x))
  | .get key => .number <$> view fun register => (register.get key).mapError .access
  | .set key x => do
    onRegister (Register.writeAt key x)
    return .done
  | .setRaw x => do
    onRegister (modify fun register => { register with raw := x })
    return .number x
  | .setWidth width => do
    onRegister (modify fun register => { register with width := width })
    return .done
  | .load text => load text
  | .fieldValues => .values <$> Work.look fun session => session.fieldValues?.mapError .bits
  | .raw => .number <$> view fun register => .ok register.raw
  | .views => .views <$> view fun register => register.views?.mapError .bits
  | .render base signed => .text <$> view fun register => register.render base signed
  | .outline => .text <$> view fun register => register.outline?
  | .dump => .text <$> view fun register => .ok register.dump
  | .summary request => do
    let options ← Work.look fun _ => request.check.mapError .ofNumeral
    .text <$> view fun register => register.summary options
  | .isFloatCapable => .flag <$> view fun register => .ok register.isFloatCapable
  | .writeFloat => .text <$> view Register.writeFloat

def step (session : Session) (step : Step) : Except RegisterFault Answer × Session :=
  (perform step).outcome session

def run : List Step → Session → List (Except RegisterFault Answer × Session)
  | [], _ => []
  | step :: steps, session =>
    let done := session.step step
    done :: run steps done.2

end Session

end BitLayout
