import BitLayout.Register.Session

/-!
# Failed steps change nothing

Work keeps whatever it changed before it failed, so a step that stores
first and fails later would leave its mark. None does. The reason is the
same for all of them: work looks before it stores, and once it has stored
it neither fails nor answers that a text could not be read.

`Transacts` says this of one piece of work, for the answers that count as
refusals, and `Certain` says that work can no longer fail or refuse. Put
together one after the other (`Transacts.bind`), or with one as the
recovery from the other (`Transacts.tryCatch`), such work is of the same
kind, so each step is (`transacts_perform`); a run of steps then is by
induction. Where a reader falls back from numerals to literals, the second
attempt starts in the state that the first one left: that this is the
state before both is what the case `tryCatch` needs.
-/

namespace BitLayout

namespace Work

variable {ε φ σ τ α β : Type} {refusal : α → Prop} {refusal' : β → Prop}

/-- An outcome that leaves the state as it was, if it is a fault or a refusal. -/
def Unmarked (refusal : α → Prop) (state : σ) : Except ε α × σ → Prop
  | (.ok answer, later) => refusal answer → later = state
  | (.error _, later) => later = state

/-- A fault, or a refusal, leaves the state as it was. -/
def Transacts (refusal : α → Prop) (work : Work ε σ α) : Prop :=
  ∀ state, Unmarked refusal state (work.outcome state)

/-- There is no fault, and no refusal. -/
def Certain (refusal : α → Prop) (work : Work ε σ α) : Prop :=
  ∀ state, ∃ answer later, work.outcome state = (.ok answer, later) ∧ ¬ refusal answer

theorem Certain.transacts {work : Work ε σ α} (h : Certain refusal work) :
    Transacts refusal work := by
  intro state
  obtain ⟨answer, later, houtcome, hanswer⟩ := h state
  rw [houtcome]
  exact fun hrefusal => absurd hrefusal hanswer

/-! ## Looking and storing -/

theorem certain_pure {answer : α} (h : ¬ refusal answer) :
    Certain refusal (pure answer : Work ε σ α) :=
  fun state => ⟨answer, state, rfl, h⟩

theorem certain_modify (change : σ → σ) :
    Certain (fun _ => False) (modify change : Work ε σ Unit) :=
  fun state => ⟨(), change state, rfl, id⟩

theorem certain_current : Certain (fun _ => False) (current : Work ε σ σ) :=
  fun state => ⟨state, state, rfl, id⟩

theorem transacts_pure (refusal : α → Prop) (answer : α) :
    Transacts refusal (pure answer : Work ε σ α) :=
  fun _ _ => rfl

theorem transacts_throw (refusal : α → Prop) (fault : ε) :
    Transacts refusal (throw fault : Work ε σ α) :=
  fun _ => rfl

/-- A look changes nothing, whatever its answer. -/
theorem transacts_look (refusal : α → Prop) (view : σ → Except ε α) :
    Transacts refusal (look view) := by
  intro state
  rw [outcome_look]
  cases view state with
  | ok answer => exact fun _ => rfl
  | error fault => rfl

/-! ## Work made of work -/

theorem Certain.bind {work : Work ε σ α} {next : α → Work ε σ β}
    (h : Certain (fun _ => False) work) (hnext : ∀ answer, Certain refusal' (next answer)) :
    Certain refusal' (work >>= next) := by
  intro state
  obtain ⟨answer, later, houtcome, -⟩ := h state
  rw [outcome_bind, houtcome]
  exact hnext answer later

/-- Behind a refusal the state is still the one at the beginning, and the
rest has to be careful itself; behind anything else it must not fail. -/
theorem Transacts.bind {work : Work ε σ α} {next : α → Work ε σ β} (h : Transacts refusal work)
    (hrefused : ∀ answer, refusal answer → Transacts refusal' (next answer))
    (hdone : ∀ answer, ¬ refusal answer → Certain refusal' (next answer)) :
    Transacts refusal' (work >>= next) := by
  intro state
  have hstate := h state
  rw [outcome_bind]
  match houtcome : work.outcome state with
  | (.error fault, later) =>
    rw [houtcome] at hstate
    exact hstate
  | (.ok answer, later) =>
    rw [houtcome] at hstate
    by_cases hanswer : refusal answer
    · obtain rfl : later = state := hstate hanswer
      exact hrefused answer hanswer later
    · obtain ⟨final, last, hfinal, hnot⟩ := hdone answer hanswer later
      dsimp only
      rw [hfinal]
      exact fun hrefusal => absurd hrefusal hnot

/-- What only looked may be followed by anything careful. -/
theorem Transacts.look_bind {view : σ → Except ε α} {next : α → Work ε σ β}
    (h : ∀ answer, Transacts refusal' (next answer)) : Transacts refusal' (look view >>= next) :=
  (transacts_look (fun _ => True) view).bind (fun answer _ => h answer)
    fun _ hfalse => absurd trivial hfalse

theorem Transacts.map {work : Work ε σ α} (h : Transacts refusal work) (f : α → β)
    (hf : ∀ answer, refusal' (f answer) → refusal answer) : Transacts refusal' (f <$> work) := by
  rw [← bind_pure_comp]
  refine h.bind (fun answer _ => transacts_pure _ _) fun answer hanswer => certain_pure ?_
  exact fun hrefusal => hanswer (hf answer hrefusal)

theorem Transacts.tryCatch {work : Work ε σ α} {handler : ε → Work ε σ α}
    (h : Transacts refusal work) (hhandler : ∀ fault, Transacts refusal (handler fault)) :
    Transacts refusal (tryCatch work handler) := by
  intro state
  have hstate := h state
  rw [outcome_tryCatch]
  match houtcome : work.outcome state with
  | (.ok answer, later) =>
    rw [houtcome] at hstate
    exact hstate
  | (.error fault, later) =>
    rw [houtcome] at hstate
    obtain rfl : later = state := hstate
    exact hhandler fault later

theorem Certain.within {work : Work ε σ α} (h : Certain refusal work) (part : τ → σ)
    (replace : τ → σ → τ) (fault : ε → φ) : Certain refusal (work.within part replace fault) := by
  intro state
  obtain ⟨answer, later, houtcome, hanswer⟩ := h (part state)
  refine ⟨answer, replace state later, ?_, hanswer⟩
  rw [outcome_within, houtcome]
  rfl

theorem Transacts.within {work : Work ε σ α} (h : Transacts refusal work) {part : τ → σ}
    {replace : τ → σ → τ} (hpart : ∀ state, replace state (part state) = state) (fault : ε → φ) :
    Transacts refusal (work.within part replace fault) := by
  intro state
  have hstate := h (part state)
  rw [outcome_within]
  match houtcome : work.outcome (part state) with
  | (.error fault, later) =>
    rw [houtcome] at hstate
    obtain rfl : later = part state := hstate
    exact hpart state
  | (.ok answer, later) =>
    rw [houtcome] at hstate
    intro hanswer
    obtain rfl : later = part state := hstate hanswer
    exact hpart state

end Work

open Work

/-- The answer of a reader that could not read. -/
def refused (answer : Bool) : Prop :=
  answer = false

theorem not_refused : ¬ refused true :=
  Bool.noConfusion

/-! ## The stored integer -/

namespace Value

/-- Finding the number to store is all that can go wrong. -/
theorem transacts_store {find : Int → Except Fault Int} (refusal : Int → Prop)
    (h : ∀ n, ¬ refusal n) :
    Transacts refusal (do let n ← look find; set n; return n) :=
  Transacts.look_bind fun n =>
    ((certain_modify fun _ => n).bind fun _ => certain_pure (h n)).transacts

theorem transacts_readNumeral (text : Text) (base : Int) :
    Transacts (fun _ => False) (readNumeral text base) :=
  transacts_store _ fun _ => id

theorem transacts_toggle (index : Int) : Transacts (fun _ => False) (toggle index) :=
  transacts_store _ fun _ => id

theorem transacts_write (index width x : Int) :
    Transacts (fun _ => False) (write index width x) :=
  transacts_store _ fun _ => id

theorem transacts_tryNumeral (text : Text) (base : Int) :
    Transacts refused (tryNumeral text base) := by
  refine Transacts.tryCatch ?_ fun fault => ?_
  · refine (transacts_readNumeral text base).bind (fun _ hfalse => hfalse.elim) fun _ _ => ?_
    exact certain_pure not_refused
  · split
    · exact transacts_pure _ _
    · exact transacts_throw _ _

end Value

/-! ## Registers -/

namespace Register

theorem transacts_onRaw {α : Type} {refusal : α → Prop} {work : Work Value.Fault Int α}
    (h : Transacts refusal work) : Transacts refusal (onRaw work) :=
  h.within (fun _ => rfl) _

theorem transacts_tryFloat (text : Text) : Transacts refused (tryFloat text) := by
  refine Transacts.look_bind fun format => ?_
  split
  · exact ((certain_modify _).bind fun _ => certain_pure not_refused).transacts
  · exact transacts_pure _ _

theorem transacts_readNumeral (text : Text) (base : Int) :
    Transacts (fun _ => False) (readNumeral text base) := by
  refine (transacts_onRaw (Value.transacts_readNumeral text base)).tryCatch fun fault => ?_
  split
  · refine Transacts.look_bind fun register => ?_
    split
    · refine (transacts_tryFloat text).bind (fun answer hrefused => ?_) fun answer hdone => ?_
      · rw [hrefused]
        exact transacts_throw _ _
      · rw [eq_true_of_ne_false hdone]
        exact certain_current.bind fun later => certain_pure id
    · exact transacts_throw _ _
  · exact transacts_throw _ _

theorem transacts_readInput (text : Text) (options : DisplayOptions) :
    Transacts refused (readInput text options) := by
  refine (transacts_onRaw (Value.transacts_tryNumeral text options.radix.base)).bind
    (fun answer hrefused => ?_) fun answer hdone => ?_
  · rw [hrefused]
    refine Transacts.look_bind fun register => ?_
    split
    · exact transacts_tryFloat text
    · exact transacts_pure _ _
  · rw [eq_true_of_ne_false hdone]
    exact certain_pure not_refused

theorem transacts_writeAt (key : Key) (x : Int) :
    Transacts (fun _ => False) (writeAt key x) := by
  refine Transacts.look_bind fun span => ?_
  refine (transacts_onRaw (Value.transacts_write span.1 span.2 x)).bind
    (fun _ hfalse => hfalse.elim) fun _ _ => certain_pure id

end Register

/-! ## Sessions -/

namespace Session

theorem transacts_onRegister {α : Type} {refusal : α → Prop}
    {work : Work RegisterFault Register α} (h : Transacts refusal work) :
    Transacts refusal (onRegister work) :=
  h.within (fun _ => rfl) _

theorem transacts_view {α : Type} (refusal : α → Prop) (look : Register → Except RegisterFault α) :
    Transacts refusal (view look) :=
  transacts_onRegister (transacts_look _ look)

/-- The steps that answer whether a text could be read. -/
def Step.isAttempt : Step → Bool
  | .tryNumeral _ _ | .readInput _ _ | .readFloat _ => true
  | _ => false

/-- The answer that a text could not be read. -/
def Step.Refusal (step : Step) (answer : Answer) : Prop :=
  step.isAttempt = true ∧ answer = .flag false

/-- The step failed, or it was to read a text and answers that it could not. -/
def Step.Refused (step : Step) : Except RegisterFault Answer → Prop
  | .error _ => True
  | .ok answer => step.Refusal answer

theorem Step.not_refusal {step : Step} (h : step.isAttempt = false) (answer : Answer) :
    ¬ step.Refusal answer :=
  fun hrefusal => Bool.noConfusion (h.symm.trans hrefusal.1)

/-- The description is compiled before anything is taken over from it. -/
theorem transacts_load (text : Text) : Transacts (Step.load text).Refusal (load text) := by
  refine Transacts.look_bind fun layout? => ?_
  split
  · exact transacts_pure _ _
  · refine Certain.transacts ((certain_modify _).bind fun _ => ?_)
    exact ((certain_modify _).within _ _ _).bind fun _ =>
      certain_pure (Step.not_refusal rfl _)

/-- An attempt answers as the reader in it does. -/
theorem transacts_attempt {step : Step} {work : Work RegisterFault Session Bool}
    (h : Transacts refused work) :
    Transacts step.Refusal (Answer.flag <$> work) :=
  h.map _ fun _ hrefusal => Answer.flag.inj hrefusal.2

/-- Any other step only has to mind its failures. -/
theorem transacts_other {α : Type} {step : Step} {work : Work RegisterFault Session α}
    (hstep : step.isAttempt = false) (h : Transacts (fun _ => False) work) (f : α → Answer) :
    Transacts step.Refusal (f <$> work) :=
  h.map f fun _ hrefusal => Step.not_refusal hstep _ hrefusal

theorem transacts_perform (step : Step) : Transacts step.Refusal (perform step) := by
  cases step with
  | readNumeral text base =>
    exact transacts_other rfl (transacts_onRegister (Register.transacts_readNumeral text base)) _
  | tryNumeral text base =>
    exact transacts_attempt
      (transacts_onRegister (Register.transacts_onRaw (Value.transacts_tryNumeral text base)))
  | readInput text request =>
    refine Transacts.look_bind fun options => ?_
    exact transacts_attempt (transacts_onRegister (Register.transacts_readInput text options))
  | readFloat text =>
    exact transacts_attempt (transacts_onRegister (Register.transacts_tryFloat text))
  | toggle index =>
    exact transacts_other rfl
      (transacts_onRegister (Register.transacts_onRaw (Value.transacts_toggle index))) _
  | read index width =>
    exact transacts_other rfl
      (transacts_onRegister (Register.transacts_onRaw (transacts_look _ _))) _
  | write index width x =>
    exact transacts_other rfl
      (transacts_onRegister (Register.transacts_onRaw (Value.transacts_write index width x))) _
  | set key x =>
    refine (transacts_onRegister (Register.transacts_writeAt key x)).bind
      (fun _ hfalse => hfalse.elim) fun _ _ => certain_pure (Step.not_refusal rfl _)
  | setRaw x =>
    refine Certain.transacts (((certain_modify _).within _ _ _).bind fun _ => ?_)
    exact certain_pure (Step.not_refusal rfl _)
  | setWidth width =>
    refine Certain.transacts (((certain_modify _).within _ _ _).bind fun _ => ?_)
    exact certain_pure (Step.not_refusal rfl _)
  | load text => exact transacts_load text
  | fieldValues => exact transacts_other rfl (transacts_look _ _) _
  | summary request =>
    exact Transacts.look_bind fun options => transacts_other rfl (transacts_view _ _) _
  | get | raw | views | render | outline | dump | isFloatCapable | writeFloat =>
    exact transacts_other rfl (transacts_view _ _) _

/-! ## Runs -/

/-- The session after a run of steps. -/
def after (steps : List Step) (session : Session) : Session :=
  steps.foldl (fun session step => (session.step step).2) session

theorem run_append (steps rest : List Step) (session : Session) :
    run (steps ++ rest) session = run steps session ++ run rest (after steps session) := by
  induction steps generalizing session with
  | nil => rfl
  | cons step steps ih =>
    rw [List.cons_append, run, run, List.cons_append]
    exact congrArg _ (ih _)

theorem step_of_refused {session : Session} {step : Step}
    (h : step.Refused (session.step step).1) : (session.step step).2 = session := by
  have hstep := transacts_perform step session
  unfold Session.step at h ⊢
  match houtcome : (perform step).outcome session with
  | (.ok answer, later) =>
    rw [houtcome] at hstep h
    exact hstep h
  | (.error fault, later) =>
    rw [houtcome] at hstep
    exact hstep

/-- **Failed steps change nothing.** In every run, a step that fails, or that
answers that its text could not be read, leaves register and layout as the
steps before it left them. -/
theorem run_refused (steps : List Step) (step : Step) (rest : List Step) (session : Session) :
    ∃ answer later,
      run (steps ++ step :: rest) session = run steps session ++ (answer, later) :: run rest later ∧
        (step.Refused answer → later = after steps session) :=
  ⟨((after steps session).step step).1, ((after steps session).step step).2,
    run_append steps (step :: rest) session, step_of_refused⟩

end Session

end BitLayout
