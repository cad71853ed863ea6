import BitLayout.Proofs.Register.Retyped
import BitLayout.Proofs.Register.Transaction

/-!
# A width is a way of looking

What a register stores does not depend on its width. Two runs that do the
same, but set widths and load layouts wherever they like, store the same
integers and answer the same about them (`Unclamped.runs`); setting a width
itself stores nothing (`Unclamped.kept_stored`). So a width that was set can
be taken back (`Unclamped.restored`), and what was written above a width is
there when it grows (`Unclamped.reappears`).

This is about two runs at once. `Work.SeesOnly` says of one piece of work
that it learns of a state only what is seen of it, here the stored integer:
from states that look the same it answers the same and leaves states that
look the same. Work put together of such work is of the same kind. Steps
that look through the width need not be, but they store nothing
(`Work.Keeps`), and every step is one or the other. The exceptions are the
readers that may take a text for a literal, as whether they do depends on
the width.
-/

namespace BitLayout

namespace Work

variable {ε φ ρ σ τ α β : Type} {seen : σ → ρ}

/-- Where the same is seen of two states, the work answers the same, and the same is
seen afterwards. -/
def SeesOnly (seen : σ → ρ) (work : Work ε σ α) : Prop :=
  ∀ ⦃one other : σ⦄, seen one = seen other →
    (work.outcome one).1 = (work.outcome other).1 ∧
      seen (work.outcome one).2 = seen (work.outcome other).2

/-- What is seen of a state stays as it is. -/
def Keeps (seen : σ → ρ) (work : Work ε σ α) : Prop :=
  ∀ state, seen (work.outcome state).2 = seen state

/-! ## Work that learns only what is seen -/

/-- Whoever sees all of a state learns nothing else. -/
theorem seesOnly_id (work : Work ε σ α) : SeesOnly id work := by
  rintro one other rfl
  exact ⟨rfl, rfl⟩

theorem seesOnly_pure (answer : α) : SeesOnly seen (pure answer : Work ε σ α) :=
  fun _ _ hseen => ⟨rfl, hseen⟩

theorem seesOnly_throw (fault : ε) : SeesOnly seen (throw fault : Work ε σ α) :=
  fun _ _ hseen => ⟨rfl, hseen⟩

theorem seesOnly_look {view : σ → Except ε α}
    (h : ∀ one other, seen one = seen other → view one = view other) :
    SeesOnly seen (look view) := by
  intro one other hseen
  rw [outcome_look, outcome_look]
  exact ⟨h one other hseen, hseen⟩

theorem seesOnly_modify {change : σ → σ}
    (h : ∀ one other, seen one = seen other → seen (change one) = seen (change other)) :
    SeesOnly seen (modify change : Work ε σ Unit) :=
  fun one other hseen => ⟨rfl, h one other hseen⟩

/-- From states that look the same the work ends alike, in states that look the same. -/
theorem SeesOnly.outcomes {work : Work ε σ α} (h : SeesOnly seen work) {one other : σ}
    (hseen : seen one = seen other) :
    (∃ answer later later', work.outcome one = (.ok answer, later) ∧
      work.outcome other = (.ok answer, later') ∧ seen later = seen later') ∨
    (∃ fault later later', work.outcome one = (.error fault, later) ∧
      work.outcome other = (.error fault, later') ∧ seen later = seen later') := by
  obtain ⟨hanswer, hlater⟩ := h hseen
  cases hone : (work.outcome one).1 with
  | ok answer =>
    have hother := hanswer.symm.trans hone
    exact .inl ⟨answer, _, _, Prod.ext hone rfl, Prod.ext hother rfl, hlater⟩
  | error fault =>
    have hother := hanswer.symm.trans hone
    exact .inr ⟨fault, _, _, Prod.ext hone rfl, Prod.ext hother rfl, hlater⟩

/-- What comes next has to be such work only for the answers that are given. -/
theorem SeesOnly.bind {work : Work ε σ α} {next : α → Work ε σ β} (h : SeesOnly seen work)
    (hnext : ∀ answer state, (work.outcome state).1 = .ok answer → SeesOnly seen (next answer)) :
    SeesOnly seen (work >>= next) := by
  intro one other hseen
  rw [outcome_bind, outcome_bind]
  obtain ⟨answer, later, later', hone, hother, hlater⟩ |
    ⟨fault, later, later', hone, hother, hlater⟩ := h.outcomes hseen
  · rw [hone, hother]
    exact hnext answer one (congrArg Prod.fst hone) hlater
  · rw [hone, hother]
    exact ⟨rfl, hlater⟩

/-- A look at all of a state does no harm where nothing comes of it. -/
theorem SeesOnly.current_bind {next : σ → Work ε σ α} {work : Work ε σ α}
    (h : SeesOnly seen work) (hnext : ∀ state, next state = work) :
    SeesOnly seen (current >>= next) := by
  intro one other hseen
  rw [outcome_bind, outcome_bind, outcome_current, outcome_current]
  dsimp only
  rw [hnext, hnext]
  exact h hseen

theorem SeesOnly.map {work : Work ε σ α} (h : SeesOnly seen work) (f : α → β) :
    SeesOnly seen (f <$> work) := by
  rw [← bind_pure_comp]
  exact h.bind fun _ _ _ => seesOnly_pure _

theorem SeesOnly.tryCatch {work : Work ε σ α} {handler : ε → Work ε σ α} (h : SeesOnly seen work)
    (hhandler : ∀ fault, SeesOnly seen (handler fault)) :
    SeesOnly seen (tryCatch work handler) := by
  intro one other hseen
  rw [outcome_tryCatch, outcome_tryCatch]
  obtain ⟨answer, later, later', hone, hother, hlater⟩ |
    ⟨fault, later, later', hone, hother, hlater⟩ := h.outcomes hseen
  · rw [hone, hother]
    exact ⟨rfl, hlater⟩
  · rw [hone, hother]
    exact hhandler fault hlater

theorem SeesOnly.within {work : Work ε σ α} (h : SeesOnly seen work) {part : τ → σ}
    {replace : τ → σ → τ} (hpart : ∀ state later, part (replace state later) = later)
    (fault : ε → φ) : SeesOnly (seen ∘ part) (work.within part replace fault) := by
  intro one other hseen
  obtain ⟨hanswer, hlater⟩ := h hseen
  rw [outcome_within, outcome_within, Function.comp_apply, Function.comp_apply, hpart, hpart]
  exact ⟨congrArg (Except.mapError fault) hanswer, hlater⟩

/-! ## Work that keeps what is seen -/

theorem keeps_pure (answer : α) : Keeps seen (pure answer : Work ε σ α) :=
  fun _ => rfl

theorem keeps_look (view : σ → Except ε α) : Keeps seen (look view) := by
  intro state
  rw [outcome_look]

theorem keeps_modify {change : σ → σ} (h : ∀ state, seen (change state) = seen state) :
    Keeps seen (modify change : Work ε σ Unit) :=
  h

theorem Keeps.bind {work : Work ε σ α} {next : α → Work ε σ β} (h : Keeps seen work)
    (hnext : ∀ answer, Keeps seen (next answer)) : Keeps seen (work >>= next) := by
  intro state
  have hstate := h state
  rw [outcome_bind]
  match houtcome : work.outcome state with
  | (.ok answer, later) =>
    rw [houtcome] at hstate
    exact (hnext answer later).trans hstate
  | (.error fault, later) =>
    rw [houtcome] at hstate
    exact hstate

theorem Keeps.map {work : Work ε σ α} (h : Keeps seen work) (f : α → β) :
    Keeps seen (f <$> work) := by
  rw [← bind_pure_comp]
  exact h.bind fun _ => keeps_pure _

theorem Keeps.within {work : Work ε σ α} (h : Keeps seen work) {part : τ → σ}
    {replace : τ → σ → τ} (hpart : ∀ state later, part (replace state later) = later)
    (fault : ε → φ) : Keeps (seen ∘ part) (work.within part replace fault) := by
  intro state
  rw [outcome_within, Function.comp_apply, hpart]
  exact h (part state)

end Work

open Work

theorem DisplayRequest.asFloat_of_check {ε : Type} {fault : Failure NumeralError → ε}
    {request : DisplayRequest} {options : DisplayOptions}
    (h : request.check.mapError fault = .ok options) : options.asFloat = request.asFloat := by
  unfold check at h
  cases hradix : Radix.ofBase request.base with
  | error e =>
    rw [hradix] at h
    cases h
  | ok radix =>
    rw [hradix] at h
    cases h
    rfl

/-! ## Registers -/

namespace Register

theorem seesOnly_onRaw {α : Type} (work : Work Value.Fault Int α) : SeesOnly raw (onRaw work) :=
  (seesOnly_id work).within (fun _ _ => rfl) _

theorem keeps_onRaw {α : Type} {work : Work Value.Fault Int α} (h : Keeps id work) :
    Keeps raw (onRaw work) :=
  h.within (fun _ _ => rfl) _

/-- A text without a point is a numeral or nothing, whatever the width. -/
theorem seesOnly_readNumeral {text : Text} (h : '.' ∉ text) (base : Int) :
    SeesOnly raw (readNumeral text base) := by
  refine (seesOnly_onRaw _).tryCatch fun fault => ?_
  split
  · exact (seesOnly_throw _).current_bind fun register => if_neg fun hliteral => h hliteral.2
  · exact seesOnly_throw _

theorem seesOnly_readInput (text : Text) {options : DisplayOptions} (h : options.asFloat = false) :
    SeesOnly raw (readInput text options) := by
  refine (seesOnly_onRaw _).bind fun answer _ _ => ?_
  cases answer with
  | true => exact seesOnly_pure true
  | false =>
    have hnot : ∀ register : Register,
        ¬ (options.asFloat = true ∧ register.isFloatCapable = true) := fun register hfloat =>
      Bool.noConfusion (h.symm.trans hfloat.1)
    exact (seesOnly_pure false).current_bind fun register => if_neg (hnot register)

theorem seesOnly_writeAt (key : Key) (x : Int) : SeesOnly raw (writeAt key x) := by
  refine SeesOnly.bind (seesOnly_look fun _ _ _ => rfl) fun span _ _ => ?_
  exact (seesOnly_onRaw _).bind fun _ _ _ => seesOnly_pure _

theorem get_congr {one other : Register} (h : one.raw = other.raw) (key : Key) :
    one.get key = other.get key := by
  rw [get, get, h]

end Register

/-! ## Steps -/

namespace Session

def stored (session : Session) : Int :=
  session.register.raw

/-- The step sets a width, or loads a layout together with its width. -/
def Step.setsWidth : Step → Bool
  | .setWidth _ | .load _ => true
  | _ => false

/-- The step may take its text for a literal, if the width is that of one. -/
def Step.readsFloat : Step → Bool
  | .readFloat _ => true
  | .readInput _ request => request.asFloat
  | .readNumeral text _ => '.' ∈ text
  | _ => false

/-- The step answers about the stored integer, or about what it stores. -/
def Step.answersStored : Step → Bool
  | .readNumeral _ _ | .tryNumeral _ _ | .readInput _ _ => true
  | .toggle _ | .read _ _ | .write _ _ _ | .get _ | .set _ _ | .setRaw _ | .raw => true
  | _ => false

/-- The step stores an integer, if it does not fail. -/
def Step.stores : Step → Bool
  | .readNumeral _ _ | .tryNumeral _ _ | .readInput _ _ | .readFloat _ => true
  | .toggle _ | .write _ _ _ | .set _ _ | .setRaw _ => true
  | _ => false

theorem Step.not_stores {step : Step} (hstored : step.answersStored = false)
    (hfloat : step.readsFloat = false) : step.stores = false := by
  cases step with
  | readFloat => cases hfloat
  | readNumeral | tryNumeral | readInput | toggle | read | write | get | set | setRaw | raw =>
    cases hstored
  | setWidth | load | fieldValues | views | render | outline | dump | summary | isFloatCapable
    | writeFloat => rfl

theorem Step.not_stores_of_setsWidth {step : Step} (h : step.setsWidth = true) :
    step.stores = false := by
  cases step with
  | setWidth | load => rfl
  | _ => cases h

theorem Step.not_readsFloat_of_setsWidth {step : Step} (h : step.setsWidth = true) :
    step.readsFloat = false := by
  cases step with
  | setWidth | load => rfl
  | _ => cases h

theorem seesOnly_onRegister {α : Type} {work : Work RegisterFault Register α}
    (h : SeesOnly Register.raw work) : SeesOnly stored (onRegister work) :=
  h.within (fun _ _ => rfl) id

theorem keeps_onRegister {α : Type} {work : Work RegisterFault Register α}
    (h : Keeps Register.raw work) : Keeps stored (onRegister work) :=
  h.within (fun _ _ => rfl) id

theorem keeps_view {α : Type} (look : Register → Except RegisterFault α) :
    Keeps stored (view look) :=
  keeps_onRegister (keeps_look look)

/-- The stored integer is all that such a step learns of a session. -/
theorem seesOnly_perform {step : Step} (hstored : step.answersStored = true)
    (hfloat : step.readsFloat = false) : SeesOnly stored (perform step) := by
  cases step with
  | readNumeral text base =>
    have hpoint : '.' ∉ text := of_decide_eq_false hfloat
    exact (seesOnly_onRegister (Register.seesOnly_readNumeral hpoint base)).map _
  | tryNumeral text base =>
    exact (seesOnly_onRegister (Register.seesOnly_onRaw _)).map _
  | readInput text request =>
    refine SeesOnly.bind (seesOnly_look fun _ _ _ => rfl) fun options state hcheck => ?_
    have hoptions : options.asFloat = false := by
      rw [outcome_look] at hcheck
      exact (DisplayRequest.asFloat_of_check hcheck).trans hfloat
    exact (seesOnly_onRegister (Register.seesOnly_readInput text hoptions)).map _
  | toggle index => exact (seesOnly_onRegister (Register.seesOnly_onRaw _)).map _
  | read index width => exact (seesOnly_onRegister (Register.seesOnly_onRaw _)).map _
  | write index width x => exact (seesOnly_onRegister (Register.seesOnly_onRaw _)).map _
  | get key =>
    refine (seesOnly_onRegister (seesOnly_look fun one other hraw => ?_)).map _
    rw [Register.get_congr hraw]
  | set key x =>
    exact (seesOnly_onRegister (Register.seesOnly_writeAt key x)).bind fun _ _ _ =>
      seesOnly_pure _
  | setRaw x =>
    refine (seesOnly_onRegister (seesOnly_modify fun _ _ _ => rfl)).bind fun _ _ _ => ?_
    exact seesOnly_pure _
  | raw =>
    refine (seesOnly_onRegister (seesOnly_look fun one other hraw => ?_)).map _
    exact congrArg Except.ok hraw
  | readFloat | setWidth | load | fieldValues | views | render | outline | dump | summary
    | isFloatCapable | writeFloat => cases hstored

/-- A step that does not store leaves the stored integer alone. -/
theorem keeps_perform {step : Step} (h : step.stores = false) : Keeps stored (perform step) := by
  cases step with
  | read index width => exact (keeps_onRegister (Register.keeps_onRaw (keeps_look _))).map _
  | setWidth width =>
    refine Keeps.bind (keeps_onRegister ?_) fun _ => keeps_pure _
    exact keeps_modify fun _ => rfl
  | load text =>
    refine (keeps_look _).bind fun layout? => ?_
    cases layout? with
    | none => exact keeps_pure _
    | some layout =>
      refine Keeps.bind ?_ fun _ => Keeps.bind (keeps_onRegister ?_) fun _ => keeps_pure _
      · exact keeps_modify fun _ => rfl
      · exact keeps_modify fun _ => rfl
  | fieldValues => exact (keeps_look _).map _
  | summary request => exact (keeps_look _).bind fun options => (keeps_view _).map _
  | get | raw | views | render | outline | dump | isFloatCapable | writeFloat =>
    exact (keeps_view _).map _
  | readNumeral | tryNumeral | readInput | readFloat | toggle | write | set | setRaw => cases h

/-- Two sessions with the same integer, before and after a step. -/
theorem step_stored {step : Step} (hfloat : step.readsFloat = false) {session other : Session}
    (h : session.stored = other.stored) :
    (session.step step).2.stored = (other.step step).2.stored ∧
      (step.answersStored = true → (session.step step).1 = (other.step step).1) := by
  cases hstored : step.answersStored with
  | true =>
    obtain ⟨hanswer, hlater⟩ := seesOnly_perform hstored hfloat h
    exact ⟨hlater, fun _ => hanswer⟩
  | false =>
    have hkeeps := keeps_perform (Step.not_stores hstored hfloat)
    refine ⟨?_, nofun⟩
    exact (hkeeps session).trans (h.trans (hkeeps other).symm)

/-! ## Runs -/

/-- The steps that do not set a width. -/
def kept (steps : List Step) : List Step :=
  steps.filter fun step => !step.setsWidth

/-- What the steps that set no width show of the stored integer: it itself after each
of them, and the answers about it. -/
def seen (steps : List Step) (session : Session) :
    List (Int × Option (Except RegisterFault Answer)) :=
  ((steps.zip (run steps session)).filter fun done => !done.1.setsWidth).map fun done =>
    (done.2.2.stored, if done.1.answersStored then some done.2.1 else none)

theorem seen_cons (step : Step) (steps : List Step) (session : Session) :
    seen (step :: steps) session =
      if step.setsWidth then seen steps (session.step step).2
      else ((session.step step).2.stored,
          if step.answersStored then some (session.step step).1 else none) ::
        seen steps (session.step step).2 := by
  rw [seen, run, List.zip_cons_cons, List.filter_cons]
  cases step.setsWidth <;> rfl

/-- **Steps that set a width can be left out**, by induction over the run. -/
theorem seen_kept {steps : List Step} (hfloat : ∀ step ∈ steps, step.readsFloat = false)
    {session other : Session} (h : session.stored = other.stored) :
    seen steps session = seen (kept steps) other := by
  induction steps generalizing session other with
  | nil => rfl
  | cons step steps ih =>
    have hbelow : ∀ other ∈ steps, other.readsFloat = false := fun other hother =>
      hfloat other (List.mem_cons_of_mem step hother)
    rw [seen_cons]
    cases hwidth : step.setsWidth with
    | true =>
      have hkeeps := keeps_perform (Step.not_stores_of_setsWidth hwidth) session
      rw [kept, List.filter_cons_of_neg (by rw [hwidth]; exact Bool.noConfusion)]
      exact ih hbelow (hkeeps.trans h)
    | false =>
      obtain ⟨hstored, hanswer⟩ := step_stored (hfloat step List.mem_cons_self) h
      rw [kept, List.filter_cons_of_pos (by rw [hwidth]; rfl), seen_cons, hwidth, hstored]
      refine List.cons_eq_cons.mpr ⟨?_, ih hbelow hstored⟩
      cases hshown : step.answersStored with
      | true => rw [hanswer hshown]
      | false => rfl

theorem not_readsFloat_of_kept {steps others : List Step} (hkept : kept steps = kept others)
    (h : ∀ step ∈ steps, step.readsFloat = false) : ∀ step ∈ others, step.readsFloat = false := by
  intro step hstep
  cases hwidth : step.setsWidth with
  | true => exact Step.not_readsFloat_of_setsWidth hwidth
  | false =>
    have hmem : step ∈ kept others := List.mem_filter.mpr ⟨hstep, by rw [hwidth]; rfl⟩
    rw [← hkept] at hmem
    exact h step (List.mem_of_mem_filter hmem)

theorem after_setWidth (steps : List Step) (width : Int) (session : Session) :
    after (steps ++ [.setWidth width]) session =
      ⟨⟨width, (after steps session).stored⟩, (after steps session).layout⟩ := by
  rw [after, List.foldl_append]
  rfl

theorem stored_after {steps : List Step} (h : ∀ step ∈ steps, step.stores = false)
    (session : Session) : (after steps session).stored = session.stored := by
  induction steps generalizing session with
  | nil => rfl
  | cons step steps ih =>
    have hstep := keeps_perform (h step List.mem_cons_self) session
    exact (ih (fun other hother => h other (List.mem_cons_of_mem step hother)) _).trans hstep

/-- The width of a session does not touch what it stores. -/
structure Unclamped (session : Session) : Prop where
  /-- Setting a width, or loading a layout, stores nothing. -/
  kept_stored : ∀ step, step.setsWidth = true →
    (session.step step).2.stored = session.stored
  /-- A run that differs in the widths it sets, and starts with another one, shows the
  same of the stored integer. -/
  runs : ∀ other steps others, session.stored = other.stored → kept steps = kept others →
    (∀ step ∈ steps, step.readsFloat = false) → seen steps session = seen others other
  /-- With its width a register gets back everything that can be looked at. -/
  restored : ∀ between, (∀ step ∈ between, step.stores = false) →
    after (between ++ [.setWidth session.register.width]) session =
      { session with layout := (after between session).layout }
  /-- What was written anywhere is there when the register is wide enough for it. -/
  reappears : ∀ (index count width : Nat) (x : Int) (between : List Step),
    (∀ step ∈ between, step.stores = false) → index + count ≤ width →
      ∃ unsigned,
        (after (.write index count x :: between ++ [.setWidth width]) session).register.unsigned? =
          .ok unsigned ∧ Bits.extract unsigned index count = x % 2 ^ count

/-- **Nothing that is stored depends on a width**, as long as no text is taken for a
literal. -/
theorem unclamped (session : Session) : Unclamped session where
  kept_stored step hwidth := keeps_perform (Step.not_stores_of_setsWidth hwidth) session
  runs other steps others hstored hkept hfloat := by
    have hothers := not_readsFloat_of_kept hkept hfloat
    rw [seen_kept hfloat hstored, hkept, ← seen_kept hothers rfl]
  restored between hbetween := by
    rw [after_setWidth, stored_after hbetween]
    rfl
  reappears index count width x between hbetween hle := by
    have hstored : (after (.write index count x :: between) session).stored =
        Bits.insert session.stored index count x :=
      stored_after hbetween (session.step (.write index count x)).2
    rw [after_setWidth, hstored]
    refine ⟨Bits.extract (Bits.insert session.stored index count x) 0 width, rfl, ?_⟩
    rw [Bits.extract_of_low (Bits.extract_extract _ width) hle, Bits.extract_insert]

/-- What is written above four bits is stored under a negative width too, and is seen as
soon as there are eight. -/
theorem unclamped_fourBits :
    seen [.write 4 4 10, .setWidth 8, .raw] ⟨⟨4, 1⟩, none⟩ =
        seen [.setWidth (-3), .write 4 4 10, .raw] ⟨⟨64, 1⟩, none⟩ ∧
      seen [.write 4 4 10, .setWidth 8, .raw] ⟨⟨4, 1⟩, none⟩ =
        [(161, some (.ok (.number 161))), (161, some (.ok (.number 161)))] ∧
      after [.setWidth 2, .outline, .setWidth 4] ⟨⟨4, 1⟩, none⟩ = ⟨⟨4, 1⟩, none⟩ ∧
      ∃ unsigned,
        (after [.write 4 4 10, .setWidth 2, .setWidth 8] ⟨⟨4, 1⟩, none⟩).register.unsigned? =
          .ok unsigned ∧ Bits.extract unsigned 4 4 = 10 := by
  have h := unclamped ⟨⟨4, 1⟩, none⟩
  refine ⟨h.runs _ _ _ rfl (by decide) (by decide), by decide, ?_, ?_⟩
  · exact h.restored [.setWidth 2, .outline] (by decide)
  · exact h.reappears 4 4 8 10 [.setWidth 2] (by decide) (by decide)

end Session

end BitLayout
