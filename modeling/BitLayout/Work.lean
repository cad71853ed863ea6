/-!
# Work on a state

Work reads a state and changes it on the way to an answer, and it may fail. A failure takes nothing
back: what was changed before it stays changed, and who recovers from it goes on in the state that
was left. That failed work leaves a state as it was is therefore no part of the type, but a fact
about the work.

The outcome of work is the outcome of its parts, one after the other.
-/

namespace BitLayout

/-- Work on a state of type `σ`, with an answer or a fault at its end. -/
abbrev Work (ε σ α : Type) := ExceptT ε (StateM σ) α

namespace Work

variable {ε φ σ τ α β : Type}

/-- How work on a state ends, and the state it leaves. -/
def outcome (work : Work ε σ α) (state : σ) : Except ε α × σ :=
  Id.run (StateT.run (ExceptT.run work) state)

/-- Looks at the state, which may be in vain, and changes nothing. -/
def look (view : σ → Except ε α) : Work ε σ α := do
  MonadExcept.ofExcept (view (← get))

/-- The state as it is. -/
def current : Work ε σ σ :=
  look .ok

/-- Work on a part of a larger state, with its faults told in the terms of the larger one. -/
def within (part : τ → σ) (replace : τ → σ → τ) (fault : ε → φ) (work : Work ε σ α) : Work φ τ α :=
  ExceptT.mk fun state =>
    let done := work.outcome (part state)
    pure (done.1.mapError fault, replace state done.2)

@[simp] theorem outcome_pure (answer : α) (state : σ) :
    (pure answer : Work ε σ α).outcome state = (.ok answer, state) := rfl

@[simp] theorem outcome_throw (fault : ε) (state : σ) :
    (throw fault : Work ε σ α).outcome state = (.error fault, state) := rfl

@[simp] theorem outcome_modify (change : σ → σ) (state : σ) :
    (modify change : Work ε σ Unit).outcome state = (.ok (), change state) := rfl

@[simp] theorem outcome_set (later state : σ) :
    (set later : Work ε σ PUnit).outcome state = (.ok (), later) := rfl

@[simp] theorem outcome_current (state : σ) :
    (current : Work ε σ σ).outcome state = (.ok state, state) := rfl

@[simp] theorem outcome_look (view : σ → Except ε α) (state : σ) :
    (look view).outcome state = (view state, state) := by
  show (MonadExcept.ofExcept (view state) : Work ε σ α).outcome state = _
  cases view state <;> rfl

@[simp] theorem outcome_within (part : τ → σ) (replace : τ → σ → τ) (fault : ε → φ)
    (work : Work ε σ α) (state : τ) :
    (work.within part replace fault).outcome state =
      ((work.outcome (part state)).1.mapError fault,
        replace state (work.outcome (part state)).2) := rfl

theorem outcome_bind (work : Work ε σ α) (next : α → Work ε σ β) (state : σ) :
    (work >>= next).outcome state = match work.outcome state with
      | (.ok answer, later) => (next answer).outcome later
      | (.error fault, later) => (.error fault, later) := by
  unfold outcome ExceptT.run StateT.run Id.run
  simp only [bind, ExceptT.bind, ExceptT.mk, StateT.bind, ExceptT.bindCont]
  cases work state with
  | mk result later => cases result <;> rfl

theorem outcome_tryCatch (work : Work ε σ α) (handler : ε → Work ε σ α) (state : σ) :
    (tryCatch work handler).outcome state = match work.outcome state with
      | (.ok answer, later) => (.ok answer, later)
      | (.error fault, later) => (handler fault).outcome later := by
  unfold outcome ExceptT.run StateT.run Id.run
  simp only [tryCatch, tryCatchThe, MonadExceptOf.tryCatch, ExceptT.tryCatch, ExceptT.mk, bind,
    StateT.bind]
  cases work state with
  | mk result later => cases result <;> rfl

end Work

end BitLayout
