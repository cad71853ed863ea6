import BitLayout.Document
import Mathlib

/-!
# Runs that may fail anywhere

The readers of this library are total functions, and the failures they
can answer with are part of their types. This module gives up both: a
`Run` may go on forever, and it may fail in every way in which a reader
that works by positions can go wrong, such as a look at a place outside
the text, or a conversion of digits that is refused. The modules beside
it describe the compiler as such runs and prove that they always come to
an end, with the answer of the total readers and no other failure.

Every loop is an instance of `loop`, which makes no promise to end. That
it does is proved by one lemma, `loop_eq`: a rank that goes down each
time the loop is entered again, and an answer that each round preserves.
-/

namespace BitLayout

namespace Checked

/-- Everything that can go wrong in a run. Only the last three are meant to
be answered, and only the last one by the compiler. -/
inductive Fault where
  /-- A place outside of the text was looked at. -/
  | outside (pos : Nat)
  /-- A text was converted that is not a number of the base. -/
  | notDigits (text : Text)
  /-- A number has more decimal digits than are converted. -/
  | tooLong
  /-- A list was taken apart that has not the expected length. -/
  | wrongLength (length : Nat)
  /-- An indicator was filed that has no position. -/
  | noPosition
  | numeral (error : NumeralError)
  | enumeration (error : EnumError)
  | document (error : DocumentError)
  deriving Repr, DecidableEq

/-- A failure of the total readers as one of a run. -/
def Fault.ofFailure {ε : Type} (refused : ε → Fault) : Failure ε → Fault :=
  Failure.elim refused .tooLong

/-- A run: it goes on forever (`none`), fails, or answers. -/
abbrev Run (α : Type) := ExceptT Fault Option α

namespace Run

variable {σ α β : Type}

/-- The run that comes to an end with this answer or failure. -/
def settled (result : Except Fault α) : Run α :=
  ExceptT.mk (some result)

/-- The run that goes on forever. -/
def forever : Run α :=
  ExceptT.mk none

/-- Enters the body again as long as it asks for that, and so many times at
most. -/
def rounds (body : σ → Run (σ ⊕ α)) : Nat → σ → Run α
  | 0, _ => forever
  | n + 1, state => do
    match ← body state with
    | .inl state => rounds body n state
    | .inr answer => pure answer

open Classical in
/-- Enters the body again as long as it asks for that. -/
noncomputable def loop (body : σ → Run (σ ⊕ α)) (state : σ) : Run α :=
  if h : ∃ result n, rounds body n state = settled result then settled h.choose else forever

/-- Runs `handler` on a failure. -/
def handle (run : Run α) (handler : Fault → Run α) : Run α :=
  tryCatch run handler

@[simp] theorem settled_ok_bind (answer : α) (next : α → Run β) :
    (settled (.ok answer) >>= next) = next answer := rfl

@[simp] theorem settled_error_bind (fault : Fault) (next : α → Run β) :
    (settled (.error fault) >>= next) = settled (.error fault) := rfl

@[simp] theorem handle_ok (answer : α) (handler : Fault → Run α) :
    handle (settled (.ok answer)) handler = settled (.ok answer) := rfl

@[simp] theorem handle_error (fault : Fault) (handler : Fault → Run α) :
    handle (settled (.error fault)) handler = handler fault := rfl

@[simp] theorem pure_eq (answer : α) : (pure answer : Run α) = settled (.ok answer) := rfl

@[simp] theorem throw_eq (fault : Fault) : (throw fault : Run α) = settled (.error fault) := rfl

theorem settled_inj {result other : Except Fault α} :
    settled result = settled other ↔ result = other :=
  ⟨fun h => Option.some.inj h, congrArg settled⟩

theorem forever_ne_settled {result : Except Fault α} : forever ≠ settled result :=
  fun h => Option.some_ne_none result (show some result = none from h.symm)

/-! ## Loops -/

theorem rounds_succ {body : σ → Run (σ ⊕ α)} {n : Nat} {s : σ} {r : Except Fault α}
    (h : rounds body n s = settled r) : rounds body (n + 1) s = settled r := by
  induction n generalizing s with
  | zero => exact absurd h forever_ne_settled
  | succ n ih =>
    rw [rounds] at h ⊢
    match hbody : body s with
    | none => rw [hbody] at h; exact h
    | some (.error fault) => rw [hbody] at h; exact h
    | some (.ok (.inl s')) => rw [hbody] at h; exact ih h
    | some (.ok (.inr answer)) => rw [hbody] at h; exact h

theorem rounds_add {body : σ → Run (σ ⊕ α)} {n : Nat} {s : σ} {r : Except Fault α}
    (h : rounds body n s = settled r) (k : Nat) : rounds body (n + k) s = settled r := by
  induction k with
  | zero => exact h
  | succ k ih => exact rounds_succ ih

theorem loop_of_rounds {body : σ → Run (σ ⊕ α)} {n : Nat} {s : σ} {r : Except Fault α}
    (h : rounds body n s = settled r) : loop body s = settled r := by
  have hex : ∃ result n, rounds body n s = settled result := ⟨r, n, h⟩
  obtain ⟨m, hm⟩ := hex.choose_spec
  have hsame : settled hex.choose = settled r := by
    rw [← rounds_add hm n, Nat.add_comm, rounds_add h m]
  rw [loop, dif_pos hex, hsame]

/-- A loop is its body, and then the loop again if the body asks for that. -/
theorem loop_unfold (body : σ → Run (σ ⊕ α)) (s : σ) :
    loop body s = (do
      match ← body s with
      | .inl s => loop body s
      | .inr answer => pure answer) := by
  by_cases hex : ∃ result n, rounds body n s = settled result
  · obtain ⟨r, n, hn⟩ := hex
    rw [loop_of_rounds hn]
    cases n with
    | zero => exact absurd hn forever_ne_settled
    | succ n =>
      rw [rounds] at hn
      match hbody : body s with
      | none => rw [hbody] at hn; exact hn.symm
      | some (.error fault) => rw [hbody] at hn; exact hn.symm
      | some (.ok (.inl s')) => rw [hbody] at hn; exact (loop_of_rounds hn).symm
      | some (.ok (.inr answer)) => rw [hbody] at hn; exact hn.symm
  · rw [loop, dif_neg hex]
    match hbody : body s with
    | none => rfl
    | some (.error fault) => exact absurd ⟨.error fault, 1, by rw [rounds, hbody]; rfl⟩ hex
    | some (.ok (.inr answer)) => exact absurd ⟨.ok answer, 1, by rw [rounds, hbody]; rfl⟩ hex
    | some (.ok (.inl s')) =>
      have hnot : ¬ ∃ result n, rounds body n s' = settled result := by
        rintro ⟨r, n, hn⟩
        exact hex ⟨r, n + 1, by rw [rounds, hbody]; exact hn⟩
      show forever = loop body s'
      rw [loop, dif_neg hnot]

/-- **Loops end.** If each round keeps an invariant and either ends the loop
with the expected result or lowers the rank without changing it, the loop
comes to an end with that result. -/
theorem loop_eq {body : σ → Run (σ ⊕ α)} {r : σ → Except Fault α} (inv : σ → Prop)
    (rank : σ → Nat)
    (h : ∀ s, inv s →
      (∃ s', body s = settled (.ok (.inl s')) ∧ inv s' ∧ rank s' < rank s ∧
        r s = r s') ∨
      (∃ answer, body s = settled (.ok (.inr answer)) ∧ r s = .ok answer) ∨
      (∃ fault, body s = settled (.error fault) ∧ r s = .error fault))
    {s : σ} (hs : inv s) : loop body s = settled (r s) := by
  induction hn : rank s using Nat.strongRecOn generalizing s with
  | ind n ih =>
    rw [loop_unfold]
    rcases h s hs with ⟨s', hbody, hs', hlt, hresult⟩ | ⟨answer, hbody, hresult⟩ |
      ⟨fault, hbody, hresult⟩
    · rw [hbody, hresult, settled_ok_bind]
      exact ih (rank s') (hn ▸ hlt) hs' rfl
    · rw [hbody, hresult]
      rfl
    · rw [hbody, hresult]
      rfl

end Run

/-! ## Looking at a text -/

/-- The character at a place of a text, which has to be there. -/
def charAt (text : Text) (pos : Nat) : Run Char :=
  match text[pos]? with
  | some c => pure c
  | none => throw (.outside pos)

/-- Whether a piece stands at a place; behind the text none does. -/
def startsAt (text piece : Text) (pos : Nat) : Bool :=
  piece.isPrefixOf (text.drop pos)

/-- Where a piece stands first, from a place on. -/
def findFrom? (text piece : Text) (pos : Nat) : Option Nat :=
  if text.length < pos then none
  else (Text.findFirst? piece (text.drop pos)).map (pos + ·)

/-- The text from one place up to another, clipped to what is there. -/
def between (text : Text) (start stop : Nat) : Text :=
  (text.take stop).drop start

theorem charAt_of_drop {text rest : Text} {pos : Nat} {c : Char}
    (h : text.drop pos = c :: rest) : charAt text pos = Run.settled (.ok c) := by
  have hget : text[pos]? = some c := by
    rw [← Nat.add_zero pos, ← List.getElem?_drop, h]
    rfl
  rw [charAt, hget]
  rfl

theorem lt_length_of_drop {text rest : Text} {pos : Nat} {c : Char}
    (h : text.drop pos = c :: rest) : pos < text.length := by
  have := congrArg List.length h
  rw [List.length_drop, List.length_cons] at this
  omega

end Checked

end BitLayout
