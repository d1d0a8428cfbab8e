import Mathlib.Data.List.Forall2
import Mathlib.Tactic.Common

/-!
# Guarded computations

A computation that may raise is an `Except`.  The lemmas invert a successful
run: what was bound succeeded, and every guard passed.
-/

namespace FileServer.Transition

universe u

variable {Failure : Type u} {α β : Type u}

/-- Continue when the condition holds and raise otherwise. -/
def require (condition : Prop) [Decidable condition] (failure : Failure) :
    Except Failure PUnit.{u + 1} :=
  if condition then .ok ⟨⟩ else .error failure

def found (value : Option α) (failure : Failure) : Except Failure α :=
  match value with
  | some result => .ok result
  | none => .error failure

@[simp]
theorem bind_eq_ok {x : Except Failure α} {f : α → Except Failure β} {result : β} :
    x >>= f = .ok result ↔ ∃ value, x = .ok value ∧ f value = .ok result := by
  cases x with
  | error failure => simp [bind, Except.bind]
  | ok value => simp [bind, Except.bind]

theorem bind_eq_error {x : Except Failure α} {f : α → Except Failure β} {failure : Failure} :
    x >>= f = .error failure ↔ x = .error failure ∨ ∃ a, x = .ok a ∧ f a = .error failure := by
  cases x <;> simp [bind, Except.bind]

theorem map_eq_ok {x : Except Failure α} {f : α → β} {result : β} :
    x.map f = .ok result ↔ ∃ value, x = .ok value ∧ f value = result := by
  cases x with
  | error failure => simp [Except.map]
  | ok value => simp [Except.map]

@[simp]
theorem pure_eq_ok {value result : α} :
    (pure value : Except Failure α) = .ok result ↔ value = result := by
  simp [pure, Except.pure]

@[simp]
theorem require_eq_ok {condition : Prop} [Decidable condition] {failure : Failure}
    {done : PUnit.{u + 1}} : require condition failure = .ok done ↔ condition := by
  unfold require
  split <;> simp_all

theorem toOption_isSome {x : Except Failure α} :
    x.toOption.isSome ↔ ∃ result, x = .ok result := by
  cases x <;> simp [Except.toOption]

theorem eq_ok_get {x : Except Failure α} (finished : x.toOption.isSome) :
    x = .ok (x.toOption.get finished) := by
  cases x with
  | error failure => cases finished
  | ok result => rfl

@[simp]
theorem found_eq_ok {value : Option α} {failure : Failure} {result : α} :
    found value failure = .ok result ↔ value = some result := by
  cases value <;> simp [found]

/-- A loop that guards every element and then transforms it. -/
theorem mapM_guarded_eq_ok {γ : Type u} (p : γ → Prop) [DecidablePred p] (failure : Failure)
    (f : γ → β) (values : List γ) {result : List β} :
    (values.mapM fun value => do require (p value) failure; pure (f value)) = .ok result ↔
      (∀ value ∈ values, p value) ∧ values.map f = result := by
  induction values generalizing result with
  | nil => simp
  | cons head tail inductionHypothesis =>
      simp only [List.mapM_cons, bind_eq_ok, require_eq_ok, pure_eq_ok,
        inductionHypothesis, List.forall_mem_cons, List.map_cons]
      constructor
      · rintro ⟨_, ⟨_, passed, rfl⟩, _, ⟨rest, rfl⟩, rfl⟩
        exact ⟨⟨passed, rest⟩, rfl⟩
      · rintro ⟨⟨passed, rest⟩, rfl⟩
        exact ⟨f head, ⟨⟨⟩, passed, rfl⟩, tail.map f, ⟨rest, rfl⟩, rfl⟩

/-- Invariant rule for a loop that may raise. -/
theorem foldlM_invariant {State : Type u} {γ : Type u} (Invariant : State → Prop)
    (body : State → γ → Except Failure State) (values : List γ)
    (preserved : ∀ state value next, value ∈ values → Invariant state →
      body state value = .ok next → Invariant next)
    {first last : State} (run : values.foldlM body first = .ok last)
    (initially : Invariant first) : Invariant last := by
  induction values generalizing first with
  | nil =>
      simp only [List.foldlM_nil, pure_eq_ok] at run
      exact run ▸ initially
  | cons head tail inductionHypothesis =>
      simp only [List.foldlM_cons, bind_eq_ok] at run
      obtain ⟨middle, executed, rest⟩ := run
      exact inductionHypothesis
        (fun state value next membership => preserved state value next (by simp [membership]))
        rest (preserved first head middle (by simp) initially executed)

/-- Invariant rule for a loop that always completes. -/
theorem foldl_invariant {State : Type*} {γ : Type*} (Invariant : State → Prop)
    (body : State → γ → State) (values : List γ)
    (preserved : ∀ state value, value ∈ values → Invariant state → Invariant (body state value))
    {first : State} (initially : Invariant first) : Invariant (values.foldl body first) := by
  induction values generalizing first with
  | nil => exact initially
  | cons head tail inductionHypothesis =>
      exact inductionHypothesis
        (fun state value membership => preserved state value (by simp [membership]))
        (preserved first head (by simp) initially)

end FileServer.Transition
