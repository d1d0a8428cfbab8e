import Mathlib.Data.List.Basic

/-!
# Lists of optional values

The places of a list may hold values or none; no value stands in two places
when each new one is fresh.
-/

namespace FileServer.Sequence

variable {α β : Type}

/-- No value stands in two places. -/
def Unrepeated (values : List (Option α)) : Prop :=
  ∀ (place other : Nat) value, values[place]? = some (some value) → values[other]? = some (some value) →
    place = other

variable {values : List (Option α)}

theorem getElem?_append_none {place : Nat} {value : α} :
    (values ++ [none])[place]? = some (some value) ↔ values[place]? = some (some value) := by
  rw [List.getElem?_append]
  split
  · rfl
  · next outside =>
      rw [List.getElem?_eq_none (Nat.le_of_not_lt outside), List.getElem?_singleton]
      split <;> simp

theorem Unrepeated.set (unrepeated : Unrepeated values) (index : Nat) {value : Option α}
    (fresh : ∀ place : Nat, value ≠ none → values[place]? ≠ some value) :
    Unrepeated (values.set index value) := by
  intro place other held first second
  simp only [List.getElem?_set] at first second
  split at first
  · next here =>
      split at second
      · next there => exact here.symm.trans there
      · split at first
        · cases first
          exact absurd second (fresh other (by simp))
        · cases first
  · split at second
    · split at second
      · cases second
        exact absurd first (fresh place (by simp))
      · cases second
    · exact unrepeated place other held first second

theorem Unrepeated.append (unrepeated : Unrepeated values) {value : Option α}
    (fresh : ∀ place : Nat, value ≠ none → values[place]? ≠ some value) :
    Unrepeated (values ++ [value]) := by
  have grown : values ++ [value] = (values ++ [none]).set values.length value := by simp
  have extended : Unrepeated (values ++ [none]) := by
    intro place other held first second
    exact unrepeated place other held (getElem?_append_none.mp first)
      (getElem?_append_none.mp second)
  rw [grown]
  refine extended.set _ fun place some_ => ?_
  rw [List.getElem?_append]
  split
  · exact fresh place some_
  · rw [List.getElem?_singleton]
    split
    · simpa using Ne.symm some_
    · simp

theorem map_set_same {elements : List β} {view : β → Option α} {index : Nat} {old new : β}
    (found : elements[index]? = some old) (same : view new = view old) :
    (elements.set index new).map view = elements.map view := by
  rw [List.map_set, same]
  refine List.ext_getElem? fun place => ?_
  rw [List.getElem?_set]
  split
  · next here =>
      subst here
      obtain ⟨inside, rfl⟩ := List.getElem?_eq_some_iff.mp found
      simp [inside]
  · rfl

theorem countP_isSome_set {index : Nat} {old : Option α} (found : values[index]? = some old)
    (new : Option α) : (values.set index new).countP Option.isSome + (if old.isSome then 1 else 0) =
      values.countP Option.isSome + (if new.isSome then 1 else 0) := by
  obtain ⟨inside, rfl⟩ := List.getElem?_eq_some_iff.mp found
  rw [List.countP_set inside]
  split
  · next there =>
      have counted : 0 < values.countP Option.isSome :=
        List.countP_pos_iff.mpr ⟨_, List.getElem_mem inside, there⟩
      omega
  · omega

end FileServer.Sequence
