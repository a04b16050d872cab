import Mathlib

/-! # The latest value

A register that some inputs overwrite and the others leave as it is holds what
the last input that overwrote it brought, or else what it held at first.
-/

namespace Latest

variable {α β σ : Type}

/-- What is in the register after the inputs. -/
def latest (brings : α → Option σ) (first : σ) (inputs : List α) : σ :=
  (inputs.filterMap brings).getLast?.getD first

variable {brings : α → Option σ} {first : σ} {inputs : List α}

@[simp] theorem latest_nil : latest brings first [] = first := rfl

theorem latest_concat (input : α) : latest brings first (inputs ++ [input]) =
    (brings input).getD (latest brings first inputs) := by
  unfold latest
  rw [List.filterMap_append]
  cases h : brings input with
  | none => simp [h]
  | some v => simp [h]

theorem latest_append (inputs' : List α) : latest brings first (inputs ++ inputs') =
    latest brings (latest brings first inputs) inputs' := by
  induction inputs' using List.reverseRecOn with
  | nil => rw [List.append_nil, latest_nil]
  | append_singleton inputs' input ih =>
    rw [← List.append_assoc, latest_concat, latest_concat, ih]

theorem latest_cons (input : α) : latest brings first (input :: inputs) =
    latest brings ((brings input).getD first) inputs := by
  rw [← List.singleton_append, latest_append]
  congr 1
  exact (latest_concat input : latest brings first ([] ++ [input]) = _)

theorem latest_filterMap {γ : Type} (f : γ → Option α) (inputs : List γ) :
    latest brings first (inputs.filterMap f) =
      latest (fun c => (f c).bind brings) first inputs := by
  unfold latest
  rw [List.filterMap_filterMap]

theorem latest_map {γ : Type} (f : γ → α) (inputs : List γ) :
    latest brings first (inputs.map f) = latest (fun c => brings (f c)) first inputs := by
  unfold latest
  rw [List.filterMap_map]
  rfl

theorem latest_mem {P : σ → Prop} (hfirst : P first)
    (hbrings : ∀ input ∈ inputs, ∀ v, brings input = some v → P v) :
    P (latest brings first inputs) := by
  unfold latest
  cases h : (inputs.filterMap brings).getLast? with
  | none => exact hfirst
  | some v =>
    obtain ⟨input, hinput, hv⟩ := List.mem_filterMap.mp (List.mem_of_getLast? h)
    exact hbrings input hinput v hv

end Latest
