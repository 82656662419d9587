import Mathlib.Tactic

/-! # What threads add up to

    A number for each thread, where finitely many are not zero, and their
    sum. A step of one thread changes one of the numbers. -/

namespace Pump

section

variable {ι : Type*}

/-- The numbers add up to `n`. -/
def Total (f : ι → ℤ) (n : ℤ) : Prop :=
  ∃ is : Finset ι, (∀ i, i ∉ is → f i = 0) ∧ ∑ i ∈ is, f i = n

namespace Total

variable {f g : ι → ℤ} {n m : ℤ} {i : ι}

theorem start (hzero : ∀ i, f i = 0) : Total f 0 :=
  ⟨∅, fun i _ => hzero i, rfl⟩

theorem eq_zero (h : Total f n) (hzero : ∀ i, f i = 0) : n = 0 := by
  obtain ⟨is, -, hsum⟩ := h
  rw [← hsum]
  exact Finset.sum_eq_zero fun i _ => hzero i

theorem nonneg (h : Total f n) (hnonneg : ∀ i, 0 ≤ f i) : 0 ≤ n := by
  obtain ⟨is, -, rfl⟩ := h
  exact Finset.sum_nonneg fun i _ => hnonneg i

/-- The sum may be taken over more threads. -/
theorem sum_eq {is js : Finset ι} (hzero : ∀ i, i ∉ is → f i = 0) (hsub : is ⊆ js) :
    ∑ i ∈ js, f i = ∑ i ∈ is, f i := by
  symm
  apply Finset.sum_subset hsub
  intro i _ hi
  exact hzero i hi

variable [DecidableEq ι]

theorem mono (hf : Total f n) (hg : Total g m) (hle : ∀ i, f i ≤ g i) : n ≤ m := by
  obtain ⟨is, hzero, rfl⟩ := hf
  obtain ⟨js, hzero', rfl⟩ := hg
  have hsub : is ⊆ is ∪ js := Finset.subset_union_left
  have hsub' : js ⊆ is ∪ js := Finset.subset_union_right
  rw [← sum_eq hzero hsub, ← sum_eq hzero' hsub']
  exact Finset.sum_le_sum fun i _ => hle i

/-- No number is larger than the sum. -/
theorem le (h : Total f n) (hnonneg : ∀ j, 0 ≤ f j) (i : ι) : f i ≤ n := by
  obtain ⟨is, hzero, rfl⟩ := h
  by_cases hi : i ∈ is
  · exact Finset.single_le_sum (fun j _ => hnonneg j) hi
  · rw [hzero i hi]
    exact Finset.sum_nonneg fun j _ => hnonneg j

/-- Nor are two of them together. -/
theorem add_le (h : Total f n) (hnonneg : ∀ j, 0 ≤ f j) {i j : ι} (hij : i ≠ j) :
    f i + f j ≤ n := by
  obtain ⟨is, hzero, rfl⟩ := h
  have hsub : is ⊆ is ∪ {i, j} := Finset.subset_union_left
  rw [← sum_eq hzero hsub, ← Finset.sum_pair hij]
  apply Finset.sum_le_sum_of_subset_of_nonneg
  · exact Finset.subset_union_right
  · exact fun k _ _ => hnonneg k

/-- All there is are two threads. -/
theorem eq_add (h : Total f n) {i j : ι} (hij : i ≠ j) (hall : ∀ k, k = i ∨ k = j) :
    n = f i + f j := by
  obtain ⟨is, hzero, rfl⟩ := h
  have hsub : is ⊆ {i, j} := by
    intro k _
    rw [Finset.mem_insert, Finset.mem_singleton]
    exact hall k
  rw [← sum_eq hzero hsub, Finset.sum_pair hij]

/-- **Step rule.** Thread `i` has another number. -/
theorem update (h : Total f n) (i : ι) (a : ℤ) :
    Total (Function.update f i a) (n - f i + a) := by
  obtain ⟨is, hzero, rfl⟩ := h
  refine ⟨insert i is, ?_, ?_⟩
  · intro j hj
    rw [Finset.mem_insert, not_or] at hj
    rw [Function.update_of_ne hj.1]
    exact hzero j hj.2
  · have hold := sum_eq hzero (Finset.subset_insert i is)
    rw [← Finset.add_sum_erase _ _ (Finset.mem_insert_self i is)] at hold
    rw [Finset.sum_update_of_mem (Finset.mem_insert_self i is), ← Finset.erase_eq, ← hold]
    ring

/-- **Step rule** where the number depends on the place of a thread. -/
theorem move {κ : Type*} {g : κ → ℤ} {pcs : ι → κ} (h : Total (fun j => g (pcs j)) n) (i : ι)
    (p : κ) : Total (fun j => g (Function.update pcs i p j)) (n - g (pcs i) + g p) := by
  have heq : (fun j => g (Function.update pcs i p j)) =
      Function.update (fun j => g (pcs j)) i (g p) :=
    funext fun j => Function.apply_update (fun _ => g) pcs i p j
  rw [heq]
  exact h.update i (g p)

end Total

end

end Pump
