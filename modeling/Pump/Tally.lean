import Mathlib.Tactic

/-! # What threads hold

    A function that gives what each thread holds, where finitely many hold
    something: the values, one for each thread, in some order, and how many
    hold the same value. -/

namespace Pump

section

variable {ι α : Type*}

/-- The values of `f` are those of the list, each as often as there are
    indices for it. -/
def Tally (f : ι → Option α) (l : List α) : Prop :=
  ∃ is : List ι, is.Nodup ∧ (∀ i, i ∈ is ↔ f i ≠ none) ∧ l = is.filterMap f

namespace Tally

variable {f : ι → Option α} {l : List α} {i : ι} {a b : α}

theorem start : Tally (fun _ : ι => (none : Option α)) [] :=
  ⟨[], List.nodup_nil, by simp, rfl⟩

/-- Nobody holds anything. -/
theorem eq_nil (h : Tally f l) (hnone : ∀ i, f i = none) : l = [] := by
  obtain ⟨is, -, hmem, rfl⟩ := h
  rcases is with _ | ⟨i, is⟩
  · rfl
  · exact absurd (hnone i) ((hmem i).mp List.mem_cons_self)

variable [DecidableEq ι]

/-- A change at an index that is not in the list. -/
theorem filterMap_update {is : List ι} (o : Option α) (hi : i ∉ is) :
    is.filterMap (Function.update f i o) = is.filterMap f := by
  apply List.filterMap_congr
  intro j hj
  rw [Function.update_of_ne (ne_of_mem_of_not_mem hj hi)]

/-- Thread `i` takes a value. -/
theorem put (h : Tally f l) (hi : f i = none) (a : α) :
    Tally (Function.update f i (some a)) (a :: l) := by
  obtain ⟨is, hnodup, hmem, rfl⟩ := h
  have hnot : i ∉ is := by
    intro hin
    exact (hmem i).mp hin hi
  refine ⟨i :: is, List.nodup_cons.mpr ⟨hnot, hnodup⟩, ?_, ?_⟩
  · intro j
    rw [List.mem_cons]
    by_cases hji : j = i
    · rw [hji, Function.update_self]
      simp
    · rw [Function.update_of_ne hji, ← hmem j]
      simp [hji]
  · rw [List.filterMap_cons, Function.update_self, filterMap_update _ hnot]

/-- Thread `i` gives its value away. -/
theorem drop (h : Tally f l) (hi : f i = some a) :
    ∃ l', l.Perm (a :: l') ∧ Tally (Function.update f i none) l' := by
  obtain ⟨is, hnodup, hmem, rfl⟩ := h
  have hin : i ∈ is := by
    rw [hmem, hi]
    exact nofun
  have hperm := List.perm_cons_erase hin
  refine ⟨(is.erase i).filterMap f, ?_, is.erase i, hnodup.erase i, ?_, ?_⟩
  · have hmap := hperm.filterMap f
    rw [List.filterMap_cons, hi] at hmap
    exact hmap
  · intro j
    rw [hnodup.mem_erase_iff]
    by_cases hji : j = i
    · rw [hji, Function.update_self]
      simp
    · rw [Function.update_of_ne hji, ← hmem j]
      simp [hji]
  · rw [filterMap_update]
    exact hnodup.not_mem_erase

end Tally

/-! ## How many hold a value -/

/-- One for a holder of `a`. -/
def points [DecidableEq α] (o : Option α) (a : α) : Nat := if o = some a then 1 else 0

/-- How many of the indices hold `a`. -/
def held [DecidableEq α] (live : Finset ι) (f : ι → Option α) (a : α) : Nat :=
  ∑ i ∈ live, points (f i) a

variable [DecidableEq ι] [DecidableEq α] {live : Finset ι} {f : ι → Option α} {i : ι} {a : α}

/-- One more index. -/
theorem held_insert (hi : i ∉ live) (o : Option α) (a : α) :
    held (insert i live) (Function.update f i o) a = held live f a + points o a := by
  rw [held, Finset.sum_insert hi, Function.update_self, Nat.add_comm]
  congr 1
  apply Finset.sum_congr rfl
  intro j hj
  rw [Function.update_of_ne (ne_of_mem_of_not_mem hj hi)]

/-- One index less. -/
theorem held_erase (hi : i ∈ live) (f : ι → Option α) (a : α) :
    held (live.erase i) f a + points (f i) a = held live f a :=
  Finset.sum_erase_add live (fun j => points (f j) a) hi

/-- One index changes what it holds. -/
theorem held_update (hi : i ∈ live) (o : Option α) (a : α) :
    held live (Function.update f i o) a + points (f i) a = held live f a + points o a := by
  have hout : i ∉ live.erase i := Finset.notMem_erase i live
  have hin := held_insert (f := f) hout o a
  rw [Finset.insert_erase hi] at hin
  have hold := held_erase hi f a
  omega

omit [DecidableEq ι] in
theorem held_pos (hi : i ∈ live) (hf : f i = some a) : 0 < held live f a := by
  have hle := Finset.single_le_sum (f := fun j => points (f j) a) (fun _ _ => Nat.zero_le _) hi
  have hone : points (f i) a = 1 := if_pos hf
  have hle : points (f i) a ≤ held live f a := hle
  omega

omit [DecidableEq ι] in
/-- Nobody holds what does not exist. -/
theorem held_eq_zero (h : ∀ i ∈ live, f i ≠ some a) : held live f a = 0 :=
  Finset.sum_eq_zero fun i hi => if_neg (h i hi)

end

end Pump
