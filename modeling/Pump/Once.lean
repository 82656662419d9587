import Mathlib.Tactic

/-! # At most one call

    Any number of threads may win the right to make a call, and what they win
    it by is over then. The call is due to at most one thread, and is made
    at most once. -/

namespace Pump

section

variable {ι : Type*}

/-- The call is due to the threads `due`, was made `made` times, and what it
    is won by is `ended`. -/
structure Once (due : ι → Prop) (made : Nat) (ended : Prop) : Prop where
  due_ended : ∀ i, due i → made = 0 ∧ ended
  unique : ∀ i j, due i → due j → i = j
  made_ended : made ≠ 0 → made = 1 ∧ ended

namespace Once

variable {due due' : ι → Prop} {made : Nat} {ended ended' : Prop} {i : ι}

theorem start : Once (fun _ : ι => False) 0 ended :=
  ⟨fun _ h => h.elim, fun _ _ h => h.elim, fun h => absurd rfl h⟩

theorem le_one (h : Once due made ended) : made ≤ 1 := by
  by_cases hmade : made = 0
  · rw [hmade]
    exact Nat.zero_le 1
  · exact (h.made_ended hmade).1.le

/-- No call becomes due. -/
theorem keep (h : Once due made ended) (hdue : ∀ j, due' j → due j) (hended : ended → ended') :
    Once due' made ended' := by
  refine ⟨?_, ?_, ?_⟩
  · intro j hj
    exact ⟨(h.due_ended j (hdue j hj)).1, hended (h.due_ended j (hdue j hj)).2⟩
  · intro j k hj hk
    exact h.unique j k (hdue j hj) (hdue k hk)
  · intro hmade
    exact ⟨(h.made_ended hmade).1, hended (h.made_ended hmade).2⟩

/-- Thread `i` takes a step by which no call becomes due. -/
theorem aside (h : Once due made ended) (hi : ¬ due' i) (hdue : ∀ j, j ≠ i → due' j → due j)
    (hended : ended → ended') : Once due' made ended' := by
  apply h.keep _ hended
  intro j hj
  by_cases hji : j = i
  · exact absurd (hji ▸ hj) hi
  · exact hdue j hji hj

/-- Thread `i` makes the call. -/
theorem call (h : Once due made ended) (hi : due i) (hi' : ¬ due' i)
    (hdue : ∀ j, j ≠ i → due' j → due j) : Once due' (made + 1) ended := by
  obtain ⟨hzero, hended⟩ := h.due_ended i hi
  have hno : ∀ j, ¬ due' j := by
    intro j hj
    by_cases hji : j = i
    · exact hi' (hji ▸ hj)
    · exact hji (h.unique j i (hdue j hji hj) hi)
  refine ⟨fun j hj => absurd hj (hno j), fun j _ hj => absurd hj (hno j), ?_⟩
  intro _
  rw [hzero]
  exact ⟨rfl, hended⟩

/-- Thread `i` wins the call. -/
theorem win (h : Once due made ended) (hnot : ¬ ended) (hended : ended')
    (hdue : ∀ j, j ≠ i → due' j → due j) : Once due' made ended' := by
  have hzero : made = 0 := by
    by_contra hne
    exact hnot (h.made_ended hne).2
  have honly : ∀ j, due' j → j = i := by
    intro j hj
    by_contra hji
    exact hnot (h.due_ended j (hdue j hji hj)).2
  refine ⟨fun _ _ => ⟨hzero, hended⟩, ?_, fun hne => absurd hzero hne⟩
  intro j k hj hk
  rw [honly j hj, honly k hk]

end Once

end

end Pump
