import Mathlib.Tactic

/-! # A baton that a counter stands for

    Threads add work to a counter. Whoever adds to a counter of zero holds the
    baton and works the counter off; it is given up with the last of the work,
    or put down where one thread may pick it up. At most one thread holds the
    baton, as long as the counter says how much work there is. -/

namespace Pump

section

variable {ι : Type*}

/-- The threads `holds` hold the baton or it is put down, while there is
    `work`. -/
structure Baton (holds : ι → Prop) (down : Prop) (work : Nat) : Prop where
  unique : ∀ i j, holds i → holds j → i = j
  apart : down → ∀ i, ¬ holds i
  held_pos : ∀ i, holds i → 0 < work
  down_pos : down → 0 < work

namespace Baton

variable {holds holds' : ι → Prop} {down down' : Prop} {work work' : Nat} {i : ι}

theorem start : Baton (fun _ : ι => False) False work :=
  ⟨fun _ _ h => h.elim, fun h => h.elim, fun _ h => h.elim, fun h => h.elim⟩

/-- Without work nobody holds the baton. -/
theorem free (h : Baton holds down work) (hwork : work = 0) : (∀ i, ¬ holds i) ∧ ¬ down := by
  constructor
  · intro i hi
    have hpos := h.held_pos i hi
    omega
  · intro hdown
    have hpos := h.down_pos hdown
    omega

/-- The others go on, and there may be more work. -/
theorem mono (h : Baton holds down work) (hholds : ∀ j, holds' j → holds j)
    (hdown : down' → down) (hwork : work ≤ work') : Baton holds' down' work' := by
  refine ⟨?_, ?_, ?_, ?_⟩
  · intro j j' hj hj'
    exact h.unique j j' (hholds j hj) (hholds j' hj')
  · intro hd j hj
    exact h.apart (hdown hd) j (hholds j hj)
  · intro j hj
    exact (h.held_pos j (hholds j hj)).trans_le hwork
  · intro hd
    exact (h.down_pos (hdown hd)).trans_le hwork

/-- Thread `i` adds to a counter of zero. -/
theorem win (h : Baton holds down work) (hwork : work = 0) (hpos : 0 < work')
    (hothers : ∀ j, j ≠ i → holds' j → holds j) (hdown : down' → down) :
    Baton holds' down' work' := by
  obtain ⟨hnone, hnot⟩ := h.free hwork
  have honly : ∀ j, holds' j → j = i := by
    intro j hj
    by_contra hji
    exact hnone j (hothers j hji hj)
  refine ⟨?_, ?_, fun _ _ => hpos, fun _ => hpos⟩
  · intro j j' hj hj'
    rw [honly j hj, honly j' hj']
  · intro hd
    exact absurd (hdown hd) hnot

/-- Thread `i`, which holds the baton, keeps it, gives it up or puts it down. -/
theorem turn (h : Baton holds down work) (hi : holds i)
    (hothers : ∀ j, j ≠ i → holds' j → holds j) (hkeep : holds' i → 0 < work')
    (hdown : down' → ¬ holds' i ∧ 0 < work') : Baton holds' down' work' := by
  have honly : ∀ j, holds' j → j = i := by
    intro j hj
    by_contra hji
    exact hji (h.unique j i (hothers j hji hj) hi)
  refine ⟨?_, ?_, ?_, fun hd => (hdown hd).2⟩
  · intro j j' hj hj'
    rw [honly j hj, honly j' hj']
  · intro hd j hj
    have hji := honly j hj
    rw [hji] at hj
    exact (hdown hd).1 hj
  · intro j hj
    have hji := honly j hj
    rw [hji] at hj
    exact hkeep hj

/-- Thread `i` picks the baton up. -/
theorem pick (h : Baton holds down work) (hd : down) (hothers : ∀ j, j ≠ i → holds' j → holds j)
    (hdown : ¬ down') : Baton holds' down' work := by
  have honly : ∀ j, holds' j → j = i := by
    intro j hj
    by_contra hji
    exact h.apart hd j (hothers j hji hj)
  refine ⟨?_, fun hd' => absurd hd' hdown, fun _ _ => h.down_pos hd, fun hd' => absurd hd' hdown⟩
  intro j j' hj hj'
  rw [honly j hj, honly j' hj']

end Baton

end

end Pump
