import Mathlib.Tactic

/-! # Ring buffers

    A ring of cells with a head and a tail position. It is empty when the two
    are equal, so one cell stays free. A reader may have taken the content of
    the first cells before it moves the head. Readers and writers may go by
    copies of the positions that are not up to date. -/

namespace Pump

namespace Ring

/-! ## Section 1: Positions -/

theorem position_inj {M a i j : Nat} (hi : i < M) (hj : j < M)
    (h : (a + i) % M = (a + j) % M) : i = j := by
  have hmod : i ≡ j [MOD M] := Nat.ModEq.add_left_cancel' a h
  have hij : i % M = j % M := hmod
  rwa [Nat.mod_eq_of_lt hi, Nat.mod_eq_of_lt hj] at hij

theorem position_eq_self {M a i : Nat} (ha : a < M) (hi : i < M) (h : (a + i) % M = a) :
    i = 0 := by
  apply position_inj (a := a) hi (by omega)
  rw [h, Nat.add_zero, Nat.mod_eq_of_lt ha]

theorem position_add (M a i j : Nat) : ((a + i) % M + j) % M = (a + (i + j)) % M := by
  rw [Nat.mod_add_mod, Nat.add_assoc]

theorem and_mask {m M : Nat} (hM : M = 2 ^ m) (pos : Nat) : pos &&& (M - 1) = pos % M := by
  rw [hM, Nat.and_two_pow_sub_one_eq_mod]

/-- A copy `p` of the head: the head has moved on from it, and the elements
    do not reach around to it. -/
def Behind (M p head n : Nat) : Prop := p < M ∧ ∃ j, j + n < M ∧ head = (p + j) % M

/-- A copy `p` of the tail: the tail has moved on from it. -/
def Ahead (M p head n : Nat) : Prop := ∃ k, k ≤ n ∧ p = (head + k) % M

namespace Behind

variable {M p head n : Nat}

theorem refl (hhead : head < M) (hn : n < M) : Behind M head head n :=
  ⟨hhead, 0, by omega, by rw [Nat.add_zero, Nat.mod_eq_of_lt hhead]⟩

theorem mono {k : Nat} (h : Behind M p head n) (hk : k ≤ n) : Behind M p head k := by
  obtain ⟨hp, j, hj, hhead⟩ := h
  exact ⟨hp, j, by omega, hhead⟩

/-- If the position behind the tail is not the copy, there is room. -/
theorem room (h : Behind M p head n) (hne : (((head + n) % M) + 1) % M ≠ p) :
    Behind M p head (n + 1) := by
  obtain ⟨hp, j, hj, hhead⟩ := h
  refine ⟨hp, j, ?_, hhead⟩
  by_contra hfull
  apply hne
  have hM : p + (j + (n + 1)) = p + M := by omega
  rw [hhead, position_add, position_add, hM, Nat.add_mod_right, Nat.mod_eq_of_lt hp]

theorem pop (h : Behind M p head (n + 1)) : Behind M p ((head + 1) % M) n := by
  obtain ⟨hp, j, hj, hhead⟩ := h
  refine ⟨hp, j + 1, by omega, ?_⟩
  rw [hhead, position_add]

end Behind

namespace Ahead

variable {M p head n : Nat}

theorem refl : Ahead M ((head + n) % M) head n := ⟨n, Nat.le_refl n, rfl⟩

theorem mono {k : Nat} (h : Ahead M p head n) (hk : n ≤ k) : Ahead M p head k := by
  obtain ⟨i, hi, hp⟩ := h
  exact ⟨i, by omega, hp⟩

/-- If the copy is not the head, there is an element. -/
theorem pos (h : Ahead M p head n) (hhead : head < M) (hne : head ≠ p) : 0 < n := by
  obtain ⟨k, hk, hp⟩ := h
  by_contra hzero
  obtain rfl : k = 0 := by omega
  rw [Nat.add_zero, Nat.mod_eq_of_lt hhead] at hp
  exact hne hp.symm

theorem pop (h : Ahead M p head (n + 1)) (hhead : head < M) (hne : head ≠ p) :
    Ahead M p ((head + 1) % M) n := by
  obtain ⟨k, hk, hp⟩ := h
  rcases k with _ | k
  · rw [Nat.add_zero, Nat.mod_eq_of_lt hhead] at hp
    exact absurd hp.symm hne
  · refine ⟨k, by omega, ?_⟩
    rw [position_add, hp, Nat.add_comm k 1]

end Ahead

/-! ## Section 2: Cells -/

variable {τ : Type*}

/-- The elements `xs` from the head on; the first `k` cells may be taken. -/
structure Holds (cells : List (Option τ)) (head tail k : Nat) (xs : List τ) : Prop where
  head_lt : head < cells.length
  fits : xs.length < cells.length
  tail_eq : tail = (head + xs.length) % cells.length
  cell : ∀ i (hi : i < xs.length), k ≤ i →
    cells[(head + i) % cells.length]? = some (some xs[i])

namespace Holds

variable {cells : List (Option τ)} {head tail k : Nat} {x : τ} {xs : List τ}

theorem empty (hhead : head < cells.length) : Holds cells head head 0 ([] : List τ) :=
  ⟨hhead, by rw [List.length_nil]; omega,
    by rw [List.length_nil, Nat.add_zero, Nat.mod_eq_of_lt hhead], nofun⟩

theorem tail_lt (h : Holds cells head tail k xs) : tail < cells.length := by
  have hhead := h.head_lt
  rw [h.tail_eq]
  exact Nat.mod_lt _ (by omega)

theorem head_eq_tail (h : Holds cells head tail k xs) : head = tail ↔ xs = [] := by
  constructor
  · intro heq
    have htail := h.tail_eq
    rw [← heq] at htail
    exact List.eq_nil_of_length_eq_zero (position_eq_self h.head_lt h.fits htail.symm)
  · rintro rfl
    rw [h.tail_eq, List.length_nil, Nat.add_zero, Nat.mod_eq_of_lt h.head_lt]

theorem first (h : Holds cells head tail 0 (x :: xs)) : cells[head]? = some (some x) := by
  have hcell := h.cell 0 (Nat.zero_lt_succ _) (Nat.le_refl 0)
  rwa [Nat.add_zero, Nat.mod_eq_of_lt h.head_lt] at hcell

/-- The cell at the tail is none of those that hold elements. -/
theorem write (h : Holds cells head tail k xs) (v : Option τ) :
    Holds (cells.set tail v) head tail k xs := by
  refine ⟨?_, ?_, ?_, ?_⟩
  · rw [List.length_set]
    exact h.head_lt
  · rw [List.length_set]
    exact h.fits
  · rw [List.length_set]
    exact h.tail_eq
  · intro i hi hk
    rw [List.length_set, List.getElem?_set_ne]
    · exact h.cell i hi hk
    · rw [h.tail_eq]
      intro heq
      have := position_inj h.fits (Nat.lt_trans hi h.fits) heq
      omega

/-- The tail moves behind an element that was written. -/
theorem push (h : Holds cells head tail k xs) (hcell : cells[tail]? = some (some x))
    (hroom : xs.length + 1 < cells.length) :
    Holds cells head ((tail + 1) % cells.length) k (xs ++ [x]) := by
  refine ⟨h.head_lt, ?_, ?_, ?_⟩
  · rwa [List.length_append]
  · rw [h.tail_eq, position_add, List.length_append, List.length_singleton]
  · intro i hi hk
    by_cases hlast : i < xs.length
    · rw [List.getElem_append_left hlast]
      exact h.cell i hlast hk
    · have hi' : i = xs.length := by
        rw [List.length_append, List.length_singleton] at hi
        omega
      subst hi'
      rw [← h.tail_eq, hcell, List.getElem_append_right (Nat.le_refl _)]
      simp

/-- The content of the first cell is taken. -/
theorem take (h : Holds cells head tail 0 xs) (v : Option τ) :
    Holds (cells.set head v) head tail 1 xs := by
  refine ⟨?_, ?_, ?_, ?_⟩
  · rw [List.length_set]
    exact h.head_lt
  · rw [List.length_set]
    exact h.fits
  · rw [List.length_set]
    exact h.tail_eq
  · intro i hi hk
    rw [List.length_set, List.getElem?_set_ne]
    · exact h.cell i hi (Nat.zero_le i)
    · intro heq
      have := position_eq_self h.head_lt (Nat.lt_trans hi h.fits) heq.symm
      omega

theorem mono {k' : Nat} (h : Holds cells head tail k xs) (hk : k ≤ k') :
    Holds cells head tail k' xs :=
  ⟨h.head_lt, h.fits, h.tail_eq, fun i hi hi' => h.cell i hi (Nat.le_trans hk hi')⟩

/-- The head moves behind the first element. -/
theorem pop (h : Holds cells head tail 1 (x :: xs)) :
    Holds cells ((head + 1) % cells.length) tail 0 xs := by
  have hhead := h.head_lt
  have hfits := h.fits
  rw [List.length_cons] at hfits
  refine ⟨Nat.mod_lt _ (by omega), by omega, ?_, ?_⟩
  · rw [h.tail_eq, position_add, List.length_cons, Nat.add_comm 1]
  · intro i hi _
    rw [position_add, Nat.add_comm 1]
    exact h.cell (i + 1) (by rw [List.length_cons]; omega) (by omega)

end Holds

end Ring

end Pump
