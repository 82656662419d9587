import Mathlib.Tactic

/-! # Hashing by blocks

    A compression function chained over the blocks of a message. Of a message
    whose length is no multiple of the block size, the end is left over and
    is part of the first block when more is appended. -/

namespace Pump

namespace BlockHash

variable {σ β : Type*}

/-- The whole blocks of `n` elements, in order. -/
def blocks (n : Nat) (s : List β) : List (List β) :=
  (List.range (s.length / n)).map fun i => (s.drop (n * i)).take n

/-- What is left over. -/
def rest (n : Nat) (s : List β) : List β := s.drop (n * (s.length / n))

/-- The state after the whole blocks. -/
def chain (compress : σ → List β → σ) (n : Nat) (init : σ) (s : List β) : σ :=
  (blocks n s).foldl compress init

variable {n : Nat}

theorem length_rest (n : Nat) (s : List β) : (rest n s).length = s.length % n := by
  rw [rest, List.length_drop, Nat.mod_eq_sub_mul_div]

theorem rest_short {s : List β} (h : s.length < n) : rest n s = s := by
  rw [rest, Nat.div_eq_of_lt h, Nat.mul_zero, List.drop_zero]

theorem blocks_short {s : List β} (h : s.length < n) : blocks n s = [] := by
  rw [blocks, Nat.div_eq_of_lt h]
  rfl

/-- Whole blocks in front of a message. -/
theorem blocks_append (hn : 0 < n) {s : List β} (h : n ∣ s.length) (t : List β) :
    blocks n (s ++ t) = blocks n s ++ blocks n t := by
  obtain ⟨k, hk⟩ := h
  have hs : s.length / n = k := by rw [hk, Nat.mul_div_cancel_left k hn]
  have hst : (s ++ t).length / n = k + t.length / n := by
    rw [List.length_append, hk, Nat.mul_add_div hn]
  unfold blocks
  rw [hst, hs, List.range_add, List.map_append, List.map_map]
  congr 1
  · -- the blocks of `s` end within `s`
    apply List.map_congr_left
    intro i hi
    have hle : n * (i + 1) ≤ n * k := Nat.mul_le_mul_left n (List.mem_range.mp hi)
    rw [Nat.mul_succ] at hle
    rw [List.drop_append_of_le_length (by omega),
      List.take_append_of_le_length (by rw [List.length_drop]; omega)]
  · apply List.map_congr_left
    intro i _
    rw [Function.comp_apply, Nat.mul_add, ← hk, List.drop_append, List.drop_eq_nil_of_le (by omega),
      List.nil_append, Nat.add_sub_cancel_left]

theorem blocks_self (hn : 0 < n) {s : List β} (h : s.length = n) : blocks n s = [s] := by
  rw [blocks, h, Nat.div_self hn]
  simp [← h]

theorem rest_append (hn : 0 < n) {s : List β} (h : n ∣ s.length) (t : List β) :
    rest n (s ++ t) = rest n t := by
  obtain ⟨k, hk⟩ := h
  have hst : (s ++ t).length / n = k + t.length / n := by
    rw [List.length_append, hk, Nat.mul_add_div hn]
  rw [rest, rest, hst, Nat.mul_add, ← hk, List.drop_append, List.drop_eq_nil_of_le (by omega),
    List.nil_append, Nat.add_sub_cancel_left]

/-- A message is its whole blocks and what is left over. -/
theorem take_append_rest (n : Nat) (s : List β) :
    s.take (n * (s.length / n)) ++ rest n s = s := List.take_append_drop _ _

theorem dvd_length_take (n : Nat) (s : List β) : n ∣ (s.take (n * (s.length / n))).length := by
  rw [List.length_take, Nat.min_eq_left (Nat.mul_div_le s.length n)]
  exact Nat.dvd_mul_right n _

theorem blocks_take (hn : 0 < n) (s : List β) :
    blocks n (s.take (n * (s.length / n))) = blocks n s := by
  have hrest : blocks n (rest n s) = [] := by
    apply blocks_short
    rw [length_rest]
    exact Nat.mod_lt _ hn
  have happend := blocks_append hn (dvd_length_take n s) (rest n s)
  rw [take_append_rest, hrest, List.append_nil] at happend
  exact happend.symm

variable (compress : σ → List β → σ)

theorem chain_append (hn : 0 < n) (init : σ) {s : List β} (h : n ∣ s.length) (t : List β) :
    chain compress n init (s ++ t) = chain compress n (chain compress n init s) t := by
  rw [chain, blocks_append hn h, List.foldl_append]
  rfl

theorem chain_self (hn : 0 < n) (init : σ) {s : List β} (h : s.length = n) :
    chain compress n init s = compress init s := by
  rw [chain, blocks_self hn h]
  rfl

theorem chain_short (init : σ) {s : List β} (h : s.length < n) :
    chain compress n init s = init := by
  rw [chain, blocks_short h]
  rfl

/-- **More is appended**: the state and what is left over are all that counts
    of what came before. -/
theorem chain_more (hn : 0 < n) (init : σ) (s t : List β) :
    chain compress n init (s ++ t) =
      chain compress n (chain compress n init s) (rest n s ++ t) := by
  have hdvd := dvd_length_take n s
  calc chain compress n init (s ++ t)
      = chain compress n init (s.take (n * (s.length / n)) ++ (rest n s ++ t)) := by
        rw [← List.append_assoc, take_append_rest]
    _ = chain compress n (chain compress n init (s.take (n * (s.length / n)))) (rest n s ++ t) :=
        chain_append compress hn init hdvd _
    _ = chain compress n (chain compress n init s) (rest n s ++ t) := by
        rw [chain, chain, chain, chain, blocks_take hn]

theorem rest_more (hn : 0 < n) (s t : List β) : rest n (s ++ t) = rest n (rest n s ++ t) := by
  have hdvd := dvd_length_take n s
  calc rest n (s ++ t)
      = rest n (s.take (n * (s.length / n)) ++ (rest n s ++ t)) := by
        rw [← List.append_assoc, take_append_rest]
    _ = rest n (rest n s ++ t) := rest_append hn hdvd _

end BlockHash

end Pump
