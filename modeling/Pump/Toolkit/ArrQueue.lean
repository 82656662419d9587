import Pump.RingBuffer
import Pump.Utils

/-! # freelock_arr_queue

    The queue of `toolkit/freelock_arr_queue.h` with one thread, whose calls
    run one after the other. The counters are free-running `int32_t`s that
    wrap, and a node is found by the mask of the rounded size, in an array of
    the size that was asked for. -/

namespace Pump

/-! ## Section 1: Model -/

/-- `freelock_arr_queue`; `created` is the number of nodes in the array. -/
structure ArrQueue (τ : Type) where
  size : BitVec 32
  size_mask : BitVec 32
  created : Nat
  data : Nat → Option τ
  ready : Nat → Bool
  read_index : BitVec 32
  write_index : BitVec 32

namespace ArrQueue

variable {τ : Type}

/-- The constructor; the nodes are zeroed. -/
def construct (size : BitVec 32) : ArrQueue τ :=
  { size := ceil_to_power_of_two size
    size_mask := ceil_to_power_of_two size - 1
    created := size.toNat
    data := fun _ => none
    ready := fun _ => false
    read_index := 0
    write_index := 1 }

/-- `__count_to_index`. -/
def count_to_index (q : ArrQueue τ) (count : BitVec 32) : Int := (count &&& q.size_mask).toInt

/-- The node behind `nodes_`; `none` outside the array. -/
def elem_node (q : ArrQueue τ) (count : BitVec 32) : Option Nat :=
  if 0 ≤ q.count_to_index count ∧ q.count_to_index count < q.created then
    some (q.count_to_index count).toNat
  else
    none

/-- `push`; `none` when it waits for ever, or looks outside the array. The
    exchange of the only thread succeeds. -/
def push (q : ArrQueue τ) (data : τ) : Option (Bool × ArrQueue τ) :=
  if q.write_index = q.read_index then some (false, q)
  else
    match q.elem_node q.write_index with
    | none => none
    | some node =>
      if q.ready node then none
      else some (true, { q with
        write_index := q.write_index + 1
        data := Function.update q.data node (some data)
        ready := Function.update q.ready node true })

/-- `pop`, in the same way; the inner `none` is `false`. -/
def pop (q : ArrQueue τ) : Option (Option τ × ArrQueue τ) :=
  if q.read_index + 1 = q.write_index then some (none, q)
  else
    match q.elem_node (q.read_index + 1) with
    | none => none
    | some node =>
      if !q.ready node then none
      else some (q.data node, { q with
        read_index := q.read_index + 1
        ready := Function.update q.ready node false })

/-- `size()`. -/
def count (q : ArrQueue τ) : Int :=
  if q.write_index.toInt ≥ q.read_index.toInt then (q.write_index - q.read_index).toInt
  else (q.size + q.write_index - q.read_index).toInt

/-- `empty()`. -/
def empty (q : ArrQueue τ) : Bool := q.count > 0

/-- `capacity()`. -/
def capacity (q : ArrQueue τ) : Int := q.size.toInt

inductive Call (τ : Type) where
  | push (v : τ)
  | pop
  | size
  | empty

inductive Answer (τ : Type) where
  | pushed (ok : Bool)
  | popped (v : Option τ)
  | size (n : Int)
  | empty (b : Bool)
  deriving DecidableEq

def Call.run (q : ArrQueue τ) : Call τ → Option (ArrQueue τ × Answer τ)
  | push v => (q.push v).map fun r => (r.2, .pushed r.1)
  | pop => q.pop.map fun r => (r.2, .popped r.1)
  | size => some (q, .size q.count)
  | empty => some (q, .empty q.empty)

/-- The calls one after the other, with their answers. -/
def Call.runs (q : ArrQueue τ) : List (Call τ) → Option (List (Answer τ))
  | [] => some []
  | c :: calls => do
    let r ← c.run q
    let answers ← Call.runs r.1 calls
    some (r.2 :: answers)

/-- What a queue of that capacity answers. -/
def Call.serve (capacity : Int) (values : List τ) : Call τ → List τ × Answer τ
  | push v =>
    if (values.length : Int) = capacity then (values, .pushed false)
    else (values ++ [v], .pushed true)
  | pop =>
    match values with
    | [] => ([], .popped none)
    | v :: values => (values, .popped (some v))
  | size => (values, .size values.length)
  | empty => (values, .empty values.isEmpty)

def Call.serves (capacity : Int) (values : List τ) : List (Call τ) → List (Answer τ)
  | [] => []
  | c :: calls =>
    (c.serve capacity values).2 :: Call.serves capacity (c.serve capacity values).1 calls

/-- No call waits or looks outside the array, and the answers are those of a
    bounded queue. -/
def Refines (size : BitVec 32) (calls : List (Call τ)) : Prop :=
  Call.runs (construct size) calls =
    some (Call.serves (construct size : ArrQueue τ).capacity [] calls)

/-! ## Section 2: The calls that are answered well -/

/-- `empty()` tells whether the queue is, with `n` elements after `k` pushes:
    there are none, or `size()` is negative. The sum that it is turns negative
    from `2^31` on, which takes a rounded size `M` of `2^30` or more; the size
    is added while the counters have different signs. -/
def EmptyTells (M n k : Nat) : Prop :=
  if 2 ^ 32 ≤ (k - n + 2 ^ 31) % 2 ^ 32 + n + 1 then
    if n = 0 then M + 1 < 2 ^ 31 else 2 ^ 31 ≤ M + n + 1 ∧ M + n + 1 ≤ 2 ^ 32
  else n = 0 ∨ 2 ^ 31 ≤ n + 1

/-- No call of `size()`, no `empty()` that tells wrong, no push to a full queue
    and none whose place is behind the nodes of the array; there are `n`
    elements, after `k` pushes. -/
def Allowed (size : BitVec 32) : Nat → Nat → List (Call τ) → Prop
  | _, _, [] => True
  | n, k, .push _ :: calls =>
    n < (ceil_to_power_of_two size).toNat ∧
      (k + 1) % (ceil_to_power_of_two size).toNat < size.toNat ∧
      Allowed size (n + 1) (k + 1) calls
  | n, k, .pop :: calls => Allowed size (n - 1) k calls
  | _, _, .size :: _ => False
  | n, k, .empty :: calls =>
    EmptyTells (ceil_to_power_of_two size).toNat n k ∧ Allowed size n k calls

/-! ## Section 3: The array between two calls -/

/-- The queue after `p` pops, with these elements. -/
structure Stores (size : BitVec 32) (M : Nat) (q : ArrQueue τ) (values : List τ) (p : Nat) :
    Prop where
  rounded : q.size = ceil_to_power_of_two size
  mask : q.size_mask = ceil_to_power_of_two size - 1
  created : q.created = size.toNat
  length : values.length ≤ M
  read : q.read_index = BitVec.ofNat 32 p
  write : q.write_index = BitVec.ofNat 32 (p + values.length + 1)
  ready : ∀ i, q.ready i = true ↔ ∃ j < values.length, i = (p + 1 + j) % M
  stored : ∀ j < values.length, q.data ((p + 1 + j) % M) = values[j]?
  place : ∀ j < values.length, (p + 1 + j) % M < size.toNat

theorem construct_stores (size : BitVec 32) (M : Nat) :
    Stores size M (construct size : ArrQueue τ) [] 0 := by
  refine ⟨rfl, rfl, rfl, Nat.zero_le M, rfl, rfl, ?_, ?_, ?_⟩
  · intro i
    refine iff_of_false Bool.false_ne_true ?_
    rintro ⟨j, hj, -⟩
    cases hj
  · intro j hj
    cases hj
  · intro j hj
    cases hj

/-- A counter that goes up by one. -/
theorem counter_succ (k : Nat) : BitVec.ofNat 32 k + 1 = BitVec.ofNat 32 (k + 1) := by
  rw [BitVec.ofNat_add]
  rfl

/-- The mask of a power of two takes a counter to its place in the array. -/
theorem elem_node_eq {q : ArrQueue τ} {m : Nat} (hm : m ≤ 31) (hmask : (q.size_mask).toNat + 1 = 2 ^ m)
    (k : Nat) : q.elem_node (BitVec.ofNat 32 k) =
      if k % 2 ^ m < q.created then some (k % 2 ^ m) else none := by
  have hpow : (2 : Nat) ^ m ≤ 2 ^ 31 := Nat.pow_le_pow_right (by omega) hm
  have hnat : (BitVec.ofNat 32 k &&& q.size_mask).toNat = k % 2 ^ m := by
    have hmask' : q.size_mask.toNat = 2 ^ m - 1 := by omega
    rw [BitVec.toNat_and, BitVec.toNat_ofNat, hmask', Ring.and_mask rfl]
    exact Nat.mod_mod_of_dvd k (Nat.pow_dvd_pow 2 (by omega))
  have hlt : k % 2 ^ m < 2 ^ m := Nat.mod_lt k (Nat.two_pow_pos m)
  have hint : q.count_to_index (BitVec.ofNat 32 k) = (k % 2 ^ m : Nat) := by
    unfold count_to_index
    rw [BitVec.toInt_eq_toNat_cond, hnat, if_pos (by omega)]
  unfold elem_node
  rw [hint, Int.toNat_natCast]
  by_cases hin : k % 2 ^ m < q.created
  · rw [if_pos ⟨by omega, by exact_mod_cast hin⟩, if_pos hin]
  · rw [if_neg hin, if_neg]
    rintro ⟨-, hlt'⟩
    exact hin (by exact_mod_cast hlt')

namespace Stores

variable {size : BitVec 32} {M : Nat} {q : ArrQueue τ} {values : List τ} {p : Nat}

theorem elem_node {m : Nat} (h : Stores size M q values p) (hm : m ≤ 31)
    (hM : (ceil_to_power_of_two size).toNat = M) (hpow : M = 2 ^ m) (k : Nat) :
    q.elem_node (BitVec.ofNat 32 k) = if k % M < size.toNat then some (k % M) else none := by
  have hpos : 0 < M := by rw [hpow]; exact Nat.two_pow_pos m
  have hmask : q.size_mask.toNat + 1 = 2 ^ m := by
    rw [h.mask, ← hpow, ← hM]
    rw [← hM] at hpos
    bv_omega
  rw [elem_node_eq hm hmask, h.created, hpow]

/-- A counter is `n + 1` ahead of the other, and `n` is far from wrapping. -/
theorem counters (h : Stores size M q values p) (hM : M ≤ 2 ^ 31) :
    q.write_index ≠ q.read_index ∧ (q.read_index + 1 = q.write_index ↔ values = []) := by
  have hlen := h.length
  rw [h.read, h.write, counter_succ]
  constructor
  · intro heq
    have hnat := congrArg BitVec.toNat heq
    simp only [BitVec.toNat_ofNat] at hnat
    omega
  · rw [← List.length_eq_zero_iff]
    constructor
    · intro heq
      have hnat := congrArg BitVec.toNat heq
      simp only [BitVec.toNat_ofNat] at hnat
      omega
    · intro hnil
      rw [hnil, Nat.add_zero]

/-- **Push.** With room, and a place in the array. -/
theorem push {m : Nat} (h : Stores size M q values p) (hm : m ≤ 31)
    (hM : (ceil_to_power_of_two size).toNat = M) (hpow : M = 2 ^ m) (v : τ)
    (hroom : values.length < M) (hplace : (p + values.length + 1) % M < size.toNat) :
    ∃ q', q.push v = some (true, q') ∧ Stores size M q' (values ++ [v]) p := by
  have hM31 : M ≤ 2 ^ 31 := hpow ▸ Nat.pow_le_pow_right (by omega) hm
  obtain ⟨hne, -⟩ := h.counters hM31
  obtain ⟨node, hnode⟩ : ∃ node, node = (p + 1 + values.length) % M := ⟨_, rfl⟩
  have hsame : p + values.length + 1 = p + 1 + values.length := by omega
  have helem : q.elem_node q.write_index = some node := by
    rw [h.write, h.elem_node hm hM hpow, if_pos hplace, hnode, hsame]
  -- the place behind the elements is not one of theirs
  have hfree : ∀ j < values.length, (p + 1 + j) % M ≠ node := by
    intro j hj heq
    rw [hnode] at heq
    have := Ring.position_inj (by omega) hroom heq
    omega
  have hready : q.ready node = false := by
    rw [← Bool.not_eq_true, h.ready]
    rintro ⟨j, hj, heq⟩
    exact hfree j hj heq.symm
  refine ⟨{ q with
    write_index := q.write_index + 1
    data := Function.update q.data node (some v)
    ready := Function.update q.ready node true }, ?_, ?_⟩
  · unfold ArrQueue.push
    rw [if_neg hne, helem]
    simp only [hready, Bool.false_eq_true, if_false]
  · have hlen : (values ++ [v]).length = values.length + 1 := List.length_append
    refine ⟨h.rounded, h.mask, h.created, by omega, h.read, ?_, ?_, ?_, ?_⟩
    · show q.write_index + 1 = _
      rw [h.write, hlen, counter_succ, Nat.add_assoc p]
    · intro i
      show Function.update q.ready node true i = true ↔ _
      rw [hlen]
      by_cases hi : i = node
      · rw [hi, Function.update_self]
        exact iff_of_true rfl ⟨values.length, by omega, hnode⟩
      · rw [Function.update_of_ne hi, h.ready]
        constructor
        · rintro ⟨j, hj, heq⟩
          exact ⟨j, by omega, heq⟩
        · rintro ⟨j, hj, heq⟩
          refine ⟨j, ?_, heq⟩
          have hj' : j ≠ values.length := by
            rintro rfl
            exact hi (heq.trans hnode.symm)
          omega
    · intro j hj
      show Function.update q.data node (some v) _ = _
      rw [hlen] at hj
      by_cases hlast : j = values.length
      · rw [hlast, ← hnode, Function.update_self, List.getElem?_concat_length]
      · rw [Function.update_of_ne (hfree j (by omega)), h.stored j (by omega),
          List.getElem?_append_left (by omega)]
    · intro j hj
      rw [hlen] at hj
      by_cases hlast : j = values.length
      · rw [hlast, ← hsame]
        exact hplace
      · exact h.place j (by omega)

/-- **Push to a full array** waits for the oldest element to go. -/
theorem push_full {m : Nat} (h : Stores size M q values p) (hm : m ≤ 31)
    (hM : (ceil_to_power_of_two size).toNat = M) (hpow : M = 2 ^ m) (v : τ)
    (hfull : values.length = M) : q.push v = none := by
  have hM31 : M ≤ 2 ^ 31 := hpow ▸ Nat.pow_le_pow_right (by omega) hm
  have hpos : 0 < M := by rw [hpow]; exact Nat.two_pow_pos m
  obtain ⟨hne, -⟩ := h.counters hM31
  have hfirst : (p + values.length + 1) % M = (p + 1 + 0) % M := by
    rw [hfull, Nat.add_right_comm, Nat.add_mod_right, Nat.add_zero]
  have hplace := h.place 0 (by omega)
  have helem : q.elem_node q.write_index = some ((p + 1 + 0) % M) := by
    rw [h.write, h.elem_node hm hM hpow, hfirst, if_pos hplace]
  have hready : q.ready ((p + 1 + 0) % M) = true := (h.ready _).mpr ⟨0, by omega, rfl⟩
  unfold ArrQueue.push
  rw [if_neg hne, helem]
  simp only [hready, if_true]

/-- **Push behind the array.** -/
theorem push_outside {m : Nat} (h : Stores size M q values p) (hm : m ≤ 31)
    (hM : (ceil_to_power_of_two size).toNat = M) (hpow : M = 2 ^ m) (v : τ)
    (hplace : ¬ (p + values.length + 1) % M < size.toNat) : q.push v = none := by
  have hM31 : M ≤ 2 ^ 31 := hpow ▸ Nat.pow_le_pow_right (by omega) hm
  obtain ⟨hne, -⟩ := h.counters hM31
  have helem : q.elem_node q.write_index = none := by
    rw [h.write, h.elem_node hm hM hpow, if_neg hplace]
  unfold ArrQueue.push
  rw [if_neg hne, helem]

/-- A push that returns does not return `false`. -/
theorem push_true (h : Stores size M q values p) (hM : M ≤ 2 ^ 31) {v : τ} {r : Bool × ArrQueue τ}
    (hr : q.push v = some r) : r.1 = true := by
  obtain ⟨hne, -⟩ := h.counters hM
  unfold ArrQueue.push at hr
  rw [if_neg hne] at hr
  split at hr
  · cases hr
  · split at hr
    · cases hr
    · cases hr
      rfl

theorem pop_empty (h : Stores size M q [] p) (hM : M ≤ 2 ^ 31) : q.pop = some (none, q) := by
  obtain ⟨-, hnil⟩ := h.counters hM
  unfold ArrQueue.pop
  rw [if_pos (hnil.mpr rfl)]

/-- **Pop.** The oldest element. -/
theorem pop {m : Nat} {v : τ} (h : Stores size M q (v :: values) p) (hm : m ≤ 31)
    (hM : (ceil_to_power_of_two size).toNat = M) (hpow : M = 2 ^ m) :
    ∃ q', q.pop = some (some v, q') ∧ Stores size M q' values (p + 1) := by
  have hM31 : M ≤ 2 ^ 31 := hpow ▸ Nat.pow_le_pow_right (by omega) hm
  obtain ⟨-, hnil⟩ := h.counters hM31
  have hne : q.read_index + 1 ≠ q.write_index := fun heq => List.cons_ne_nil v values (hnil.mp heq)
  have hlen : (v :: values).length = values.length + 1 := List.length_cons
  have hM' := h.length
  have hplace : (p + 1) % M < size.toNat := h.place 0 (by omega)
  have helem : q.elem_node (q.read_index + 1) = some ((p + 1) % M) := by
    rw [h.read, counter_succ, h.elem_node hm hM hpow, if_pos hplace]
  have hready : q.ready ((p + 1) % M) = true := (h.ready _).mpr ⟨0, by omega, rfl⟩
  have hdata : q.data ((p + 1) % M) = some v := h.stored 0 (by omega)
  have hshift : ∀ j, p + 1 + 1 + j = p + 1 + (j + 1) := fun j => by omega
  refine ⟨{ q with
    read_index := q.read_index + 1
    ready := Function.update q.ready ((p + 1) % M) false }, ?_, ?_⟩
  · unfold ArrQueue.pop
    rw [if_neg hne, helem]
    simp only [hready, hdata, Bool.not_true, Bool.false_eq_true, if_false]
  · refine ⟨h.rounded, h.mask, h.created, by omega, ?_, ?_, ?_, ?_, ?_⟩
    · show q.read_index + 1 = _
      rw [h.read, counter_succ]
    · show q.write_index = _
      rw [h.write, hlen]
      congr 1
      omega
    · intro i
      show Function.update q.ready _ false i = true ↔ _
      by_cases hi : i = (p + 1) % M
      · rw [hi, Function.update_self]
        refine iff_of_false Bool.false_ne_true ?_
        -- the place that is free now is not one of those behind it
        rintro ⟨j, hj, heq⟩
        rw [hshift] at heq
        have := Ring.position_inj (a := p + 1) (i := 0) (j := j + 1) (by omega) (by omega) heq
        omega
      · rw [Function.update_of_ne hi, h.ready]
        constructor
        · rintro ⟨j, hj, heq⟩
          rcases j with _ | j
          · exact absurd heq hi
          · exact ⟨j, by omega, by rw [heq, hshift]⟩
        · rintro ⟨j, hj, heq⟩
          exact ⟨j + 1, by omega, by rw [heq, hshift]⟩
    · intro j hj
      show q.data _ = _
      rw [hshift, h.stored (j + 1) (by omega), List.getElem?_cons_succ]
    · intro j hj
      rw [hshift]
      exact h.place (j + 1) (by omega)

/-- What `size()` gives: one more than the number of elements, and once more
    the rounded size while the counters have different signs; the sum wraps. -/
theorem count_eq (h : Stores size M q values p) (hM : (ceil_to_power_of_two size).toNat = M)
    (hle : M ≤ 2 ^ 31) : q.count =
      if 2 ^ 32 ≤ (p + 2 ^ 31) % 2 ^ 32 + values.length + 1 then
        ((M + values.length + 1 : Nat) : Int).bmod (2 ^ 32)
      else ((values.length + 1 : Nat) : Int).bmod (2 ^ 32) := by
  have hlen := h.length
  have hsign : ∀ k : Nat, (BitVec.ofNat 32 k).toInt = ((k + 2 ^ 31) % 2 ^ 32 : Nat) - 2 ^ 31 := by
    intro k
    rw [BitVec.toInt_ofNat', Int.bmod_def]
    split <;> omega
  have hdiff : (q.write_index - q.read_index).toInt =
      ((values.length + 1 : Nat) : Int).bmod (2 ^ 32) := by
    have hbits : q.write_index - q.read_index = BitVec.ofNat 32 (values.length + 1) := by
      rw [h.read, h.write]
      apply BitVec.eq_of_toNat_eq
      simp only [BitVec.toNat_sub, BitVec.toNat_ofNat]
      omega
    rw [hbits, BitVec.toInt_ofNat']
  have hsum : (q.size + q.write_index - q.read_index).toInt =
      ((M + values.length + 1 : Nat) : Int).bmod (2 ^ 32) := by
    have hbits : q.size + q.write_index - q.read_index =
        BitVec.ofNat 32 (M + values.length + 1) := by
      rw [h.read, h.write, h.rounded]
      apply BitVec.eq_of_toNat_eq
      simp only [BitVec.toNat_sub, BitVec.toNat_add, BitVec.toNat_ofNat, hM]
      omega
    rw [hbits, BitVec.toInt_ofNat']
  unfold count
  rw [hdiff, hsum, h.read, h.write, hsign, hsign]
  by_cases hcross : 2 ^ 32 ≤ (p + 2 ^ 31) % 2 ^ 32 + values.length + 1
  · rw [if_pos hcross, if_neg (by omega)]
  · rw [if_neg hcross, if_pos (by omega)]

/-- **size()** is never the number of elements. -/
theorem count_ne (h : Stores size M q values p) (hM : (ceil_to_power_of_two size).toNat = M)
    (hle : M ≤ 2 ^ 31) : q.count ≠ values.length := by
  have hlen := h.length
  rw [h.count_eq hM hle, Int.bmod_def, Int.bmod_def]
  split <;> split <;> omega

/-- **empty()** asks whether that is positive. -/
theorem empty_iff (h : Stores size M q values p) (hM : (ceil_to_power_of_two size).toNat = M)
    (hle : M ≤ 2 ^ 31) :
    q.empty = values.isEmpty ↔ EmptyTells M values.length (p + values.length) := by
  have hlen := h.length
  have hback : p + values.length - values.length = p := Nat.add_sub_cancel p values.length
  have hempty : values.isEmpty = decide (values.length = 0) := by
    rcases values <;> rfl
  unfold empty EmptyTells
  rw [h.count_eq hM hle, hempty, hback, decide_eq_decide]
  obtain ⟨n, hn⟩ : ∃ n, n = values.length := ⟨_, rfl⟩
  rw [← hn] at hlen ⊢
  rw [Int.bmod_def, Int.bmod_def]
  by_cases hcross : 2 ^ 32 ≤ (p + 2 ^ 31) % 2 ^ 32 + n + 1
  · rw [if_pos hcross, if_pos hcross]
    split <;> split <;> omega
  · rw [if_neg hcross, if_neg hcross]
    split <;> omega

end Stores

/-! ## Section 4: Any sequence of calls -/

section

variable {size : BitVec 32} {M : Nat} {q : ArrQueue τ} {values : List τ} {p : Nat}

/-- `capacity()` is the rounded size, or `-2^31` for `2^31`. -/
theorem rounded_toInt (hM : (ceil_to_power_of_two size).toNat = M) :
    (ceil_to_power_of_two size).toInt = if M < 2 ^ 31 then (M : Int) else (M : Int) - 2 ^ 32 := by
  rw [BitVec.toInt_eq_toNat_cond, hM]
  split <;> split <;> omega

/-- A call that is answered well leaves the rest of the calls to be. -/
theorem runs_cons {c : Call τ} {calls : List (Call τ)} {q' : ArrQueue τ} {answer : Answer τ}
    {capacity : Int} (hrun : c.run q = some (q', answer)) :
    Call.runs q (c :: calls) = some (Call.serves capacity values (c :: calls)) ↔
      answer = (c.serve capacity values).2 ∧
        Call.runs q' calls = some (Call.serves capacity (c.serve capacity values).1 calls) := by
  have hruns : Call.runs q (c :: calls) = (c.run q).bind fun r =>
      (Call.runs r.1 calls).bind fun answers => some (r.2 :: answers) := rfl
  have hserves : Call.serves capacity values (c :: calls) = (c.serve capacity values).2 ::
      Call.serves capacity (c.serve capacity values).1 calls := rfl
  rw [hruns, hserves, hrun, Option.bind_some]
  rcases Call.runs q' calls with _ | answers
  · simp
  · simp

theorem runs_none {c : Call τ} {calls : List (Call τ)} {capacity : Int} (hrun : c.run q = none) :
    Call.runs q (c :: calls) ≠ some (Call.serves capacity values (c :: calls)) := by
  unfold Call.runs
  rw [hrun]
  nofun

/-- **Any sequence**, from any point between two calls. -/
theorem runs_iff (hM : (ceil_to_power_of_two size).toNat = M)
    (hpow : M = 0 ∨ ∃ m, m ≤ 31 ∧ M = 2 ^ m) (calls : List (Call τ))
    (h : Stores size M q values p) :
    Call.runs q calls = some (Call.serves (ceil_to_power_of_two size).toInt values calls) ↔
      Allowed size values.length (p + values.length) calls := by
  have hle : M ≤ 2 ^ 31 := by
    rcases hpow with rfl | ⟨m, hm, rfl⟩
    · omega
    · exact Nat.pow_le_pow_right (by omega) hm
  have hcap := rounded_toInt hM
  -- each call leaves the queue with what the serial queue has after it
  induction calls generalizing q values p with
  | nil => exact iff_of_true rfl trivial
  | cons c calls ih =>
    have hlen := h.length
    cases c with
    | push v =>
      unfold Allowed
      rw [hM]
      by_cases hroom : values.length < M
      · obtain ⟨m, hm, hpow⟩ : ∃ m, m ≤ 31 ∧ M = 2 ^ m := by
          rcases hpow with rfl | hpow
          · omega
          · exact hpow
        by_cases hplace : (p + values.length + 1) % M < size.toNat
        · obtain ⟨q', hpush, h'⟩ := h.push hm hM hpow v hroom hplace
          have hserve : (Call.push v).serve (ceil_to_power_of_two size).toInt values =
              (values ++ [v], .pushed true) := by
            refine if_neg ?_
            rw [hcap]
            split <;> omega
          have hrest := ih h'
          rw [List.length_append, List.length_singleton, ← Nat.add_assoc] at hrest
          have hrun : (Call.push v).run q = some (q', .pushed true) := by
            simp only [Call.run, hpush, Option.map_some]
          rw [runs_cons hrun, hserve]
          exact ⟨fun hall => ⟨hroom, hplace, hrest.mp hall.2⟩, fun hall => ⟨rfl, hrest.mpr hall.2.2⟩⟩
        · refine iff_of_false (runs_none ?_) fun hall => hplace hall.2.1
          simp only [Call.run, h.push_outside hm hM hpow v hplace, Option.map_none]
      · refine iff_of_false ?_ fun hall => hroom hall.1
        rcases hpow with rfl | ⟨m, hm, hpow⟩
        · -- a capacity of zero: the push of a queue that is full at once
          rcases hpush : q.push v with _ | r
          · exact runs_none (by simp only [Call.run, hpush, Option.map_none])
          · have htrue := h.push_true hle hpush
            have hserve : ((Call.push v).serve (ceil_to_power_of_two size).toInt values).2 =
                .pushed false := by
              have hfull : (values.length : Int) = (ceil_to_power_of_two size).toInt := by
                rw [hcap]
                split <;> omega
              show (if (values.length : Int) = _ then (values, Answer.pushed false) else _).2 = _
              rw [if_pos hfull]
            rw [runs_cons (by simp only [Call.run, hpush, Option.map_some]; rfl), hserve, htrue]
            rintro ⟨hbad, -⟩
            cases hbad
        · apply runs_none
          simp only [Call.run, h.push_full hm hM hpow v (by omega), Option.map_none]
    | pop =>
      unfold Allowed
      rcases values with _ | ⟨v, values⟩
      · rw [runs_cons (by simp only [Call.run, h.pop_empty hle, Option.map_some]; rfl)]
        simp only [Call.serve, true_and]
        exact ih h
      · obtain ⟨m, hm, hpow⟩ : ∃ m, m ≤ 31 ∧ M = 2 ^ m := by
          rcases hpow with rfl | hpow
          · cases hlen
          · exact hpow
        obtain ⟨q', hpop, h'⟩ := h.pop hm hM hpow
        have hrest := ih h'
        rw [Nat.add_right_comm] at hrest
        rw [runs_cons (by simp only [Call.run, hpop, Option.map_some]; rfl)]
        simp only [Call.serve, true_and]
        exact hrest
    | size =>
      unfold Allowed
      rw [runs_cons (show Call.run q .size = some (q, .size q.count) from rfl)]
      refine iff_of_false ?_ id
      rintro ⟨hsize, -⟩
      injection hsize with hsize
      exact h.count_ne hM hle hsize
    | empty =>
      unfold Allowed
      rw [runs_cons (show Call.run q .empty = some (q, .empty q.empty) from rfl), hM,
        ← h.empty_iff hM hle]
      refine and_congr ?_ (ih h)
      show Answer.empty q.empty = Answer.empty values.isEmpty ↔ _
      rw [Answer.empty.injEq]

end

/-- **freelock_arr_queue** with one thread, for every size and every sequence
    of calls. -/
theorem refines_iff {size : BitVec 32} (hsize : size ≠ 0) (calls : List (Call τ)) :
    Refines size calls ↔ Allowed size 0 0 calls :=
  runs_iff rfl (ceil_to_power_of_two_cases hsize) calls (construct_stores size _)

/-- Two of four places, around the end of the array and more. -/
theorem refines_four : Refines 4 [.push 1, .push 2, .pop, .push 3, .pop, .push 4, .pop,
    .push 5, .pop, .pop, .empty, .pop] := by
  rw [refines_iff (by decide)]
  simp only [Allowed, EmptyTells]
  decide

/-- `size()` of a new queue is one. `empty()` of a queue with an element is
    `true`. A push to a full queue waits. And the third push to a queue of
    three leaves the array, which has three nodes, and not four. -/
theorem not_refines :
    ¬ Refines 4 ([.size] : List (Call Nat)) ∧ ¬ Refines 4 [.push 1, .empty] ∧
      ¬ Refines 2 [.push 1, .push 2, .push 3] ∧ ¬ Refines 3 [.push 1, .push 2, .push 3] := by
  unfold Refines
  decide

end ArrQueue

end Pump
