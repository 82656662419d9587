import Mathlib.Tactic

/-! # Reading a buffer through a pointer

    A buffer that is read by position. A read outside the buffer gives
    `none`, and a comparison reads all the elements it is given. -/

namespace Pump

namespace Pointer

variable {α : Type*} {b : List α} {p : α → Bool} {pos beg stop count : Nat}

/-- `while (count-- && p(*pos)) ++pos`. -/
def scan (b : List α) (p : α → Bool) : Nat → Nat → Option Nat
  | 0, pos => some pos
  | count + 1, pos => b[pos]?.bind fun c => if p c then scan b p count (pos + 1) else some pos

/-- The elements from `beg` to `stop`, copied. -/
def slice (b : List α) (beg stop : Nat) : Option (List α) :=
  if beg ≤ stop ∧ stop ≤ b.length then some ((b.take stop).drop beg) else none

/-- `memcmp` with all elements of `word`. -/
def memcmp [DecidableEq α] (b : List α) (pos : Nat) (word : List α) : Option Bool :=
  if pos + word.length ≤ b.length then some (decide ((b.drop pos).take word.length = word))
  else none

/-- Where a scan of the elements that are there stops. -/
theorem scan_eq (h : pos + count ≤ b.length) :
    scan b p count pos = some (pos + (((b.drop pos).take count).takeWhile p).length) := by
  induction count generalizing pos with
  | zero => rfl
  | succ count ih =>
    have hlt : pos < b.length := by omega
    rw [scan, List.getElem?_eq_getElem hlt, List.drop_eq_getElem_cons hlt, List.take_succ_cons]
    show (if p b[pos] = true then _ else _) = _
    by_cases hp : p b[pos] = true
    · rw [if_pos hp, ih (by omega), List.takeWhile_cons_of_pos hp, List.length_cons]
      congr 1
      omega
    · rw [if_neg hp, List.takeWhile_cons_of_neg hp]
      rfl

theorem slice_eq (hle : beg ≤ stop) (h : stop ≤ b.length) :
    slice b beg stop = some ((b.take stop).drop beg) :=
  if_pos ⟨hle, h⟩

/-- `count` elements from a position on. -/
theorem slice_drop (h : pos + count ≤ b.length) :
    slice b pos (pos + count) = some ((b.drop pos).take count) := by
  rw [slice_eq (by omega) h, List.drop_take]
  congr 2
  omega

variable [DecidableEq α]

theorem memcmp_eq {word : List α} (h : pos + word.length ≤ b.length) :
    memcmp b pos word = some (word.isPrefixOf (b.drop pos)) := by
  rw [memcmp, if_pos h]
  congr 1
  rw [Bool.eq_iff_iff, decide_eq_true_eq, List.isPrefixOf_iff_prefix, List.prefix_iff_eq_take]
  exact eq_comm

end Pointer

end Pump
