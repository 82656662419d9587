import Mathlib.Tactic

/-! # Numerals

    The digits of a number as bytes, most significant first, and reading them
    back with a fold. -/

namespace Pump

/-- The numeral of `n` in base `b`. -/
def digits (b n : Nat) : List UInt8 := (Nat.toDigits b n).map fun c => c.toNat.toUInt8

/-- The byte of a digit. -/
def digit (d : Nat) : UInt8 := (Nat.digitChar d).toNat.toUInt8

/-- The last digit is split off; a single digit is its own numeral. -/
theorem digits_eq_if {b : Nat} (hb : 1 < b) (n : Nat) :
    digits b n = if n < b then [digit n] else digits b (n / b) ++ [digit (n % b)] := by
  unfold digits digit
  rw [Nat.toDigits_eq_if hb]
  split
  · rfl
  · rw [List.map_append]
    rfl

theorem digits_ne_nil (b n : Nat) : digits b n ≠ [] := by
  intro h
  exact Nat.toDigits_ne_nil (List.map_eq_nil_iff.mp h)

theorem mem_digits {b n : Nat} (hb : 1 < b) {c : UInt8} (hc : c ∈ digits b n) :
    ∃ d < b, c = digit d := by
  induction n using Nat.strong_induction_on with
  | _ n ih =>
    rw [digits_eq_if hb] at hc
    split at hc
    · next hn => exact ⟨n, hn, List.mem_singleton.mp hc⟩
    · next hn =>
      rcases List.mem_append.mp hc with hc | hc
      · exact ih (n / b) (Nat.div_lt_self (by omega) hb) hc
      · exact ⟨n % b, Nat.mod_lt n (by omega), List.mem_singleton.mp hc⟩

/-- Reading a numeral with the values of its digits gives the number back. -/
theorem foldl_digits {b : Nat} (hb : 1 < b) {value : UInt8 → Nat}
    (hvalue : ∀ d < b, value (digit d) = d) (n : Nat) :
    (digits b n).foldl (fun acc c => acc * b + value c) 0 = n := by
  induction n using Nat.strong_induction_on with
  | _ n ih =>
    rw [digits_eq_if hb]
    split
    · next hn =>
      show 0 * b + value (digit n) = n
      rw [hvalue n hn, Nat.zero_mul, Nat.zero_add]
    · next hn =>
      rw [List.foldl_append, ih (n / b) (Nat.div_lt_self (by omega) hb)]
      show n / b * b + value (digit (n % b)) = n
      rw [hvalue _ (Nat.mod_lt n (by omega))]
      exact Nat.div_add_mod' n b

theorem digits_length_le {b n k : Nat} (hb : 1 < b) (hk : 0 < k) (hn : n < b ^ k) :
    (digits b n).length ≤ k := by
  unfold digits
  rw [List.length_map]
  exact (Nat.length_toDigits_le_iff hb hk).mpr hn

/-- Reading on does not make a number smaller, and one digit more makes it at
    least `b` times as large. -/
theorem le_foldl_digits {b : Nat} (hb : 1 < b) (value : UInt8 → Nat) (l : List UInt8) (n : Nat) :
    n ≤ l.foldl (fun acc c => acc * b + value c) n := by
  induction l generalizing n with
  | nil => exact le_refl n
  | cons c l ih =>
    have hstep : n ≤ n * b + value c := by nlinarith
    exact le_trans hstep (ih _)

theorem mul_le_foldl_digits {b : Nat} (hb : 1 < b) (value : UInt8 → Nat) {l : List UInt8}
    (hl : l ≠ []) (n : Nat) : n * b ≤ l.foldl (fun acc c => acc * b + value c) n := by
  rcases l with _ | ⟨c, l⟩
  · exact absurd rfl hl
  · have hstep : n * b ≤ n * b + value c := Nat.le_add_right _ _
    exact le_trans hstep (le_foldl_digits hb value l _)

/-- A numeral in front of another one is that of a number `b` times smaller. -/
theorem digits_prefix_le {b m n : Nat} (hb : 1 < b) {value : UInt8 → Nat}
    (hvalue : ∀ d < b, value (digit d) = d) (h : digits b m <+: digits b n) :
    m = n ∨ m * b ≤ n := by
  obtain ⟨l, hl⟩ := h
  have hfold := foldl_digits hb hvalue n
  rw [← hl, List.foldl_append, foldl_digits hb hvalue m] at hfold
  by_cases hnil : l = []
  · rw [hnil] at hfold
    exact .inl hfold
  · have := mul_le_foldl_digits hb value hnil m
    exact .inr (by omega)

theorem lt_digits_length {b n k : Nat} (hb : 1 < b) (hk : 0 < k) (hn : b ^ k ≤ n) :
    k < (digits b n).length := by
  by_contra hle
  rw [digits, List.length_map, not_lt, Nat.length_toDigits_le_iff hb hk] at hle
  omega

end Pump
