import Pump.Digits

/-! # utils

    `ceil_to_power_of_two` and the string helpers of `utils.cpp`, and the C
    and C++ library functions the protocol code calls on strings. A
    `std::string` is a list of bytes. -/

namespace Pump

abbrev Bytes := List UInt8

instance : LawfulBEq Bytes := List.instLawfulBEq

instance : LawfulBEq (List Bytes) := List.instLawfulBEq

/-- A fact about bytes is one about bit vectors, where `decide` is fast. -/
theorem forall_byte {P : UInt8 → Prop} (h : ∀ b : BitVec 8, P ⟨b⟩) (c : UInt8) : P c :=
  h c.toBitVec

/-- The bytes of a string literal of the source. -/
def ascii (s : String) : Bytes := s.toList.map fun c => c.toNat.toUInt8

/-- `hex_to_dec`. -/
def hex_to_dec (hex : UInt8) : Nat :=
  if 48 ≤ hex ∧ hex ≤ 57 then hex.toNat - 48
  else if 97 ≤ hex ∧ hex ≤ 102 then hex.toNat - 97 + 10
  else if 65 ≤ hex ∧ hex ≤ 70 then hex.toNat - 65 + 10
  else 0

/-- `dec_to_hex`. -/
def dec_to_hex (dec : UInt8) : UInt8 :=
  if dec ≤ 9 then 48 + dec else if dec ≤ 15 then 65 + dec - 10 else 0

/-- `std::string::c_str()` as the C library sees it. -/
def c_str (s : Bytes) : Bytes := s.takeWhile (· ≠ 0)

theorem c_str_append {s : Bytes} (h : (0 : UInt8) ∉ s) (rest : Bytes) :
    c_str (s ++ rest) = s ++ c_str rest := by
  have hall : ∀ c ∈ s, decide (c ≠ 0) = true := by
    intro c hc
    have : c ≠ 0 := fun h0 => h (h0 ▸ hc)
    simpa using this
  exact List.takeWhile_append_of_pos hall

theorem c_str_eq {s : Bytes} (h : (0 : UInt8) ∉ s) : c_str s = s := by
  simpa [c_str] using c_str_append h []

/-- `snprintf(tmp, n, ..)` of the formatted text `s`: what is left in the
    zeroed buffer, and the value returned. -/
def snprintf (n : Nat) (s : Bytes) : Bytes × Nat := (s.take (n - 1), s.length)

/-- The text of an `int32_t` in the format `%d`. -/
def format_dec (n : Int) : Bytes := if n < 0 then 45 :: digits 10 n.natAbs else digits 10 n.toNat

/-- The digits `atol` reads. -/
def atol_digits (acc : Nat) : Bytes → Nat
  | [] => acc
  | c :: rest => if 48 ≤ c ∧ c ≤ 57 then atol_digits (acc * 10 + (c.toNat - 48)) rest else acc

/-- `tolower`. -/
def tolower (c : UInt8) : UInt8 := if 65 ≤ c ∧ c ≤ 90 then c + 32 else c

/-- `isspace` in the C locale. -/
def isspace (c : UInt8) : Bool := c = 32 || (9 ≤ c && c ≤ 13)

/-- `atol`, which clamps to a 64-bit `long`. -/
def atol (s : Bytes) : Int :=
  match s.dropWhile isspace with
  | 45 :: rest => max (-(atol_digits 0 rest : Int)) (-2 ^ 63)
  | 43 :: rest => min (atol_digits 0 rest : Int) (2 ^ 63 - 1)
  | rest => min (atol_digits 0 rest : Int) (2 ^ 63 - 1)

/-- The digits that `atol` reads. -/
def IsNumeral (s : Bytes) : Prop := s ≠ [] ∧ ∀ c ∈ s, 48 ≤ c ∧ c ≤ 57

/-- The number that a numeral stands for. -/
def numeral_value (s : Bytes) : Nat := s.foldl (fun acc c => acc * 10 + (c.toNat - 48)) 0

theorem atol_digits_eq {s : Bytes} (h : ∀ c ∈ s, 48 ≤ c ∧ c ≤ 57) (acc : Nat) :
    atol_digits acc s = s.foldl (fun acc c => acc * 10 + (c.toNat - 48)) acc := by
  induction s generalizing acc with
  | nil => rfl
  | cons c s ih =>
    unfold atol_digits
    rw [if_pos (h c List.mem_cons_self), ih fun d hd => h d (List.mem_cons_of_mem c hd)]
    rfl

/-- `atol` on a numeral is its value, up to the largest `long`. -/
theorem atol_numeral {s : Bytes} (h : IsNumeral s) :
    atol s = min (numeral_value s : Int) (2 ^ 63 - 1) := by
  obtain ⟨hne, hdigits⟩ := h
  obtain ⟨c, rest, rfl⟩ := List.exists_cons_of_ne_nil hne
  obtain ⟨hlo, hhi⟩ := hdigits c List.mem_cons_self
  rw [UInt8.le_iff_toNat_le] at hlo hhi
  have h48 : (48 : UInt8).toNat = 48 := rfl
  have h57 : (57 : UInt8).toNat = 57 := rfl
  -- a digit is neither a space nor a sign
  have hspace : isspace c = false := by
    have h32 : c ≠ 32 := by
      rintro rfl
      simp at hlo
    have h13 : ¬ c ≤ 13 := by
      rw [UInt8.le_iff_toNat_le]
      have : (13 : UInt8).toNat = 13 := rfl
      omega
    simp [isspace, h32, h13]
  have h45 : c ≠ 45 := by
    rintro rfl
    simp at hlo
  have h43 : c ≠ 43 := by
    rintro rfl
    simp at hlo
  have hvalue := atol_digits_eq hdigits 0
  unfold atol
  rw [List.dropWhile_cons_of_neg (by simp [hspace])]
  split
  · next heq =>
    injection heq with hc
    exact absurd hc h45
  · next heq =>
    injection heq with hc
    exact absurd hc h43
  · rw [hvalue]
    rfl

theorem digit_decimal {d : Nat} (hd : d < 10) :
    48 ≤ digit d ∧ digit d ≤ 57 ∧ (digit d).toNat - 48 = d := by
  revert d
  decide

theorem isNumeral_digits (n : Nat) : IsNumeral (digits 10 n) := by
  refine ⟨digits_ne_nil 10 n, ?_⟩
  intro c hc
  obtain ⟨d, hd, rfl⟩ := mem_digits (by omega) hc
  exact ⟨(digit_decimal hd).1, (digit_decimal hd).2.1⟩

theorem numeral_value_digits (n : Nat) : numeral_value (digits 10 n) = n :=
  foldl_digits (by omega) (fun _ hd => (digit_decimal hd).2.2) n

/-! ## Section 1: Joining and splitting -/

/-- What is before the first `c`. -/
theorem takeWhile_ne_append {c : UInt8} {a b : Bytes} (ha : c ∉ a)
    (hb : b = [] ∨ ∃ rest, b = c :: rest) : (a ++ b).takeWhile (· ≠ c) = a := by
  rw [List.takeWhile_append_of_pos]
  · rcases hb with rfl | ⟨rest, rfl⟩
    · exact List.append_nil a
    · rw [List.takeWhile_cons_of_neg (by simp), List.append_nil]
  · intro d hd
    rw [decide_eq_true_eq]
    exact fun heq => ha (heq ▸ hd)

/-- A scan that stops at `c`. -/
theorem scan_stops {p : UInt8 → Bool} {a : Bytes} {c : UInt8} (rest : Bytes)
    (ha : ∀ d ∈ a, p d = true) (hc : p c = false) :
    (a ++ c :: rest).takeWhile p = a ∧ (a ++ c :: rest).dropWhile p = c :: rest := by
  have hneg : ¬ p c = true := by simp [hc]
  constructor
  · rw [List.takeWhile_append_of_pos ha, List.takeWhile_cons_of_neg hneg, List.append_nil]
  · rw [List.dropWhile_append_of_pos ha, List.dropWhile_cons_of_neg hneg]

/-- Where a scan has stopped. -/
theorem cut_at {p : UInt8 → Bool} {s : Bytes} (h : s.dropWhile p ≠ []) :
    ∃ a c rest, s = a ++ c :: rest ∧ s.takeWhile p = a ∧ s.dropWhile p = c :: rest ∧
      (∀ d ∈ a, p d = true) ∧ p c = false := by
  obtain ⟨c, rest, hcut⟩ := List.exists_cons_of_ne_nil h
  refine ⟨s.takeWhile p, c, rest, ?_, rfl, hcut, ?_, ?_⟩
  · rw [← hcut, List.takeWhile_append_dropWhile]
  · exact fun d hd => List.all_eq_true.mp List.all_takeWhile d hd
  · have hhead := List.head_dropWhile_not p h
    simpa [hcut] using hhead

/-- `join_strings`. -/
def join_strings : List Bytes → Bytes → Bytes
  | [], _ => []
  | [out], _ => out
  | out :: src, sep => out ++ sep ++ join_strings src sep

/-- The separator classes the source passes to `split_string`: `[,;] *`,
    `[=&]`. -/
structure Separator where
  is_sep : UInt8 → Bool
  skip_spaces : Bool

def head_sep : Separator := ⟨fun c => c = 44 || c = 59, true⟩

def param_sep : Separator := ⟨fun c => c = 61 || c = 38, false⟩

/-- The token iterator past the start of `src`: `cur` is the current token,
    `skipping` whether the match of the separator still takes spaces. The
    last token is dropped when it is empty. -/
def split_loop (sep : Separator) (skipping : Bool) (cur : Bytes) : Bytes → List Bytes
  | [] => if cur = [] then [] else [cur]
  | c :: rest =>
    if skipping && c = 32 then split_loop sep true cur rest
    else if sep.is_sep c then cur :: split_loop sep sep.skip_spaces [] rest
    else split_loop sep false (cur ++ [c]) rest

/-- `split_string`: the tokens that `std::sregex_token_iterator` with the
    submatch `-1` gives. Without a match there is one token, the source. -/
def split_string (src : Bytes) (sep : Separator) : List Bytes :=
  if src = [] then [[]] else split_loop sep false [] src

theorem split_loop_no_sep {sep : Separator} {cur src : Bytes}
    (h : ∀ c ∈ src, sep.is_sep c = false) (hne : cur ++ src ≠ []) :
    split_loop sep false cur src = [cur ++ src] := by
  induction src generalizing cur with
  | nil =>
    rw [List.append_nil] at hne ⊢
    simp [split_loop, hne]
  | cons c rest ih =>
    have hc : sep.is_sep c = false := h c (List.mem_cons_self)
    have hrest : ∀ d ∈ rest, sep.is_sep d = false := fun d hd => h d (List.mem_cons_of_mem c hd)
    have : split_loop sep false (cur ++ [c]) rest = [cur ++ [c] ++ rest] := ih hrest (by simp)
    simpa [split_loop, hc] using this

/-- What holds of the bytes that are no separators holds of the bytes of every
    token. -/
theorem split_loop_forall {sep : Separator} {P : UInt8 → Prop} {skipping : Bool} {cur src : Bytes}
    (hcur : ∀ c ∈ cur, P c) (hsrc : ∀ c ∈ src, sep.is_sep c = false → P c) :
    ∀ v ∈ split_loop sep skipping cur src, ∀ c ∈ v, P c := by
  induction src generalizing skipping cur with
  | nil =>
    intro v hv
    unfold split_loop at hv
    split at hv
    · cases hv
    · rw [List.mem_singleton] at hv
      exact hv ▸ hcur
  | cons c src ih =>
    intro v hv
    have hrest : ∀ d ∈ src, sep.is_sep d = false → P d :=
      fun d hd => hsrc d (List.mem_cons_of_mem c hd)
    unfold split_loop at hv
    split at hv
    · exact ih hcur hrest v hv
    · split at hv
      · rcases List.mem_cons.mp hv with rfl | hv
        · exact hcur
        · exact ih (List.forall_mem_nil _) hrest v hv
      · next hsep =>
        apply ih _ hrest v hv
        intro d hd
        rcases List.mem_append.mp hd with hd | hd
        · exact hcur d hd
        · rw [List.mem_singleton.mp hd]
          exact hsrc c List.mem_cons_self (Bool.eq_false_iff.mpr hsep)

theorem split_string_forall {sep : Separator} {P : UInt8 → Prop} {src : Bytes}
    (hsrc : ∀ c ∈ src, sep.is_sep c = false → P c) :
    ∀ v ∈ split_string src sep, ∀ c ∈ v, P c := by
  intro v hv
  unfold split_string at hv
  split at hv
  · rw [List.mem_singleton] at hv
    exact hv ▸ List.forall_mem_nil _
  · exact split_loop_forall (List.forall_mem_nil _) hsrc v hv

theorem split_loop_ne_nil {sep : Separator} {skipping : Bool} {cur src : Bytes}
    (h : cur ≠ [] ∨ ∃ c ∈ src, c ≠ 32 ∨ skipping = false) :
    split_loop sep skipping cur src ≠ [] := by
  induction src generalizing cur skipping with
  | nil =>
    rcases h with h | ⟨c, hc, -⟩
    · simp [split_loop, h]
    · cases hc
  | cons c rest ih =>
    unfold split_loop
    split
    · next hskip =>
      obtain ⟨rfl, rfl⟩ : skipping = true ∧ c = 32 := by simpa using hskip
      apply ih
      rcases h with h | ⟨d, hd, hd'⟩
      · exact Or.inl h
      · rcases List.mem_cons.mp hd with rfl | hd
        · simp at hd'
        · exact Or.inr ⟨d, hd, hd'⟩
    · split
      · exact List.cons_ne_nil _ _
      · exact ih (Or.inl (by simp))

/-- `split_string` gives at least one token. -/
theorem split_string_ne_nil (src : Bytes) (sep : Separator) : split_string src sep ≠ [] := by
  unfold split_string
  split
  · exact List.cons_ne_nil _ _
  · next h =>
    obtain ⟨c, rest, rfl⟩ := List.exists_cons_of_ne_nil h
    exact split_loop_ne_nil (Or.inr ⟨c, List.mem_cons_self, Or.inr rfl⟩)

/-! ## Powers of two -/

/-- `ceil_to_power_of_two`. -/
def ceil_to_power_of_two (val : BitVec 32) : BitVec 32 :=
  let val := val - 1
  let val := val ||| val.sshiftRight 1
  let val := val ||| val.sshiftRight 2
  let val := val ||| val.sshiftRight 4
  -- the loop, for `i = 1` and `i = 2`
  let val := val ||| val.sshiftRight (1 <<< 3)
  let val := val ||| val.sshiftRight (2 <<< 3)
  val + 1

/-- Bit `i` of `y` is set if one of the `n` bits of `x` from there on is. -/
def Smeared (n x y : Nat) : Prop := ∀ i, y.testBit i = true ↔ ∃ j < n, x.testBit (i + j) = true

theorem smeared_one (x : Nat) : Smeared 1 x x := by
  intro i
  constructor
  · intro h
    exact ⟨0, Nat.one_pos, h⟩
  · rintro ⟨j, hj, h⟩
    obtain rfl : j = 0 := by omega
    exact h

theorem Smeared.double {n x y : Nat} (h : Smeared n x y) : Smeared (n + n) x (y ||| y >>> n) := by
  intro i
  rw [Nat.testBit_or, Nat.testBit_shiftRight, Bool.or_eq_true, h i, h (n + i)]
  constructor
  · rintro (⟨j, hj, hx⟩ | ⟨j, hj, hx⟩)
    · exact ⟨j, by omega, hx⟩
    · refine ⟨n + j, by omega, ?_⟩
      rwa [show i + (n + j) = n + i + j by omega]
  · rintro ⟨j, hj, hx⟩
    by_cases hjn : j < n
    · exact Or.inl ⟨j, hjn, hx⟩
    · refine Or.inr ⟨j - n, by omega, ?_⟩
      rwa [show n + i + (j - n) = i + j by omega]

/-- All bits below the highest one are set. -/
theorem Smeared.eq {n x y : Nat} (h : Smeared n x y) (hx : x ≠ 0) (hn : x < 2 ^ n) :
    y = 2 ^ (x.log2 + 1) - 1 := by
  apply Nat.eq_of_testBit_eq
  intro i
  rw [Nat.testBit_two_pow_sub_one, Bool.eq_iff_iff, decide_eq_true_eq, h i]
  have hlog : x.log2 < n := (Nat.log2_lt hx).mpr hn
  constructor
  · rintro ⟨j, -, hbit⟩
    have hle : 2 ^ (i + j) ≤ x := Nat.ge_two_pow_of_testBit hbit
    have := (Nat.le_log2 hx).mpr hle
    omega
  · intro hi
    refine ⟨x.log2 - i, by omega, ?_⟩
    rw [show i + (x.log2 - i) = x.log2 by omega]
    exact Nat.testBit_log2 hx

/-- A step on a number that is not negative. -/
theorem Smeared.step {x n : Nat} {val : BitVec 32} (h : Smeared n x val.toNat)
    (hval : val.toNat < 2 ^ 31) :
    Smeared (n + n) x (val ||| val.sshiftRight n).toNat ∧
      (val ||| val.sshiftRight n).toNat < 2 ^ 31 := by
  have hmsb : val.msb = false := by
    rw [BitVec.msb_eq_false_iff_two_mul_lt]
    omega
  have heq : (val ||| val.sshiftRight n).toNat = val.toNat ||| val.toNat >>> n := by
    rw [BitVec.toNat_or, BitVec.sshiftRight_eq_of_msb_false hmsb, BitVec.toNat_ushiftRight]
  rw [heq]
  refine ⟨h.double, Nat.or_lt_two_pow hval ?_⟩
  exact Nat.lt_of_le_of_lt (Nat.shiftRight_le _ _) hval

/-- What lies above the lower end is not negative. -/
theorem toNat_of_le_toInt {val : BitVec 32} {k : Nat} (h : (k : Int) ≤ val.toInt) :
    k ≤ val.toNat ∧ val.toNat < 2 ^ 31 ∧ val.toInt = val.toNat := by
  have hlt : val.toNat < 2 ^ 31 := by
    rw [BitVec.toInt_eq_toNat_cond] at h
    split at h
    · omega
    · have := val.isLt
      omega
  have hint : val.toInt = val.toNat := by
    rw [BitVec.toInt_eq_toNat_cond, if_pos (by omega)]
  exact ⟨by omega, hlt, hint⟩

/-- The exponent is one above the highest bit of `val - 1`. -/
theorem ceil_to_power_of_two_log2 {val : BitVec 32} (h : 2 ≤ val.toInt) :
    (ceil_to_power_of_two val).toNat = 2 ^ ((val.toNat - 1).log2 + 1) := by
  obtain ⟨hval2, hval, -⟩ := toNat_of_le_toInt (k := 2) h
  obtain ⟨x, hx⟩ : ∃ x, x = val - 1 := ⟨_, rfl⟩
  have hxval : x.toNat = val.toNat - 1 := by
    rw [hx]
    bv_omega
  rw [← hxval]
  have h1 := (smeared_one x.toNat).step (by omega)
  have h2 := h1.1.step h1.2
  have h4 := h2.1.step h2.2
  have h8 := h4.1.step h4.2
  have h16 := h8.1.step h8.2
  have hlog : x.toNat.log2 < 31 := (Nat.log2_lt (by omega)).mpr (by omega)
  have heq := h16.1.eq (by omega) (by omega)
  have hpow : 2 ^ (x.toNat.log2 + 1) ≤ 2 ^ 31 := Nat.pow_le_pow_right (by omega) (by omega)
  have hpos := Nat.two_pow_pos (x.toNat.log2 + 1)
  have hceil : (ceil_to_power_of_two val).toNat = (2 ^ (x.toNat.log2 + 1) - 1 + 1) % 2 ^ 32 := by
    rw [← heq, hx]
    exact BitVec.toNat_add _ 1
  omega

/-- The power of two, as an unsigned number. -/
theorem ceil_to_power_of_two_eq {val : BitVec 32} (h : 2 ≤ val.toInt) :
    ∃ m, 1 ≤ m ∧ m ≤ 31 ∧ (ceil_to_power_of_two val).toNat = 2 ^ m := by
  obtain ⟨hval2, hval, -⟩ := toNat_of_le_toInt (k := 2) h
  have hlog : (val.toNat - 1).log2 < 31 := (Nat.log2_lt (by omega)).mpr (by omega)
  exact ⟨_, by omega, by omega, ceil_to_power_of_two_log2 h⟩

/-- A power of two that is at least `n` is at least the next one above the
    highest bit of `n - 1`. -/
theorem two_pow_log2_le {n m : Nat} (hn : 2 ≤ n) (h : n ≤ 2 ^ m) :
    2 ^ ((n - 1).log2 + 1) ≤ 2 ^ m := by
  apply Nat.pow_le_pow_right (by omega)
  have hlt : (n - 1).log2 < m := (Nat.log2_lt (by omega)).mpr (by omega)
  omega

/-- Up to `2 ^ 30` the result is the least power of two that is not below the
    argument, also as a signed number. -/
theorem ceil_to_power_of_two_least (val : BitVec 32) (hlo : 1 ≤ val.toInt)
    (hhi : val.toInt ≤ 2 ^ 30) :
    IsLeast {p : Int | (∃ m : Nat, p = 2 ^ m) ∧ val.toInt ≤ p}
      (ceil_to_power_of_two val).toInt := by
  obtain ⟨hpos, hlt, hint⟩ := toNat_of_le_toInt (k := 1) hlo
  rw [hint] at hhi ⊢
  by_cases hone : val.toNat = 1
  · -- `1` comes out as it went in
    obtain rfl : val = 1 := BitVec.eq_of_toNat_eq hone
    refine ⟨⟨⟨0, by decide⟩, by decide⟩, ?_⟩
    rintro p ⟨-, hp⟩
    exact hp
  have heq := ceil_to_power_of_two_log2 (show 2 ≤ val.toInt by omega)
  -- the highest bit of `val - 1` is below bit 30, so the sign bit stays clear
  have hlog : (val.toNat - 1).log2 < 30 := (Nat.log2_lt (by omega)).mpr (by omega)
  have htop : 2 ^ ((val.toNat - 1).log2 + 1) ≤ 2 ^ 30 :=
    Nat.pow_le_pow_right (by omega) (by omega)
  have hceil : (ceil_to_power_of_two val).toInt = 2 ^ ((val.toNat - 1).log2 + 1) := by
    rw [BitVec.toInt_eq_toNat_cond, if_pos (by omega), heq]
    norm_cast
  rw [hceil]
  constructor
  · refine ⟨⟨_, rfl⟩, ?_⟩
    have habove : val.toNat - 1 < 2 ^ ((val.toNat - 1).log2 + 1) := Nat.lt_log2_self
    have hle : val.toNat ≤ 2 ^ ((val.toNat - 1).log2 + 1) := by omega
    exact_mod_cast hle
  · rintro p ⟨⟨m, rfl⟩, hp⟩
    have hle := two_pow_log2_le (n := val.toNat) (m := m) (by omega) (by exact_mod_cast hp)
    exact_mod_cast hle

theorem ceil_to_power_of_two_least_five :
    IsLeast {p : Int | (∃ m : Nat, p = 2 ^ m) ∧ 5 ≤ p} (ceil_to_power_of_two 5).toInt :=
  ceil_to_power_of_two_least 5 (by decide) (by decide)

/-- The `j` highest bits are set. -/
def TopOnes (j : Nat) (val : BitVec 32) : Prop :=
  ∀ i, i < 32 → 32 - j ≤ i → val.getLsbD i = true

theorem TopOnes.step {j : Nat} {val : BitVec 32} (h : TopOnes j val) (hj : 0 < j) :
    TopOnes (j + j) (val ||| val.sshiftRight j) := by
  intro i hi hlow
  have hmsb : val.msb = true := by
    rw [BitVec.msb_eq_getLsbD_last]
    exact h 31 (by omega) (by omega)
  rw [BitVec.getLsbD_or, BitVec.getLsbD_sshiftRight, Bool.or_eq_true]
  right
  by_cases hin : j + i < 32
  · rw [if_pos hin, h (j + i) hin (by omega)]
    simpa using hi
  · rw [if_neg hin, hmsb]
    simpa using hi

/-- A number with the sign bit set becomes all ones, and then zero. -/
theorem ceil_to_power_of_two_neg {val : BitVec 32} (h : 2 ^ 31 < val.toNat) :
    ceil_to_power_of_two val = 0 := by
  obtain ⟨x, hx⟩ : ∃ x, x = val - 1 := ⟨_, rfl⟩
  have hmsb : x.msb = true := by
    rw [BitVec.msb_eq_true_iff_two_mul_ge, hx]
    have := val.isLt
    bv_omega
  have h1 : TopOnes 1 x := by
    intro i hi hlow
    obtain rfl : i = 31 := by omega
    rw [← hmsb, BitVec.msb_eq_getLsbD_last]
  have h32 := (((h1.step (by omega)).step (by omega)).step (by omega)).step (by omega)
  have h32 := h32.step (by omega)
  unfold ceil_to_power_of_two
  rw [← hx]
  have hones : ∀ y : BitVec 32, TopOnes 32 y → y + 1 = 0 := by
    intro y hy
    have hall : y = BitVec.allOnes 32 := by
      apply BitVec.eq_of_getLsbD_eq
      intro i hi
      rw [hy i hi (by omega), BitVec.getLsbD_allOnes]
      simpa using hi
    rw [hall]
    decide
  exact hones _ h32

/-- A power of two, as an unsigned number, or zero for what is too large. -/
theorem ceil_to_power_of_two_cases {val : BitVec 32} (h : val ≠ 0) :
    (ceil_to_power_of_two val).toNat = 0 ∨
      ∃ m, m ≤ 31 ∧ (ceil_to_power_of_two val).toNat = 2 ^ m := by
  have hpos : 0 < val.toNat := by
    rcases Nat.eq_zero_or_pos val.toNat with h0 | h0
    · exact absurd (BitVec.eq_of_toNat_eq h0) h
    · exact h0
  by_cases hneg : 2 ^ 31 < val.toNat
  · left
    rw [ceil_to_power_of_two_neg hneg]
    rfl
  right
  by_cases htop : val.toNat = 2 ^ 31
  · have heq : val = BitVec.ofNat 32 (2 ^ 31) := BitVec.eq_of_toNat_eq htop
    refine ⟨31, le_refl 31, ?_⟩
    rw [heq]
    decide
  by_cases hone : val.toNat = 1
  · have heq : val = 1 := BitVec.eq_of_toNat_eq hone
    refine ⟨0, by omega, ?_⟩
    rw [heq]
    decide
  · have hint : 2 ≤ val.toInt := by
      rw [BitVec.toInt_eq_toNat_cond, if_pos (by omega)]
      omega
    obtain ⟨m, -, hm, heq⟩ := ceil_to_power_of_two_eq hint
    exact ⟨m, hm, heq⟩

end Pump
