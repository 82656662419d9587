import Mathlib.Data.List.DropRight
import Mathlib.Data.List.TakeWhile
import Pump.Codec
import Pump.Cursor

/-! # base64

    `codec/base64.cpp` with the strings that it allocates before it fills
    them: their lengths are computed from the length of the input, and what
    is written into them by a loop over its bytes. A read outside the input
    and a store outside the output give `none`. -/

namespace Pump

/-! ## Section 1: Model -/

/-- `encoded_length`, in `uint32_t`. -/
def encoded_length (length : Nat) : Nat :=
  let m := (length + 2) % 2 ^ 32
  (m - m % 3) / 3 * 4 % 2 ^ 32

/-- `base64_encode_length`. -/
def base64_encode_length (s : Bytes) : Nat := encoded_length (s.length % 2 ^ 32)

/-- The loop of `base64_encode`. `a3` holds the bytes of a group that is not
    complete; `out` and `enc_len` are the cursor. -/
def base64_encode_loop : Bytes → Cursor UInt8 → Bytes → Option (Bytes × Cursor UInt8)
  | a3, out, [] => some (a3, out)
  | a3, out, x :: input =>
    match a3 ++ [x] with
    | [a, b, c] =>
      (out.puts (base64_chars (a3_to_a4 a b c))).bind fun out => base64_encode_loop [] out input
    | a3 => base64_encode_loop a3 out input

/-- `base64_encode`: its output string, and how far it was written. -/
def base64_encode_out (s : Bytes) : Option (Cursor UInt8) := do
  let r ← base64_encode_loop [] ⟨List.replicate (base64_encode_length s) 0, 0⟩ s
  match r.1 with
  | [] => some r.2
  | a3 =>
    let a4 := a3_to_a4 (a3.getD 0 0) (a3.getD 1 0) (a3.getD 2 0)
    r.2.puts (base64_chars (a4.take (a3.length + 1)) ++ List.replicate (3 - a3.length) 61)

/-- `b64_lookup`. -/
def b64_lookup (c : UInt8) : UInt8 :=
  if 65 ≤ c ∧ c ≤ 90 then c - 65
  else if 97 ≤ c ∧ c ≤ 122 then c - 71
  else if 48 ≤ c ∧ c ≤ 57 then c + 4
  else if c = 43 then 62
  else if c = 47 then 63
  else 255

/-- `a4_to_a3`. -/
def a4_to_a3 (a b c d : UInt8) : List UInt8 :=
  [(a <<< 2) + ((b &&& 0x30) >>> 4), ((b &&& 0xf) <<< 4) + ((c &&& 0x3c) >>> 2),
    ((c &&& 0x3) <<< 6) + d]

/-- The loop of `decoded_length`, which goes backwards from `pos` and does not
    look for the front. -/
def trailing_eq (s : Bytes) : Nat → Option Nat
  | 0 => none
  | pos + 1 => do
    let c ← s[pos]?
    if c = 61 then (trailing_eq s pos).map (· + 1) else some 0

/-- `decoded_length`, in `uint32_t`. -/
def decoded_length (s : Bytes) : Option Nat :=
  (trailing_eq s s.length).map fun eq_cnt =>
    (6 * (s.length % 2 ^ 32) % 2 ^ 32 / 8 + 2 ^ 32 - eq_cnt % 2 ^ 32) % 2 ^ 32

/-- The loop of `base64_decode`, with the count of bytes left and the place of
    the next one. -/
def base64_decode_loop (s : Bytes) :
    Nat → Nat → Bytes → Cursor UInt8 → Option (Bytes × Cursor UInt8)
  | 0, _, a4, out => some (a4, out)
  | input_len + 1, pos, a4, out => do
    let x ← s[pos]?
    if x = 61 then some (a4, out)
    else
      match a4 ++ [x] with
      | [a, b, c, d] =>
        let a3 := a4_to_a3 (b64_lookup a) (b64_lookup b) (b64_lookup c) (b64_lookup d)
        (out.puts a3).bind fun out => base64_decode_loop s input_len (pos + 1) [] out
      | a4 => base64_decode_loop s input_len (pos + 1) a4 out

/-- `base64_decode`: its output string, and how far it was written. -/
def base64_decode (s : Bytes) : Option (Cursor UInt8) := do
  let length ← decoded_length s
  let r ← base64_decode_loop s (s.length % 2 ^ 32) 0 [] ⟨List.replicate length 0, 0⟩
  match r.1 with
  | [] => some r.2
  | a4 =>
    let a3 := a4_to_a3 (b64_lookup (a4.getD 0 0)) (b64_lookup (a4.getD 1 0))
      (b64_lookup (a4.getD 2 0)) (b64_lookup (a4.getD 3 0))
    r.2.puts (a3.take (a4.length - 1))

/-! ## Section 2: What the loops write -/

/-- The characters of the groups of three bytes, and the bytes left. -/
def encode_groups : Bytes → Bytes × Bytes
  | a :: b :: c :: rest =>
    (base64_chars (a3_to_a4 a b c) ++ (encode_groups rest).1, (encode_groups rest).2)
  | a3 => ([], a3)

theorem encode_groups_short {a3 : Bytes} (h : a3.length < 3) : encode_groups a3 = ([], a3) := by
  match a3 with
  | [] => rfl
  | [_] => rfl
  | [_, _] => rfl
  | _ :: _ :: _ :: _ =>
    simp only [List.length_cons] at h
    omega

/-- By induction on the input, with the bytes of the incomplete group in front
    of it. -/
theorem base64_encode_loop_eq (a3 : Bytes) (out : Cursor UInt8) (input : Bytes)
    (h : a3.length < 3) :
    base64_encode_loop a3 out input = (out.puts (encode_groups (a3 ++ input)).1).map fun out =>
      ((encode_groups (a3 ++ input)).2, out) := by
  induction input generalizing a3 out with
  | nil =>
    rw [List.append_nil, encode_groups_short h]
    rfl
  | cons x input ih =>
    rcases a3 with _ | ⟨a, _ | ⟨b, _ | ⟨c, a3⟩⟩⟩
    · exact ih [x] out (by simp)
    · exact ih [a, x] out (by simp)
    · -- the group is complete
      show (out.puts _).bind _ = (out.puts (base64_chars (a3_to_a4 a b x) ++ _)).map _
      rw [Cursor.puts_append]
      rcases out.puts (base64_chars (a3_to_a4 a b x)) with _ | out₁
      · rfl
      · exact ih [] out₁ (by decide)
    · simp only [List.length_cons] at h
      omega

/-- What `base64_encode` writes behind the groups. -/
def encode_tail (a3 : Bytes) : Bytes :=
  match a3 with
  | [] => []
  | a3 =>
    let a4 := a3_to_a4 (a3.getD 0 0) (a3.getD 1 0) (a3.getD 2 0)
    base64_chars (a4.take (a3.length + 1)) ++ List.replicate (3 - a3.length) 61

theorem base64_encode_eq (s : Bytes) :
    base64_encode s = (encode_groups s).1 ++ encode_tail (encode_groups s).2 := by
  induction s using base64_encode.induct with
  | case1 a b c rest ih =>
    show base64_chars (a3_to_a4 a b c) ++ base64_encode rest = _
    rw [ih, ← List.append_assoc]
    rfl
  | case2 a b => rfl
  | case3 a => rfl
  | case4 => rfl

/-- **base64_encode** writes the code of its input into the string. -/
theorem base64_encode_out_eq (s : Bytes) :
    base64_encode_out s =
      Cursor.puts ⟨List.replicate (base64_encode_length s) 0, 0⟩ (base64_encode s) := by
  unfold base64_encode_out
  rw [base64_encode_loop_eq [] _ s (by decide), List.nil_append, base64_encode_eq,
    Cursor.puts_append]
  rcases Cursor.puts ⟨List.replicate (base64_encode_length s) 0, 0⟩ (encode_groups s).1 with _ | out
  · rfl
  · rcases (encode_groups s).2 with _ | ⟨a, a3⟩
    · rfl
    · rfl

/-- The bytes of the groups of four characters, and the characters left. -/
def decode_groups : Bytes → Bytes × Bytes
  | a :: b :: c :: d :: rest =>
    (a4_to_a3 (b64_lookup a) (b64_lookup b) (b64_lookup c) (b64_lookup d) ++
      (decode_groups rest).1, (decode_groups rest).2)
  | a4 => ([], a4)

theorem decode_groups_short {a4 : Bytes} (h : a4.length < 4) : decode_groups a4 = ([], a4) := by
  match a4 with
  | [] => rfl
  | [_] => rfl
  | [_, _] => rfl
  | [_, _, _] => rfl
  | _ :: _ :: _ :: _ :: _ =>
    simp only [List.length_cons] at h
    omega

/-- The characters before the first `=`. -/
def payload (s : Bytes) : Bytes := s.takeWhile (· ≠ 61)

/-- The loop is at its end when no character is left in front of a `=`. -/
theorem decode_groups_end {a4 : Bytes} (out : Cursor UInt8) (ha : a4.length < 4) {rest : Bytes}
    (h : payload rest = []) :
    some (a4, out) = (out.puts (decode_groups (a4 ++ payload rest)).1).map fun out =>
      ((decode_groups (a4 ++ payload rest)).2, out) := by
  rw [h, List.append_nil, decode_groups_short ha]
  rfl

/-- By induction on the count. The loop reads inside the input. -/
theorem base64_decode_loop_eq (s : Bytes) (input_len pos : Nat) (a4 : Bytes) (out : Cursor UInt8)
    (ha : a4.length < 4) (hpos : pos + input_len = s.length) :
    base64_decode_loop s input_len pos a4 out =
      (out.puts (decode_groups (a4 ++ payload (s.drop pos))).1).map fun out =>
        ((decode_groups (a4 ++ payload (s.drop pos))).2, out) := by
  induction input_len generalizing pos a4 out with
  | zero =>
    apply decode_groups_end out ha
    rw [List.drop_eq_nil_of_le (by omega)]
    rfl
  | succ input_len ih =>
    have hlt : pos < s.length := by omega
    rw [base64_decode_loop, List.getElem?_eq_getElem hlt, List.drop_eq_getElem_cons hlt]
    obtain ⟨x, hx⟩ : ∃ x, x = s[pos] := ⟨_, rfl⟩
    rw [← hx]
    show (if x = 61 then _ else _) = _
    by_cases h61 : x = 61
    · rw [if_pos h61]
      apply decode_groups_end out ha
      rw [payload, h61]
      rfl
    · have hpay : payload (x :: s.drop (pos + 1)) = x :: payload (s.drop (pos + 1)) :=
        List.takeWhile_cons_of_pos (by simpa using h61)
      have ih := fun a4 out ha => ih (pos + 1) a4 out ha (by omega)
      rw [if_neg h61, hpay]
      rcases a4 with _ | ⟨a, _ | ⟨b, _ | ⟨c, _ | ⟨d, a4⟩⟩⟩⟩
      · exact ih [x] out (by simp)
      · exact ih [a, x] out (by simp)
      · exact ih [a, b, x] out (by simp)
      · -- the group is complete
        show (out.puts _).bind _ = (out.puts (a4_to_a3 _ _ _ _ ++ _)).map _
        rw [Cursor.puts_append]
        rcases out.puts (a4_to_a3 (b64_lookup a) (b64_lookup b) (b64_lookup c) (b64_lookup x))
          with _ | out₁
        · rfl
        · exact ih [] out₁ (by decide)
      · simp only [List.length_cons] at ha
        omega

/-- What `base64_decode` writes behind the groups. -/
def decode_tail (a4 : Bytes) : Bytes :=
  (a4_to_a3 (b64_lookup (a4.getD 0 0)) (b64_lookup (a4.getD 1 0)) (b64_lookup (a4.getD 2 0))
    (b64_lookup (a4.getD 3 0))).take (a4.length - 1)

/-- What some characters stand for. -/
def base64_text (s : Bytes) : Bytes := (decode_groups s).1 ++ decode_tail (decode_groups s).2

/-- **base64_decode** writes what its input stands for into the string. -/
theorem base64_decode_eq {s : Bytes} (hs : s.length < 2 ^ 32) :
    base64_decode s = (decoded_length s).bind fun length =>
      Cursor.puts ⟨List.replicate length 0, 0⟩ (base64_text (payload s)) := by
  unfold base64_decode
  rcases decoded_length s with _ | length
  · rfl
  · show ((base64_decode_loop s (s.length % 2 ^ 32) 0 [] _).bind _) = _
    rw [Nat.mod_eq_of_lt hs, base64_decode_loop_eq s s.length 0 [] _ (by decide) (Nat.zero_add _),
      List.drop_zero, List.nil_append, Option.bind_some, base64_text, Cursor.puts_append]
    rcases Cursor.puts ⟨List.replicate length 0, 0⟩ (decode_groups (payload s)).1 with _ | out
    · rfl
    · rcases (decode_groups (payload s)).2 with _ | ⟨a, a4⟩
      · rfl
      · rfl

/-! ## Section 3: Regrouping the bits -/

theorem b64_lookup_alphabet :
    ∀ i : UInt8, i.toNat < 64 → b64_lookup (base64_alphabet.getD i.toNat 0) = i := by
  apply forall_byte
  decide

/-- The masks and shifts of the two functions, as quotients and remainders. -/
theorem masks : ∀ a : UInt8,
    ((a &&& 0xfc) >>> 2).toNat = a.toNat / 4 ∧ ((a &&& 0x03) <<< 4).toNat = a.toNat % 4 * 16 ∧
    ((a &&& 0xf0) >>> 4).toNat = a.toNat / 16 ∧ ((a &&& 0x0f) <<< 2).toNat = a.toNat % 16 * 4 ∧
    ((a &&& 0xc0) >>> 6).toNat = a.toNat / 64 ∧ (a &&& 0x3f).toNat = a.toNat % 64 ∧
    (a <<< 2).toNat = a.toNat * 4 % 256 ∧ ((a &&& 0x30) >>> 4).toNat = a.toNat / 16 % 4 ∧
    ((a &&& 0xf) <<< 4).toNat = a.toNat % 16 * 16 ∧ ((a &&& 0x3c) >>> 2).toNat = a.toNat / 4 % 16 ∧
    ((a &&& 0x3) <<< 6).toNat = a.toNat % 4 * 64 := by
  apply forall_byte
  decide

/-- Three bytes regrouped to four sextets come back. -/
theorem a4_to_a3_of_a3 (a b c : UInt8) {i j k l : UInt8} (h : a3_to_a4 a b c = [i, j, k, l]) :
    a4_to_a3 i j k l = [a, b, c] := by
  have ha := a.toNat_lt
  have hb := b.toNat_lt
  have hc := c.toNat_lt
  obtain ⟨ha1, ha2, -⟩ := masks a
  obtain ⟨-, -, hb1, hb2, -⟩ := masks b
  obtain ⟨-, -, -, -, hc1, hc2, -⟩ := masks c
  simp only [a3_to_a4, List.cons.injEq, and_true] at h
  obtain ⟨hi, hj, hk, hl⟩ := h
  have hi' : i.toNat = a.toNat / 4 := by rw [← hi, ha1]
  have hj' : j.toNat = a.toNat % 4 * 16 + b.toNat / 16 := by
    rw [← hj, UInt8.toNat_add, ha2, hb1]
    omega
  have hk' : k.toNat = b.toNat % 16 * 4 + c.toNat / 64 := by
    rw [← hk, UInt8.toNat_add, hb2, hc1]
    omega
  have hl' : l.toNat = c.toNat % 64 := by rw [← hl, hc2]
  obtain ⟨-, -, -, -, -, -, hi1, -⟩ := masks i
  obtain ⟨-, -, -, -, -, -, -, hj1, hj2, -⟩ := masks j
  obtain ⟨-, -, -, -, -, -, -, -, -, hk1, hk2⟩ := masks k
  have h0 : (i <<< 2) + ((j &&& 0x30) >>> 4) = a := by
    apply UInt8.toNat.inj
    rw [UInt8.toNat_add, hi1, hj1, hi', hj']
    omega
  have h1 : ((j &&& 0xf) <<< 4) + ((k &&& 0x3c) >>> 2) = b := by
    apply UInt8.toNat.inj
    rw [UInt8.toNat_add, hj2, hk1, hj', hk']
    omega
  have h2 : ((k &&& 0x3) <<< 6) + l = c := by
    apply UInt8.toNat.inj
    rw [UInt8.toNat_add, hk2, hk', hl']
    omega
  rw [a4_to_a3, h0, h1, h2]

/-- The four characters of a group, looked up again. -/
theorem group_comes_back (a b c : UInt8) :
    ∃ w x y z, base64_chars (a3_to_a4 a b c) = [w, x, y, z] ∧
      a4_to_a3 (b64_lookup w) (b64_lookup x) (b64_lookup y) (b64_lookup z) = [a, b, c] := by
  obtain ⟨i, j, k, l, h4⟩ : ∃ i j k l, a3_to_a4 a b c = [i, j, k, l] := ⟨_, _, _, _, rfl⟩
  have hlt := a3_to_a4_lt a b c
  rw [h4] at hlt ⊢
  simp only [List.forall_mem_cons] at hlt
  obtain ⟨hi, hj, hk, hl, -⟩ := hlt
  refine ⟨_, _, _, _, rfl, ?_⟩
  rw [b64_lookup_alphabet i hi, b64_lookup_alphabet j hj, b64_lookup_alphabet k hk,
    b64_lookup_alphabet l hl]
  exact a4_to_a3_of_a3 a b c h4

theorem length_decode_tail {a4 : Bytes} (h : a4.length < 4) :
    (decode_tail a4).length = 6 * a4.length / 8 := by
  have hlen : (decode_tail a4).length = min (a4.length - 1) 3 := List.length_take
  omega

theorem length_base64_text (s : Bytes) : (base64_text s).length = 6 * s.length / 8 := by
  unfold base64_text
  induction s using decode_groups.induct with
  | case1 a b c d rest ih =>
    rw [List.length_append] at ih
    simp only [decode_groups, a4_to_a3, List.length_append, List.length_cons, List.length_nil]
    omega
  | case2 a4 hno =>
    have hshort : a4.length < 4 := by
      by_contra hlong
      match a4 with
      | [] | [_] | [_, _] | [_, _, _] => exact hlong (by simp)
      | a :: b :: c :: d :: rest => exact hno a b c d rest rfl
    rw [decode_groups_short hshort]
    exact length_decode_tail hshort

/-- What `base64_encode` gives: characters of the alphabet that stand for the
    input, and the `=` that complete the last group. -/
theorem base64_encode_shape (s : Bytes) :
    ∃ body k, base64_encode s = body ++ List.replicate k 61 ∧ k ≤ 2 ∧ (s.length + k) % 3 = 0 ∧
      (∀ c ∈ body, c ∈ base64_alphabet) ∧ base64_text body = s := by
  induction s using base64_encode.induct with
  | case1 a b c rest ih =>
    obtain ⟨body, k, hbody, hk, hmod, hmem, htext⟩ := ih
    obtain ⟨w, x, y, z, hchars, hback⟩ := group_comes_back a b c
    refine ⟨base64_chars (a3_to_a4 a b c) ++ body, k, ?_, hk, ?_, ?_, ?_⟩
    · rw [base64_encode, hbody, List.append_assoc]
    · simp only [List.length_cons]
      omega
    · intro d hd
      rcases List.mem_append.mp hd with hd | hd
      · exact base64_chars_mem (a3_to_a4_lt a b c) d hd
      · exact hmem d hd
    · show base64_text (base64_chars (a3_to_a4 a b c) ++ body) = [a, b, c] ++ rest
      rw [hchars, ← hback, ← htext, base64_text, base64_text, ← List.append_assoc]
      rfl
  | case2 a b =>
    obtain ⟨w, x, y, z, hchars, hback⟩ := group_comes_back a b 0
    have htake : base64_chars ((a3_to_a4 a b 0).take 3) = [w, x, y] := by
      rw [base64_chars, List.map_take]
      exact congrArg (List.take 3) hchars
    refine ⟨base64_chars ((a3_to_a4 a b 0).take 3), 1, rfl, by decide, by simp,
      base64_chars_mem fun i hi => a3_to_a4_lt a b 0 i (List.mem_of_mem_take hi), ?_⟩
    rw [htake]
    -- the first two bytes do not need the fourth character
    exact congrArg (List.take 2) hback
  | case3 a =>
    obtain ⟨w, x, y, z, hchars, hback⟩ := group_comes_back a 0 0
    have htake : base64_chars ((a3_to_a4 a 0 0).take 2) = [w, x] := by
      rw [base64_chars, List.map_take]
      exact congrArg (List.take 2) hchars
    refine ⟨base64_chars ((a3_to_a4 a 0 0).take 2), 2, rfl, by decide, by simp,
      base64_chars_mem fun i hi => a3_to_a4_lt a 0 0 i (List.mem_of_mem_take hi), ?_⟩
    rw [htake]
    exact congrArg (List.take 1) hback
  | case4 => exact ⟨[], 0, rfl, by decide, rfl, by simp, rfl⟩

/-! ## Section 4: Lengths -/

/-- The `=` at the end. -/
def padding (s : Bytes) : Bytes := s.rtakeWhile (· = 61)

/-- By induction on the place. The loop ends in front of the string if it
    meets nothing but `=`. -/
theorem trailing_eq_spec (s : Bytes) {pos : Nat} (h : pos ≤ s.length) :
    trailing_eq s pos =
      if ∃ c ∈ s.take pos, c ≠ 61 then some (padding (s.take pos)).length else none := by
  induction pos with
  | zero =>
    rw [if_neg]
    · rfl
    · rintro ⟨c, hc, -⟩
      cases hc
  | succ pos ih =>
    have hlt : pos < s.length := h
    have hsplit : s.take (pos + 1) = s.take pos ++ [s[pos]] :=
      List.take_succ_eq_append_getElem hlt
    rw [trailing_eq, List.getElem?_eq_getElem hlt, hsplit]
    show (if s[pos] = 61 then _ else _) = _
    obtain ⟨x, hx⟩ : ∃ x, x = s[pos] := ⟨_, rfl⟩
    rw [← hx]
    by_cases h61 : x = 61
    · have hpad : padding (s.take pos ++ [x]) = padding (s.take pos) ++ [x] :=
        List.rtakeWhile_concat_pos _ _ _ (by simpa using h61)
      have hiff : (∃ c ∈ s.take pos ++ [x], c ≠ 61) ↔ ∃ c ∈ s.take pos, c ≠ 61 := by
        simp only [List.mem_append, List.mem_singleton]
        constructor
        · rintro ⟨c, hc | rfl, hne⟩
          · exact ⟨c, hc, hne⟩
          · exact absurd h61 hne
        · rintro ⟨c, hc, hne⟩
          exact ⟨c, Or.inl hc, hne⟩
      rw [if_pos h61, ih (by omega), hpad, List.length_append]
      simp only [hiff]
      split
      · rfl
      · rfl
    · have hpad : padding (s.take pos ++ [x]) = [] :=
        List.rtakeWhile_concat_neg _ _ _ (by simpa using h61)
      have hmem : x ∈ s.take pos ++ [x] := List.mem_append_right _ (List.mem_singleton_self x)
      rw [if_neg h61, if_pos ⟨x, hmem, h61⟩, hpad]
      rfl

/-- The characters before the first `=` and the `=` at the end do not overlap. -/
theorem payload_padding (s : Bytes) : (payload s).length + (padding s).length ≤ s.length := by
  obtain ⟨r, hr⟩ : payload s <+: s := List.takeWhile_prefix _
  obtain ⟨t, ht⟩ : padding s <:+ s := List.rtakeWhile_suffix _ _
  have hlr := congrArg List.length hr
  have hlt := congrArg List.length ht
  rw [List.length_append] at hlr hlt
  rcases List.append_eq_append_iff.mp (hr.trans ht.symm) with ⟨m, hm, -⟩ | ⟨m, hm, hpad⟩
  · have := congrArg List.length hm
    rw [List.length_append] at this
    omega
  · rcases m with _ | ⟨x, m⟩
    · have := congrArg List.length hm
      rw [List.append_nil] at this
      omega
    · -- a character that is a `=` and is not
      exfalso
      have h₁ : x ∈ payload s := by simp [hm]
      have h₂ : x ∈ padding s := by simp [hpad]
      have hne := List.mem_takeWhile_imp h₁
      have heq := List.mem_rtakeWhile_imp h₂
      simp only [ne_eq, decide_not, Bool.not_eq_true', decide_eq_false_iff_not,
        decide_eq_true_eq] at hne heq
      exact hne heq

/-- `decoded_length` of a string with a character other than `=`. -/
theorem decoded_length_eq {s : Bytes} (hs : 6 * s.length < 2 ^ 32) (hne : ∃ c ∈ s, c ≠ 61) :
    decoded_length s =
      some ((6 * s.length / 8 + 2 ^ 32 - (padding s).length) % 2 ^ 32) := by
  have hle := payload_padding s
  have hspec := trailing_eq_spec s (Nat.le_refl s.length)
  rw [List.take_length, if_pos hne] at hspec
  have hn : s.length % 2 ^ 32 = s.length := Nat.mod_eq_of_lt (by omega)
  have h6 : 6 * s.length % 2 ^ 32 = 6 * s.length := Nat.mod_eq_of_lt hs
  have he : (padding s).length % 2 ^ 32 = (padding s).length := Nat.mod_eq_of_lt (by omega)
  rw [decoded_length, hspec, Option.map_some, hn, h6, he]

/-! ## Section 5: Round trip -/

theorem alphabet_ne : (61 : UInt8) ∉ base64_alphabet := by decide

/-- Where the `=` of a code begin and end. -/
theorem payload_code {body : Bytes} (h : ∀ c ∈ body, c ∈ base64_alphabet) (k : Nat) :
    payload (body ++ List.replicate k 61) = body := by
  have hbody : ∀ c ∈ body, (decide (c ≠ 61)) = true := by
    intro c hc
    rw [decide_eq_true_eq]
    rintro rfl
    exact alphabet_ne (h _ hc)
  rw [payload, List.takeWhile_append_of_pos hbody]
  rcases k with _ | k
  · exact List.append_nil body
  · rw [List.replicate_succ, List.takeWhile_cons_of_neg (by decide), List.append_nil]

theorem padding_code {body : Bytes} (h : ∀ c ∈ body, c ∈ base64_alphabet) (k : Nat) :
    padding (body ++ List.replicate k 61) = List.replicate k 61 := by
  have hall : ∀ c ∈ List.replicate k (61 : UInt8), decide (c = 61) = true := by
    intro c hc
    rw [List.eq_of_mem_replicate hc, decide_eq_true_eq]
  have hbody : body.reverse.takeWhile (fun c => decide (c = 61)) = [] := by
    rcases hrev : body.reverse with _ | ⟨c, rest⟩
    · rfl
    · have hmem : c ∈ body := by
        rw [← List.mem_reverse, hrev]
        exact List.mem_cons_self
      apply List.takeWhile_cons_of_neg
      rw [decide_eq_true_eq]
      rintro rfl
      exact alphabet_ne (h _ hmem)
  rw [padding, List.rtakeWhile, List.reverse_append, List.reverse_replicate,
    List.takeWhile_append_of_pos hall, hbody, List.append_nil, List.reverse_replicate]

theorem base64_encode_length_eq {s : Bytes} (hs : s.length < 2 ^ 28) :
    base64_encode_length s = (base64_encode s).length := by
  have hn : s.length % 2 ^ 32 = s.length := Nat.mod_eq_of_lt (by omega)
  have hn2 : (s.length + 2) % 2 ^ 32 = s.length + 2 := Nat.mod_eq_of_lt (by omega)
  have hout : (s.length + 2 - (s.length + 2) % 3) / 3 * 4 = (s.length + 2) / 3 * 4 := by omega
  rw [base64_encode_length, encoded_length, hn, hn2, length_base64_encode, hout]
  exact Nat.mod_eq_of_lt (by omega)

/-- The string allocated for a code has as many bytes as were coded. -/
theorem decoded_length_code {s : Bytes} (hne : s ≠ []) (hs : s.length < 2 ^ 28) :
    decoded_length (base64_encode s) = some s.length := by
  obtain ⟨body, k, hcode, hk, hmod, hmem, htext⟩ := base64_encode_shape s
  have hlen := length_base64_encode s
  have htl := length_base64_text body
  have hpos : 0 < s.length := List.length_pos_iff.mpr hne
  rw [htext] at htl
  rw [hcode, List.length_append, List.length_replicate] at hlen
  rw [hcode]
  have hbody : body ≠ [] := by
    rintro rfl
    rw [List.length_nil] at htl
    omega
  obtain ⟨c, rest, rfl⟩ := List.exists_cons_of_ne_nil hbody
  have hother : ∃ d ∈ (c :: rest) ++ List.replicate k 61, d ≠ 61 :=
    ⟨c, List.mem_cons_self, fun h => alphabet_ne (h ▸ hmem c List.mem_cons_self)⟩
  have hn : ((c :: rest) ++ List.replicate k (61 : UInt8)).length = (s.length + 2) / 3 * 4 := by
    rw [List.length_append, List.length_replicate, hlen]
  rw [decoded_length_eq (by omega) hother, padding_code hmem, List.length_replicate, hn]
  congr 1
  omega

/-- **Round trip.** The code fills its string, and decoding it gives the input
    back. -/
theorem base64_comes_back (s : Bytes) (hne : s ≠ []) (hs : s.length < 2 ^ 28) :
    ∃ code text, base64_encode_out s = some code ∧ code.out.length = base64_encode_length s ∧
      code.pos = code.out.length ∧
      (∃ body k, code.out = body ++ List.replicate k 61 ∧ k ≤ 2 ∧
        ∀ c ∈ body, c ∈ base64_alphabet) ∧
      base64_decode code.out = some text ∧ text.out = s := by
  -- the code
  have hfull := base64_encode_length_eq hs
  obtain ⟨code, hcode, hholds⟩ := (Cursor.holds_new (base64_encode_length s) (0 : UInt8)).puts
    (base64_encode s) (by rw [List.length_nil]; omega)
  rw [List.nil_append] at hholds
  obtain ⟨hout, hpos⟩ := hholds.full hfull.symm
  obtain ⟨body, k, hshape, hk, -, hmem, htext⟩ := base64_encode_shape s
  -- what it stands for
  have hlen : (base64_encode s).length < 2 ^ 32 := by
    rw [length_base64_encode]
    omega
  have hpay : base64_text (payload (base64_encode s)) = s := by
    rw [hshape, payload_code hmem, htext]
  obtain ⟨text, htext, hback⟩ := (Cursor.holds_new s.length (0 : UInt8)).puts
    s (by rw [List.length_nil]; omega)
  rw [List.nil_append] at hback
  refine ⟨code, text, ?_, hholds.length_out, by rw [hpos, hholds.length_out],
    ⟨body, k, by rw [hout, hshape], hk, hmem⟩, ?_, (hback.full rfl).1⟩
  · rw [base64_encode_out_eq, hcode]
  · rw [hout, base64_decode_eq hlen, decoded_length_code hne hs, hpay]
    exact htext

/-- `Ma` is coded as `TWE=`. -/
theorem base64_comes_back_two :
    ∃ code text, base64_encode_out [77, 97] = some code ∧
      code.out.length = base64_encode_length [77, 97] ∧ code.pos = code.out.length ∧
      (∃ body k, code.out = body ++ List.replicate k 61 ∧ k ≤ 2 ∧
        ∀ c ∈ body, c ∈ base64_alphabet) ∧
      base64_decode code.out = some text ∧ text.out = [77, 97] :=
  base64_comes_back [77, 97] (by decide) (by decide)

/-! ## Section 6: Any input -/

/-- Decoding reads inside the input, the length computed does not wrap, and
    what is written is not more than that. -/
def DecodesInside (s : Bytes) : Prop :=
  ∃ eq_cnt text, trailing_eq s s.length = some eq_cnt ∧ eq_cnt ≤ 6 * s.length / 8 ∧
    base64_decode s = some text ∧ text.pos ≤ 6 * s.length / 8 - eq_cnt

/-- Not all characters are `=`, and from the first `=` on no more groups of
    four begin than there are characters before the `=` at the end. -/
def Completed (s : Bytes) : Prop :=
  (∃ c ∈ s, c ≠ 61) ∧
    (s.length + 3) / 4 - ((payload s).length + 3) / 4 ≤
      s.length - (padding s).length - (payload s).length

instance (s : Bytes) : Decidable (Completed s) := inferInstanceAs (Decidable (_ ∧ _))

/-- **Decoding in bounds.** -/
theorem decodesInside_iff (s : Bytes) (hs : s.length < 2 ^ 28) :
    DecodesInside s ↔ Completed s := by
  have hle := payload_padding s
  have hspec := trailing_eq_spec s (Nat.le_refl s.length)
  have htext := length_base64_text (payload s)
  rw [List.take_length] at hspec
  constructor
  · rintro ⟨eq_cnt, text, heq, hwrap, hdec, -⟩
    have hne : ∃ c ∈ s, c ≠ 61 := by
      by_contra hno
      rw [hspec, if_neg hno] at heq
      cases heq
    rw [hspec, if_pos hne, Option.some.injEq] at heq
    rw [base64_decode_eq (by omega), decoded_length_eq (by omega) hne, Option.bind_some] at hdec
    refine ⟨hne, ?_⟩
    by_contra hmany
    -- the text does not fit
    have hlen : (6 * s.length / 8 + 2 ^ 32 - (padding s).length) % 2 ^ 32 =
        6 * s.length / 8 - (padding s).length := by omega
    rw [hlen, Cursor.Holds.puts_none (Cursor.holds_new _ _)
      (by rw [List.length_nil, htext]; omega)] at hdec
    cases hdec
  · rintro ⟨hne, hfew⟩
    rw [if_pos hne] at hspec
    have hlen : (6 * s.length / 8 + 2 ^ 32 - (padding s).length) % 2 ^ 32 =
        6 * s.length / 8 - (padding s).length := by omega
    obtain ⟨text, hputs, hholds⟩ :=
      (Cursor.holds_new (6 * s.length / 8 - (padding s).length) (0 : UInt8)).puts
        (base64_text (payload s)) (by rw [List.length_nil, htext]; omega)
    refine ⟨(padding s).length, text, hspec, by omega, ?_, ?_⟩
    · rw [base64_decode_eq (by omega), decoded_length_eq (by omega) hne, hlen]
      exact hputs
    · rw [hholds.pos_eq]
      exact hholds.pos_le

/-- `TWE=` stays in bounds. -/
theorem decodesInside_two : DecodesInside [84, 87, 69, 61] ↔ Completed [84, 87, 69, 61] :=
  decodesInside_iff [84, 87, 69, 61] (by decide)

/-- The count of `=` in the empty string begins before it. `AAAA=` decodes to
    three bytes in a string of two, and `A====` to a string of a length below
    zero. -/
theorem not_decodesInside :
    ¬ DecodesInside [] ∧ ¬ DecodesInside [65, 65, 65, 65, 61] ∧
    ¬ DecodesInside [65, 61, 61, 61, 61] := by
  refine ⟨?_, ?_, ?_⟩
  · rintro ⟨eq_cnt, text, heq, -⟩
    cases heq
  · rintro ⟨eq_cnt, text, -, -, hdec, -⟩
    have hnone : (base64_decode [65, 65, 65, 65, 61]).isNone = true := by decide
    rw [hdec] at hnone
    cases hnone
  · rintro ⟨eq_cnt, text, heq, hwrap, -⟩
    have hcount : trailing_eq [65, 61, 61, 61, 61] 5 = some 4 := by decide
    rw [show List.length [(65 : UInt8), 61, 61, 61, 61] = 5 from rfl] at heq hwrap
    rw [hcount, Option.some.injEq] at heq
    omega

end Pump
