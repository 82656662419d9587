import Pump.Utils

/-! # codec

    `base64_encode` and `sha1` of `codec/base64.cpp` and `codec/sha1.cpp`, on
    a machine with the byte order of `PUMP_HAVE_LITTLE_ENDIAN`. -/

namespace Pump

/-! ## Section 1: base64 -/

/-- `kBase64Alphabet`. -/
def base64_alphabet : Bytes :=
  ascii "ABCDEFGHIJKLMNOPQRSTUVWXYZabcdefghijklmnopqrstuvwxyz0123456789+/"

/-- `a3_to_a4`. -/
def a3_to_a4 (a b c : UInt8) : List UInt8 :=
  [(a &&& 0xfc) >>> 2, ((a &&& 0x03) <<< 4) + ((b &&& 0xf0) >>> 4),
    ((b &&& 0x0f) <<< 2) + ((c &&& 0xc0) >>> 6), c &&& 0x3f]

/-- The characters of some sextets. -/
def base64_chars (a4 : List UInt8) : Bytes := a4.map fun i => base64_alphabet.getD i.toNat 0

/-- `base64_encode`: three bytes at a time, and what is left at the end filled
    up with zeros and with `=`. -/
def base64_encode : Bytes → Bytes
  | a :: b :: c :: rest => base64_chars (a3_to_a4 a b c) ++ base64_encode rest
  | [a, b] => base64_chars ((a3_to_a4 a b 0).take 3) ++ ascii "="
  | [a] => base64_chars ((a3_to_a4 a 0 0).take 2) ++ ascii "=="
  | [] => []

theorem a3_to_a4_lt (a b c : UInt8) : ∀ i ∈ a3_to_a4 a b c, i.toNat < 64 := by
  have hfc : ((a &&& 0xfc) >>> 2).toNat < 64 :=
    forall_byte (P := fun a => ((a &&& 0xfc) >>> 2).toNat < 64) (by decide) a
  have h03 : ((a &&& 0x03) <<< 4).toNat ≤ 48 :=
    forall_byte (P := fun a => ((a &&& 0x03) <<< 4).toNat ≤ 48) (by decide) a
  have hf0 : ((b &&& 0xf0) >>> 4).toNat ≤ 15 :=
    forall_byte (P := fun b => ((b &&& 0xf0) >>> 4).toNat ≤ 15) (by decide) b
  have h0f : ((b &&& 0x0f) <<< 2).toNat ≤ 60 :=
    forall_byte (P := fun b => ((b &&& 0x0f) <<< 2).toNat ≤ 60) (by decide) b
  have hc0 : ((c &&& 0xc0) >>> 6).toNat ≤ 3 :=
    forall_byte (P := fun c => ((c &&& 0xc0) >>> 6).toNat ≤ 3) (by decide) c
  have h3f : (c &&& 0x3f).toNat < 64 :=
    forall_byte (P := fun c => (c &&& 0x3f).toNat < 64) (by decide) c
  unfold a3_to_a4
  simp only [List.forall_mem_cons, UInt8.toNat_add]
  refine ⟨hfc, ?_, ?_, h3f, List.forall_mem_nil _⟩
  · omega
  · omega

/-- The characters that `base64_encode` writes: letters, digits, `+`, `/` and
    `=`. -/
def base64_char (c : UInt8) : Bool := base64_alphabet.contains c || c = 61

theorem base64_chars_mem {a4 : List UInt8} (h : ∀ i ∈ a4, i.toNat < 64) :
    ∀ c ∈ base64_chars a4, c ∈ base64_alphabet := by
  intro c hc
  obtain ⟨i, hi, rfl⟩ := List.mem_map.mp hc
  have hlt : i.toNat < base64_alphabet.length := h i hi
  rw [List.getD_eq_getElem?_getD, List.getElem?_eq_getElem hlt]
  exact List.getElem_mem hlt

theorem base64_chars_spec {a4 : List UInt8} (h : ∀ i ∈ a4, i.toNat < 64) :
    ∀ c ∈ base64_chars a4, base64_char c = true := by
  intro c hc
  simp [base64_char, base64_chars_mem h c hc]

theorem base64_encode_spec (s : Bytes) : ∀ c ∈ base64_encode s, base64_char c = true := by
  induction s using base64_encode.induct with
  | case1 a b c rest ih =>
    intro d hd
    rcases List.mem_append.mp hd with hd | hd
    · exact base64_chars_spec (a3_to_a4_lt a b c) d hd
    · exact ih d hd
  | case2 a b =>
    intro d hd
    rcases List.mem_append.mp hd with hd | hd
    · exact base64_chars_spec (fun i hi => a3_to_a4_lt a b 0 i (List.mem_of_mem_take hi)) d hd
    · rw [List.mem_singleton.mp hd]
      decide
  | case3 a =>
    intro d hd
    rcases List.mem_append.mp hd with hd | hd
    · exact base64_chars_spec (fun i hi => a3_to_a4_lt a 0 0 i (List.mem_of_mem_take hi)) d hd
    · have hd' : d ∈ [61, 61] := hd
      simp only [List.mem_cons, List.not_mem_nil, or_false, or_self] at hd'
      rw [hd']
      decide
  | case4 => exact List.forall_mem_nil _

/-- `encoded_length`. -/
theorem length_base64_encode (s : Bytes) : (base64_encode s).length = (s.length + 2) / 3 * 4 := by
  induction s using base64_encode.induct with
  | case1 a b c rest ih =>
    rw [base64_encode, List.length_append, ih]
    simp only [base64_chars, a3_to_a4, List.length_map, List.length_cons, List.length_nil]
    omega
  | case2 a b => simp [base64_encode, base64_chars, a3_to_a4, ascii]
  | case3 a => simp [base64_encode, base64_chars, a3_to_a4, ascii]
  | case4 => rfl

/-! ## Section 2: SHA-1 -/

/-- The working variables, in the order of one round. -/
structure Sha1Vars where
  v : UInt32
  w : UInt32
  x : UInt32
  y : UInt32
  z : UInt32
  deriving DecidableEq

/-- `sha1_context`. -/
structure Sha1Context where
  state : Sha1Vars
  count : UInt32 × UInt32
  buffer : Bytes
  deriving DecidableEq

/-- `rol`. -/
def rol (value bits : UInt32) : UInt32 := (value <<< bits) ||| (value >>> (32 - bits))

/-- `blk0`: a word of the block, in the byte order of the message. -/
def blk0 (block : Bytes) (i : Nat) : UInt32 :=
  let byte := fun k => (block.getD (4 * i + k) 0).toUInt32
  (byte 0 <<< 24) ||| (byte 1 <<< 16) ||| (byte 2 <<< 8) ||| byte 3

/-- `blk`: the word that takes the place of another one. -/
def blk (words : List UInt32) (i : Nat) : UInt32 :=
  rol (words.getD ((i + 13) % 16) 0 ^^^ words.getD ((i + 8) % 16) 0 ^^^
    words.getD ((i + 2) % 16) 0 ^^^ words.getD (i % 16) 0) 1

/-- What the rounds `R0` and `R1`, `R2`, `R3` and `R4` mix. -/
def sha1_mix (i : Nat) (r : Sha1Vars) : UInt32 :=
  if i < 20 then ((r.w &&& (r.x ^^^ r.y)) ^^^ r.y) + 0x5A827999
  else if i < 40 then (r.w ^^^ r.x ^^^ r.y) + 0x6ED9EBA1
  else if i < 60 then (((r.w ||| r.x) &&& r.y) ||| (r.w &&& r.x)) + 0x8F1BBCDC
  else (r.w ^^^ r.x ^^^ r.y) + 0xCA62C1D6

/-- One round. The next one has the variables moved on by one place. -/
def sha1_round (words : List UInt32 × Sha1Vars) (i : Nat) : List UInt32 × Sha1Vars :=
  let r := words.2
  let l := if i < 16 then words.1 else words.1.set (i % 16) (blk words.1 i)
  (l, ⟨r.z + (sha1_mix i r + l.getD (i % 16) 0 + rol r.v 5), r.v, rol r.w 30, r.x, r.y⟩)

/-- `sha1_transform`. The block is scratch space after it. -/
def sha1_transform (state : Sha1Vars) (block : Bytes) : Sha1Vars :=
  let words := (List.range 16).map (blk0 block)
  let r := ((List.range 80).foldl sha1_round (words, state)).2
  ⟨state.v + r.v, state.w + r.w, state.x + r.x, state.y + r.y, state.z + r.z⟩

/-- `sha1_init`; the buffer is not initialised there. -/
def sha1_init : Sha1Context :=
  ⟨⟨0x67452301, 0xEFCDAB89, 0x98BADCFE, 0x10325476, 0xC3D2E1F0⟩, (0, 0), List.replicate 64 0⟩

/-- `memcpy(&buffer[j], data, data.length)`. -/
def sha1_put (buffer : Bytes) (j : Nat) (data : Bytes) : Bytes :=
  buffer.take j ++ data ++ buffer.drop (j + data.length)

/-- The whole blocks of the data, and what is left of it. -/
def sha1_blocks : Nat → Sha1Vars → Bytes → Sha1Vars × Bytes
  | 0, state, data => (state, data)
  | fuel + 1, state, data =>
    if 63 < data.length then sha1_blocks fuel (sha1_transform state (data.take 64)) (data.drop 64)
    else (state, data)

/-- `sha1_update`. -/
def sha1_update (ctx : Sha1Context) (data : Bytes) : Sha1Context :=
  let len := UInt32.ofNat data.length
  let count0 := ctx.count.1 + (len <<< 3)
  let count1 := (if count0 < ctx.count.1 then ctx.count.2 + 1 else ctx.count.2) + (len >>> 29)
  let j := ((ctx.count.1 >>> 3) &&& 63).toNat
  if 63 < j + data.length then
    let buffer := sha1_put ctx.buffer j (data.take (64 - j))
    let r := sha1_blocks data.length (sha1_transform ctx.state buffer) (data.drop (64 - j))
    ⟨r.1, (count0, count1), sha1_put buffer 0 r.2⟩
  else ⟨ctx.state, (count0, count1), sha1_put ctx.buffer j data⟩

/-- The loop of `sha1_final` that fills the block with zeros; 64 turns are
    enough. -/
def sha1_pad : Nat → Sha1Context → Sha1Context
  | 0, ctx => ctx
  | fuel + 1, ctx => if ctx.count.1 &&& 504 ≠ 448 then sha1_pad fuel (sha1_update ctx [0]) else ctx

/-- The byte `i` of a word, the highest first. -/
def sha1_byte (word : UInt32) (i : Nat) : UInt8 :=
  ((word >>> UInt32.ofNat ((3 - i % 4) * 8)) &&& 255).toUInt8

/-- `sha1_final`. -/
def sha1_final (ctx : Sha1Context) : Bytes :=
  let finalcount := (List.range 8).map fun i =>
    sha1_byte (if i ≥ 4 then ctx.count.1 else ctx.count.2) i
  let ctx := sha1_update (sha1_pad 64 (sha1_update ctx [0o200])) finalcount
  let words := [ctx.state.v, ctx.state.w, ctx.state.x, ctx.state.y, ctx.state.z]
  (List.range 20).map fun i => sha1_byte (words.getD (i / 4) 0) i

/-- `sha1`, which takes the data byte by byte. -/
def sha1 (data : Bytes) (size : UInt32) : Bytes :=
  sha1_final ((data.take size.toNat).foldl (fun ctx c => sha1_update ctx [c]) sha1_init)

theorem sha1_length (data : Bytes) (size : UInt32) : (sha1 data size).length = 20 := by
  simp [sha1, sha1_final]

example : sha1 (ascii "abc") 3 = [0xA9, 0x99, 0x3E, 0x36, 0x47, 0x06, 0x81, 0x6A, 0xBA, 0x3E,
    0x25, 0x71, 0x78, 0x50, 0xC2, 0x6C, 0x9C, 0xD0, 0xD8, 0x9D] := by decide +kernel

end Pump
