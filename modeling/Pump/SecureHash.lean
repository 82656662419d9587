import Pump.BlockHash

/-! # The Secure Hash Algorithm

    SHA-1 as the Secure Hash Standard states it: the message is padded to
    blocks of 64 bytes, a block of 16 words is expanded to a schedule of 80, and
    80 rounds mix the schedule into the five words of the state. -/

namespace Pump

namespace SecureHash

abbrev Word := BitVec 32

/-- The functions Ch, Parity and Maj. -/
def f (t : Nat) (x y z : Word) : Word :=
  if t < 20 then (x &&& y) ^^^ (~~~x &&& z)
  else if t < 40 then x ^^^ y ^^^ z
  else if t < 60 then (x &&& y) ^^^ (x &&& z) ^^^ (y &&& z)
  else x ^^^ y ^^^ z

def K (t : Nat) : Word :=
  if t < 20 then 0x5a827999 else if t < 40 then 0x6ed9eba1 else if t < 60 then 0x8f1bbcdc
  else 0xca62c1d6

/-- The message schedule of a block of 16 words. -/
def W (M : Nat → Word) (t : Nat) : Word :=
  if t < 16 then M t
  else (W M (t - 3) ^^^ W M (t - 8) ^^^ W M (t - 14) ^^^ W M (t - 16)).rotateLeft 1

structure State where
  a : Word
  b : Word
  c : Word
  d : Word
  e : Word
  deriving DecidableEq

def round (M : Nat → Word) (r : State) (t : Nat) : State :=
  ⟨r.a.rotateLeft 5 + f t r.b r.c r.d + r.e + K t + W M t, r.a, r.b.rotateLeft 30, r.c, r.d⟩

/-- A word of four bytes, the most significant one first. -/
def word (block : List UInt8) (t : Nat) : Word :=
  (block.getD (4 * t) 0).toBitVec ++ (block.getD (4 * t + 1) 0).toBitVec ++
    (block.getD (4 * t + 2) 0).toBitVec ++ (block.getD (4 * t + 3) 0).toBitVec

def compress (H : State) (block : List UInt8) : State :=
  let r := (List.range 80).foldl (round (word block)) H
  ⟨H.a + r.a, H.b + r.b, H.c + r.c, H.d + r.d, H.e + r.e⟩

def initial : State := ⟨0x67452301, 0xefcdab89, 0x98badcfe, 0x10325476, 0xc3d2e1f0⟩

/-- The bytes of a number, the most significant one first. -/
def bytes (n : Nat) (w : BitVec (8 * n)) : List UInt8 :=
  (List.range n).map fun i => ⟨w.extractLsb' (8 * (n - 1 - i)) 8⟩

/-- How many zeros stand between the bit that ends a message of `n` bytes and
    the length. -/
def zeros (n : Nat) : Nat := (119 - n % 64) % 64

/-- The message, a bit that is set, zeros, and the length in bits. -/
def pad (m : List UInt8) : List UInt8 :=
  m ++ (0x80 :: List.replicate (zeros m.length) 0) ++ bytes 8 (BitVec.ofNat 64 (8 * m.length))

/-- The message digest. -/
def digest (m : List UInt8) : List UInt8 :=
  let H := BlockHash.chain compress 64 initial (pad m)
  bytes 4 H.a ++ bytes 4 H.b ++ bytes 4 H.c ++ bytes 4 H.d ++ bytes 4 H.e

theorem length_bytes (n : Nat) (w : BitVec (8 * n)) : (bytes n w).length = n := by
  rw [bytes, List.length_map, List.length_range]

/-- The padding ends with a block, and is no longer than it has to be. -/
theorem zeros_spec (n : Nat) : (n + 1 + zeros n + 8) % 64 = 0 ∧ zeros n < 64 := by
  unfold zeros
  omega

theorem length_pad (m : List UInt8) : (pad m).length = m.length + 1 + zeros m.length + 8 := by
  rw [pad, List.length_append, List.length_append, List.length_cons, List.length_replicate,
    length_bytes]
  omega

theorem W_early (M : Nat → Word) {t : Nat} (h : t < 16) : W M t = M t := by
  rw [W, if_pos h]

theorem W_late (M : Nat → Word) (t : Nat) :
    W M (t + 16) = (W M (t + 13) ^^^ W M (t + 8) ^^^ W M (t + 2) ^^^ W M t).rotateLeft 1 := by
  rw [W, if_neg (by omega)]
  rfl

end SecureHash

end Pump
