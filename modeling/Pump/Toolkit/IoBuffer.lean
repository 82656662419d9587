import Mathlib.Tactic

/-! # io_buffer

    The byte buffer of `toolkit/buffer.h`: a memory block with a window
    `[rpos, rpos + size)` of readable bytes. Every queue of received or
    outgoing bytes of the library is one of these.

    Sizes and positions are `uint32_t` and wrap; `shift` takes an
    `int32_t`. A store or load outside the memory block, and `abort()`,
    give `none`. The outcome of each allocation is an argument. -/

namespace Pump

/-! ## Section 1: 32-bit arithmetic -/

/-- `uint32_t` addition. -/
def add32 (a b : Nat) : Nat := (a + b) % 2 ^ 32

/-- `uint32_t` subtraction. -/
def sub32 (a b : Nat) : Nat := if b ≤ a then a - b else 2 ^ 32 - (b - a)

/-- Conversion of a `uint32_t` to `int32_t`. -/
def toI32 (x : Nat) : Int := (x : Int).bmod (2 ^ 32)

/-- Conversion of an `int32_t` to `uint32_t`. -/
def ofI32 (x : Int) : Nat := (x % 2 ^ 32).toNat

theorem add32_eq {a b : Nat} (h : a + b < 2 ^ 32) : add32 a b = a + b :=
  Nat.mod_eq_of_lt h

theorem sub32_eq {a b : Nat} (h : b ≤ a) : sub32 a b = a - b :=
  if_pos h

theorem toI32_eq {x : Nat} (h : x < 2 ^ 31) : toI32 x = x := by
  unfold toI32
  rw [Int.bmod_def]
  omega

theorem ofI32_eq {x : Int} {n : Nat} (hx : x = n) (h : n < 2 ^ 32) : ofI32 x = n := by
  unfold ofI32
  rw [hx]
  omega

theorem toI32_sub32 {a b : Nat} (ha : a < 2 ^ 31) (hb : b < 2 ^ 31) :
    toI32 (sub32 a b) = (a : Int) - b := by
  unfold toI32 sub32
  rw [Int.bmod_def]
  split <;> omega

/-! ## Section 2: Memory blocks -/

/-- Store `bytes` at offset `off` of a block; `none` when it does not fit. -/
def store (block : List UInt8) (off : Nat) (bytes : List UInt8) : Option (List UInt8) :=
  if off + bytes.length ≤ block.length then
    some (block.take off ++ bytes ++ block.drop (off + bytes.length))
  else
    none

/-- Load `n` bytes from offset `off` of a block; `none` when out of bounds. -/
def load (block : List UInt8) (off n : Nat) : Option (List UInt8) :=
  if off + n ≤ block.length then some ((block.drop off).take n) else none

theorem store_length {block bytes block' : List UInt8} {off : Nat}
    (h : store block off bytes = some block') : block'.length = block.length := by
  unfold store at h
  split at h
  · cases h
    simp
    omega
  · cases h

/-! ## Section 3: Model -/

/-- Outcome of the allocations of one call: of the `io_buffer` object, of
    `pump_malloc` and of `pump_realloc`. -/
structure Alloc where
  object : Bool
  malloc : Bool
  realloc : Bool

/-- Every allocation succeeds. -/
def Alloc.succeeding : Alloc := ⟨true, true, true⟩

/-- `toolkit::io_buffer`. `raw` is `none` for the null pointer. -/
structure IoBuffer where
  alloced : Bool
  raw : Option (List UInt8)
  raw_size : Nat
  size : Nat
  rpos : Nat
  deriving DecidableEq, Repr

namespace IoBuffer

/-- The constructor `io_buffer(bool free)`. -/
def construct (free : Bool) : IoBuffer := ⟨free, none, 0, 0, 0⟩

/-- `base_buffer::__init_by_alloc`. When `pump_malloc` gives null the
    source returns `true` all the same and leaves `raw_size_` alone. -/
def init_by_alloc (a : Alloc) (iob : IoBuffer) (size : Nat) : Option (Bool × IoBuffer) :=
  if !iob.alloced || iob.raw.isSome then none
  else if a.malloc then
    some (true, { iob with raw := some (List.replicate size 0), raw_size := size })
  else
    some (true, iob)

/-- `io_buffer::create`; the inner `none` is the null pointer. -/
def create (a : Alloc) (size : Nat) : Option (Option IoBuffer) :=
  if !a.object then some none
  else if size > 0 then
    (init_by_alloc a (construct true) size).map fun r => if r.1 then some r.2 else none
  else
    some (some (construct true))

/-- `base_buffer::__init_by_copy`. -/
def init_by_copy (a : Alloc) (iob : IoBuffer) (b : List UInt8) : Option (Bool × IoBuffer) :=
  if !iob.alloced || iob.raw.isSome then none
  else if a.malloc then some (true, { iob with raw := some b, raw_size := b.length })
  else some (false, iob)

/-- `io_buffer::create_by_copy` on a non-null pointer, or on null for `[]`. -/
def create_by_copy (a : Alloc) (b : List UInt8) : Option (Option IoBuffer) :=
  if !a.object then some none
  else if b.length > 0 then
    (init_by_copy a (construct true) b).map fun r =>
      if r.1 then some { r.2 with size := b.length } else none
  else
    some (some (construct true))

/-- `io_buffer::create_by_reference` on a non-null pointer, or on null for `[]`. -/
def create_by_reference (b : List UInt8) : IoBuffer :=
  if b.length > 0 then
    { construct false with raw := some b, raw_size := b.length, size := b.length }
  else
    construct false

def clear (iob : IoBuffer) : IoBuffer := { iob with size := 0, rpos := 0 }

/-- The part both `write` overloads share: make room for `n` bytes behind
    the readable ones, in place, by moving them to the front, or by
    reallocating. -/
def make_room (a : Alloc) (iob : IoBuffer) (n : Nat) : Option (Bool × IoBuffer) :=
  let iob := if iob.rpos = iob.raw_size then iob.clear else iob
  if n > sub32 (sub32 iob.raw_size iob.rpos) iob.size then
    if add32 n iob.size < iob.raw_size then do
      let block ← iob.raw
      let bytes ← load block iob.rpos iob.size
      let block ← store block 0 bytes
      some (true, { iob with raw := some block, rpos := 0 })
    else
      let new_size := add32 iob.raw_size n / 2 * 3 % 2 ^ 32
      if a.realloc then
        let old := iob.raw.getD []
        let block := old.take new_size ++ List.replicate (new_size - old.length) 0
        some (true, { iob with raw := some block, raw_size := new_size })
      else
        some (false, iob)
  else
    some (true, iob)

/-- `memcpy` or `memset` behind the readable bytes and the update of `size_`. -/
def append (iob : IoBuffer) (bytes : List UInt8) : Option (Bool × IoBuffer) := do
  let block ← iob.raw
  let block ← store block (iob.rpos + iob.size) bytes
  some (true, { iob with raw := some block, size := add32 iob.size bytes.length })

/-- `io_buffer::write(const char *b, uint32_t size)`; `[]` also stands for
    the null pointer. -/
def write (a : Alloc) (iob : IoBuffer) (b : List UInt8) : Option (Bool × IoBuffer) :=
  if !iob.alloced then none
  else if b = [] then some (false, iob)
  else do
    let r ← (if iob.raw.isNone then init_by_alloc a iob b.length else some (true, iob))
    if !r.1 then some (false, r.2)
    else
      let r ← make_room a r.2 b.length
      if !r.1 then some (false, r.2) else append r.2 b

/-- `io_buffer::write(char b, uint32_t count)`. -/
def write_fill (a : Alloc) (iob : IoBuffer) (b : UInt8) (count : Nat) :
    Option (Bool × IoBuffer) :=
  if !iob.alloced then none
  else if count = 0 then some (false, iob)
  else do
    let r ← (if iob.raw.isNone then init_by_alloc a iob count else make_room a iob count)
    if !r.1 then some (false, r.2) else append r.2 (List.replicate count b)

/-- `io_buffer::reset_by_copy`; `[]` also stands for the null pointer. -/
def reset_by_copy (a : Alloc) (iob : IoBuffer) (b : List UInt8) : Option (Bool × IoBuffer) :=
  if !iob.alloced then none
  else if b = [] then some (false, iob)
  else write a iob.clear b

/-- `io_buffer::read(char *b, uint32_t size)`: the bytes read, if any. -/
def read (iob : IoBuffer) (size : Nat) : Option (Option (List UInt8) × IoBuffer) :=
  if iob.size < size then some (none, iob)
  else do
    let bytes ← load (iob.raw.getD []) iob.rpos size
    some (some bytes, { iob with
      rpos := add32 iob.rpos size
      size := sub32 iob.size size })

/-- `io_buffer::read(char *b)`. -/
def read_one (iob : IoBuffer) : Option (Option UInt8 × IoBuffer) :=
  if iob.size < 1 then some (none, iob)
  else do
    let byte ← (iob.raw.getD [])[iob.rpos]?
    some (some byte, { iob with
      rpos := add32 iob.rpos 1
      size := sub32 iob.size 1 })

/-- `io_buffer::shift`. -/
def shift (iob : IoBuffer) (size : Int) : Int × IoBuffer :=
  let moved := { iob with
    rpos := ofI32 (iob.rpos + size)
    size := ofI32 (iob.size - size) }
  if size > 0 then
    if toI32 iob.size < size then (-1, iob) else (toI32 moved.size, moved)
  else
    if toI32 iob.rpos < (-size).bmod (2 ^ 32) then (-1, iob) else (toI32 moved.size, moved)

/-- The readable bytes `raw_[rpos_, rpos_ + size_)`. -/
def content (iob : IoBuffer) : List UInt8 :=
  ((iob.raw.getD []).drop iob.rpos).take iob.size

/-! ## Section 4: A well-formed buffer is a byte queue -/

/-- The window lies inside the memory block, and no block is empty. -/
structure Wf (iob : IoBuffer) : Prop where
  block_length : (iob.raw.getD []).length = iob.raw_size
  block_pos : iob.raw.isSome = true → 0 < iob.raw_size
  window : iob.rpos + iob.size ≤ iob.raw_size
  capacity_lt : iob.raw_size < 2 ^ 31

/-- The window lies inside the memory block, no block is empty, and sizes are
    `uint32_t`. -/
structure Fits (iob : IoBuffer) : Prop where
  block_length : (iob.raw.getD []).length = iob.raw_size
  block_pos : iob.raw.isSome = true → 0 < iob.raw_size
  window : iob.rpos + iob.size ≤ iob.raw_size
  capacity_lt : iob.raw_size < 2 ^ 32

theorem Wf.fits {iob : IoBuffer} (h : Wf iob) : Fits iob :=
  ⟨h.block_length, h.block_pos, h.window, by have := h.capacity_lt; omega⟩

theorem Fits.content_length {iob : IoBuffer} (h : Fits iob) : iob.content.length = iob.size := by
  have := h.block_length
  have := h.window
  simp only [content, List.length_take, List.length_drop]
  omega

theorem content_length {iob : IoBuffer} (h : Wf iob) : iob.content.length = iob.size :=
  h.fits.content_length

theorem content_of_size_zero {iob : IoBuffer} (h : iob.size = 0) : iob.content = [] := by
  simp [content, h]

theorem wf_construct (free : Bool) : Wf (construct free) :=
  ⟨rfl, nofun, Nat.le_refl _, by simp [construct]⟩

theorem wf_clear {iob : IoBuffer} (h : Wf iob) : Wf iob.clear :=
  ⟨h.block_length, h.block_pos, Nat.zero_le _, h.capacity_lt⟩

theorem wf_create_by_reference {b : List UInt8} (h : b.length < 2 ^ 31) :
    Wf (create_by_reference b) := by
  unfold create_by_reference
  split
  · next hb => exact ⟨rfl, fun _ => hb, by simp [construct], h⟩
  · exact wf_construct false

@[simp] theorem content_create_by_reference (b : List UInt8) :
    (create_by_reference b).content = b := by
  unfold create_by_reference
  split
  · simp [content, construct]
  · simp_all [content, construct]

@[simp] theorem raw_create_by_reference (b : List UInt8) :
    (create_by_reference b).raw.getD [] = b := by
  unfold create_by_reference
  split
  · rfl
  · next hnil => exact (List.eq_nil_of_length_eq_zero (by omega : b.length = 0)).symm

@[simp] theorem size_create_by_reference (b : List UInt8) :
    (create_by_reference b).size = b.length := by
  unfold create_by_reference
  split
  · rfl
  · simp_all [construct]

@[simp] theorem rpos_create_by_reference (b : List UInt8) : (create_by_reference b).rpos = 0 := by
  unfold create_by_reference
  split <;> rfl

/-- A buffer of its own with `n` free bytes behind the readable ones. -/
structure HasRoom (iob : IoBuffer) (n : Nat) : Prop where
  wf : Wf iob
  alloced : iob.alloced = true
  some_raw : iob.raw.isSome = true
  room : iob.rpos + iob.size + n ≤ iob.raw_size

theorem create_spec {n : Nat} (hpos : 0 < n) (hn : n < 2 ^ 31) :
    ∃ iob, create .succeeding n = some (some iob) ∧ HasRoom iob n ∧ iob.content = [] := by
  refine ⟨⟨true, some (List.replicate n 0), n, 0, 0⟩, ?_, ⟨⟨?_, fun _ => hpos, ?_, hn⟩, rfl, rfl,
    ?_⟩, by simp [content]⟩
  · simp [create, init_by_alloc, construct, Alloc.succeeding, hpos]
  · simp
  · simp
  · simp

/-- With enough room `make_room` has nothing to do. -/
theorem make_room_free (a : Alloc) {iob : IoBuffer} {n : Nat}
    (hroom : iob.rpos + iob.size + n ≤ iob.raw_size) (hn : 0 < n) :
    make_room a iob n = some (true, iob) := by
  have h₁ : sub32 iob.raw_size iob.rpos = iob.raw_size - iob.rpos := sub32_eq (by omega)
  have h₂ : sub32 (iob.raw_size - iob.rpos) iob.size = iob.raw_size - iob.rpos - iob.size :=
    sub32_eq (by omega)
  unfold make_room
  simp only [if_neg (show ¬ iob.rpos = iob.raw_size by omega), h₁, h₂]
  rw [if_neg (by omega)]

theorem make_room_of_room {a : Alloc} {iob : IoBuffer} {n : Nat} (h : HasRoom iob n)
    (hn : 0 < n) : make_room a iob n = some (true, iob) :=
  make_room_free a h.room hn

/-- The bytes before the window. -/
def behind (iob : IoBuffer) : List UInt8 := (iob.raw.getD []).take iob.rpos

/-- A write of `n` bytes computes no sum beyond `uint32_t`: `clear` at the
    end of the block comes first, and each sum is computed on its path only. -/
def RoomFits (iob : IoBuffer) (n : Nat) : Prop :=
  iob.raw.isSome = true →
    let rpos := if iob.rpos = iob.raw_size then 0 else iob.rpos
    n > iob.raw_size - rpos - iob.size →
      n + iob.size < 2 ^ 32 ∧
      (¬ n + iob.size < iob.raw_size →
        iob.raw_size + n < 2 ^ 32 ∧ (iob.raw_size + n) / 2 * 3 < 2 ^ 32)

instance (iob : IoBuffer) (n : Nat) : Decidable (RoomFits iob n) :=
  inferInstanceAs (Decidable (_ → _ → _))

/-- The window at the end of the block is empty and goes to its start. -/
theorem unwound {iob : IoBuffer} (h : Fits iob) :
    ∃ r, r + iob.size ≤ iob.raw_size ∧ (if iob.rpos = iob.raw_size then 0 else iob.rpos) = r ∧
      (if iob.rpos = iob.raw_size then iob.clear else iob) = { iob with rpos := r } ∧
      ((iob.raw.getD []).drop r).take iob.size = iob.content ∧
      (iob.raw.getD []).take r <:+ iob.behind := by
  have hwin := h.window
  by_cases he : iob.rpos = iob.raw_size
  · have h0 : iob.size = 0 := by omega
    refine ⟨0, by omega, if_pos he, ?_, ?_, List.nil_suffix⟩
    · rw [if_pos he]
      show ({ iob with size := 0, rpos := 0 } : IoBuffer) = _
      rw [← h0]
    · rw [content_of_size_zero h0, h0, List.take_zero]
  · exact ⟨iob.rpos, hwin, if_neg he, if_neg he, rfl, List.suffix_rfl⟩

/-- **Make room.** The readable bytes stay; of the bytes before the window
    all or none. -/
theorem make_room_fits {iob : IoBuffer} {n : Nat} (h : Fits iob) (hraw : iob.raw.isSome = true)
    (hn : RoomFits iob n) :
    ∃ iob', make_room .succeeding iob n = some (true, iob') ∧ Fits iob' ∧
      iob'.alloced = iob.alloced ∧ iob'.raw.isSome = true ∧
      iob'.rpos + iob'.size + n ≤ iob'.raw_size ∧ iob'.content = iob.content ∧
      iob'.behind <:+ iob.behind ∧
      (iob'.raw_size = iob.raw_size ∨
        iob.raw_size ≤ n + iob.size ∧ iob'.raw_size = (iob.raw_size + n) / 2 * 3) := by
  obtain ⟨r, hr, hstart, hclear, hcontent, hbehind⟩ := unwound h
  obtain ⟨block, hblock⟩ := Option.isSome_iff_exists.mp hraw
  have hlen := h.block_length
  have hpos := h.block_pos hraw
  have hcap := h.capacity_lt
  have hsums := hn hraw
  simp only [hstart] at hsums
  rw [hblock, Option.getD_some] at hlen hcontent hbehind
  -- what is free behind the window, once it starts at `r`
  have hfree : sub32 (sub32 iob.raw_size r) iob.size = iob.raw_size - r - iob.size := by
    have h₁ : sub32 iob.raw_size r = iob.raw_size - r := sub32_eq (by omega)
    rw [h₁, sub32_eq (by omega)]
  unfold make_room
  rw [hclear]
  simp only [hfree]
  by_cases hroom : n > iob.raw_size - r - iob.size
  · rw [if_pos hroom]
    obtain ⟨hsum, hgrow⟩ := hsums hroom
    have hadd : add32 n iob.size = n + iob.size := add32_eq hsum
    rw [hadd]
    by_cases hmove : n + iob.size < iob.raw_size
    · -- memmove to the front
      rw [if_pos hmove]
      have hcl : iob.content.length = iob.size := by
        rw [← hcontent, List.length_take, List.length_drop]
        omega
      have hl : load block r iob.size = some iob.content := by
        unfold load
        rw [if_pos (by omega), hcontent]
      have hs : store block 0 iob.content = some (iob.content ++ block.drop iob.size) := by
        unfold store
        rw [if_pos (by omega), hcl, List.take_zero, List.nil_append, Nat.zero_add]
      refine ⟨{ iob with raw := some (iob.content ++ block.drop iob.size), rpos := 0 }, ?_,
        ⟨?_, fun _ => hpos, ?_, hcap⟩, rfl, rfl, ?_, ?_, List.nil_suffix, Or.inl rfl⟩
      · simp [hblock, hl, hs]
      · show (iob.content ++ block.drop iob.size).length = iob.raw_size
        rw [List.length_append, List.length_drop, hcl]
        omega
      · show 0 + iob.size ≤ iob.raw_size
        omega
      · show 0 + iob.size + n ≤ iob.raw_size
        omega
      · show (iob.content ++ block.drop iob.size).take iob.size = iob.content
        rw [List.take_append_of_le_length (by omega), List.take_of_length_le (by omega)]
    · -- pump_realloc
      rw [if_neg hmove]
      obtain ⟨hsum', hsize⟩ := hgrow hmove
      have hadd' : add32 iob.raw_size n = iob.raw_size + n := add32_eq hsum'
      have hnew : (iob.raw_size + n) / 2 * 3 % 2 ^ 32 = (iob.raw_size + n) / 2 * 3 :=
        Nat.mod_eq_of_lt hsize
      have hge : iob.raw_size + n ≤ (iob.raw_size + n) / 2 * 3 := by omega
      rw [hadd', hnew]
      have htake : block.take ((iob.raw_size + n) / 2 * 3) = block :=
        List.take_of_length_le (by omega)
      simp only [Alloc.succeeding, if_true, hblock, Option.getD_some, htake]
      refine ⟨_, rfl, ⟨?_, fun _ => ?_, ?_, ?_⟩, rfl, rfl, ?_, ?_, ?_, Or.inr ⟨by omega, rfl⟩⟩
      · show (block ++ List.replicate _ 0).length = _
        rw [List.length_append, List.length_replicate]
        show _ = (iob.raw_size + n) / 2 * 3
        omega
      · show 0 < (iob.raw_size + n) / 2 * 3
        omega
      · show r + iob.size ≤ (iob.raw_size + n) / 2 * 3
        omega
      · exact hsize
      · show r + iob.size + n ≤ (iob.raw_size + n) / 2 * 3
        omega
      · show ((block ++ List.replicate _ 0).drop r).take iob.size = iob.content
        rw [List.drop_append_of_le_length (by omega), List.take_append_of_le_length
          (by rw [List.length_drop]; omega), hcontent]
      · show (block ++ List.replicate _ 0).take r <:+ iob.behind
        rw [List.take_append_of_le_length (by omega)]
        exact hbehind
  · rw [if_neg hroom]
    have hgetD : iob.raw.getD [] = block := by rw [hblock, Option.getD_some]
    refine ⟨{ iob with rpos := r }, rfl, ⟨h.block_length, h.block_pos, hr, hcap⟩, rfl, hraw, ?_, ?_,
      ?_, Or.inl rfl⟩
    · show r + iob.size + n ≤ iob.raw_size
      omega
    · show ((iob.raw.getD []).drop r).take iob.size = iob.content
      rw [hgetD, hcontent]
    · show (iob.raw.getD []).take r <:+ iob.behind
      rw [hgetD]
      exact hbehind

/-- Otherwise it moves the readable bytes to the front or reallocates. -/
theorem make_room_spec {iob : IoBuffer} {n : Nat} (h : Wf iob) (ha : iob.alloced = true)
    (hraw : iob.raw.isSome = true) (hn : iob.size + n < 2 ^ 28) :
    ∃ iob', make_room .succeeding iob n = some (true, iob') ∧ HasRoom iob' n ∧
      iob'.content = iob.content := by
  have hcap := h.capacity_lt
  have hfits : RoomFits iob n := by
    intro _ _ _
    refine ⟨by omega, fun _ => ?_⟩
    omega
  obtain ⟨iob', h', hf, ha', hraw', hroom, hc, -, hsize⟩ := make_room_fits h.fits hraw hfits
  refine ⟨iob', h', ⟨⟨hf.block_length, hf.block_pos, hf.window, ?_⟩, ha'.trans ha, hraw', hroom⟩, hc⟩
  rcases hsize with hsame | ⟨hle, hgrown⟩
  · omega
  · omega

/-- **Append.** The bytes go behind the readable ones. -/
theorem append_fits (bytes : List UInt8) {iob : IoBuffer} (h : Fits iob)
    (hraw : iob.raw.isSome = true) (hroom : iob.rpos + iob.size + bytes.length ≤ iob.raw_size) :
    ∃ iob', append iob bytes = some (true, iob') ∧ Fits iob' ∧ iob'.alloced = iob.alloced ∧
      iob'.raw.isSome = true ∧ iob'.raw_size = iob.raw_size ∧ iob'.rpos = iob.rpos ∧
      iob'.size = iob.size + bytes.length ∧ iob'.content = iob.content ++ bytes ∧
      iob'.behind = iob.behind := by
  obtain ⟨alloced, raw, raw_size, size, rpos⟩ := iob
  obtain ⟨hlen, hpos, hwin, hcap⟩ := h
  obtain ⟨block, rfl⟩ := Option.isSome_iff_exists.mp hraw
  simp only [Option.getD_some] at hlen hwin hcap hroom
  have hs : store block (rpos + size) bytes = some (block.take (rpos + size) ++ bytes ++
      block.drop (rpos + size + bytes.length)) := by
    unfold store
    rw [if_pos (by omega)]
  have hadd : add32 size bytes.length = size + bytes.length := add32_eq (by omega)
  refine ⟨⟨alloced, some (block.take (rpos + size) ++ bytes ++
      block.drop (rpos + size + bytes.length)), raw_size, size + bytes.length, rpos⟩,
    by simp [append, hs, hadd], ⟨?_, fun _ => hpos rfl, ?_, hcap⟩, rfl, rfl, rfl, rfl, rfl, ?_, ?_⟩
  · simp
    omega
  · simp only
    omega
  · have hdrop : (block.take (rpos + size)).drop rpos = (block.drop rpos).take size := by
      rw [List.drop_take]
      congr 1
      omega
    have hl : ((block.drop rpos).take size).length = size := by simp; omega
    simp only [content, Option.getD_some, List.append_assoc]
    rw [List.drop_append_of_le_length (by simp; omega), hdrop, ← List.append_assoc,
      List.take_append_of_le_length (by simp; omega), List.take_of_length_le (by simp [hl])]
  · simp only [behind, Option.getD_some, List.append_assoc]
    rw [List.take_append_of_le_length (by simp; omega), List.take_take, Nat.min_eq_left (by omega)]

theorem append_spec (bytes : List UInt8) {iob : IoBuffer} {n : Nat} (h : HasRoom iob n)
    (hn : bytes.length ≤ n) :
    ∃ iob', append iob bytes = some (true, iob') ∧ HasRoom iob' (n - bytes.length) ∧
      iob'.content = iob.content ++ bytes := by
  have hroom := h.room
  have hcap := h.wf.capacity_lt
  obtain ⟨iob', h', hf, ha, hraw, hcap', hrpos, hsize, hc, -⟩ :=
    append_fits bytes h.wf.fits h.some_raw (by omega)
  refine ⟨iob', h', ⟨⟨hf.block_length, hf.block_pos, hf.window, by omega⟩, ha.trans h.alloced, hraw,
    by omega⟩, hc⟩

theorem write_of_room {a : Alloc} {iob : IoBuffer} {b : List UInt8} {n : Nat}
    (h : HasRoom iob n) (hb : b ≠ []) (hn : b.length ≤ n) :
    ∃ iob', write a iob b = some (true, iob') ∧ HasRoom iob' (n - b.length) ∧
      iob'.content = iob.content ++ b := by
  have hpos : 0 < b.length := List.length_pos_iff.mpr hb
  have hroom : HasRoom iob b.length := ⟨h.wf, h.alloced, h.some_raw, by have := h.room; omega⟩
  have hraw : iob.raw.isNone = false := by simpa using h.some_raw
  obtain ⟨iob', h', hroom', hc⟩ := append_spec b h hn
  refine ⟨iob', ?_, hroom', hc⟩
  unfold write
  simp [h.alloced, hb, hraw, make_room_of_room hroom hpos, h']

theorem write_fill_of_room {a : Alloc} {iob : IoBuffer} {b : UInt8} {n count : Nat}
    (h : HasRoom iob n) (hpos : 0 < count) (hn : count ≤ n) :
    ∃ iob', write_fill a iob b count = some (true, iob') ∧ HasRoom iob' (n - count) ∧
      iob'.content = iob.content ++ List.replicate count b := by
  have hroom : HasRoom iob count := ⟨h.wf, h.alloced, h.some_raw, by have := h.room; omega⟩
  have hraw : iob.raw.isNone = false := by simpa using h.some_raw
  obtain ⟨iob', h', hroom', hc⟩ :=
    append_spec (List.replicate count b) h (by simpa using hn)
  refine ⟨iob', ?_, by simpa using hroom', hc⟩
  unfold write_fill
  simp [h.alloced, hraw, make_room_of_room hroom hpos, h', Nat.ne_of_gt hpos]

/-- The `raw_ == nullptr` branch of the writes. -/
theorem init_by_alloc_fits {iob : IoBuffer} {n : Nat} (h : Fits iob) (ha : iob.alloced = true)
    (hraw : iob.raw.isNone = true) (hpos : 0 < n) (hn : n < 2 ^ 32) :
    ∃ iob', init_by_alloc .succeeding iob n = some (true, iob') ∧ Fits iob' ∧
      iob'.alloced = true ∧ iob'.raw.isSome = true ∧ iob'.rpos + iob'.size + n ≤ iob'.raw_size ∧
      iob'.rpos = 0 ∧ iob'.content = iob.content := by
  obtain ⟨alloced, raw, raw_size, size, rpos⟩ := iob
  obtain rfl : alloced = true := ha
  obtain rfl : raw = none := Option.isNone_iff_eq_none.mp hraw
  have hlen := h.block_length
  have hwin := h.window
  simp only [Option.getD_none, List.length_nil] at hlen hwin
  obtain rfl : size = 0 := by omega
  obtain rfl : rpos = 0 := by omega
  refine ⟨⟨true, some (List.replicate n 0), n, 0, 0⟩, rfl, ⟨List.length_replicate, fun _ => hpos,
    Nat.zero_le n, hn⟩, rfl, rfl, ?_, rfl, ?_⟩
  · show 0 + 0 + n ≤ n
    omega
  · simp [content]

/-- With sizes in range, too. -/
theorem init_by_alloc_spec {iob : IoBuffer} {n : Nat} (h : Wf iob) (ha : iob.alloced = true)
    (hraw : iob.raw = none) (hpos : 0 < n) (hn : n < 2 ^ 28) :
    ∃ iob', init_by_alloc .succeeding iob n = some (true, iob') ∧ HasRoom iob' n ∧
      iob'.size = iob.size ∧ iob'.content = iob.content := by
  obtain ⟨alloced, raw, raw_size, size, rpos⟩ := iob
  simp only at ha hraw
  subst ha hraw
  have hlen := h.block_length
  have hwin := h.window
  simp only [Option.getD_none, List.length_nil] at hlen hwin
  have hsz : size = 0 := by omega
  have hrp : rpos = 0 := by omega
  subst hsz hrp
  refine ⟨⟨true, some (List.replicate n 0), n, 0, 0⟩, rfl,
    ⟨⟨List.length_replicate, fun _ => hpos, Nat.zero_le _, ?_⟩, rfl, rfl, ?_⟩, rfl, rfl⟩
  · simp only
    omega
  · simp

/-- **Write.** With allocations succeeding and sizes in range, a write
    appends its bytes to the readable ones. -/
theorem write_spec {iob : IoBuffer} {b : List UInt8} (h : Wf iob) (ha : iob.alloced = true)
    (hb : b ≠ []) (hn : iob.size + b.length < 2 ^ 28) :
    ∃ iob', write .succeeding iob b = some (true, iob') ∧ Wf iob' ∧ iob'.alloced = true ∧
      iob'.content = iob.content ++ b := by
  have hpos : 0 < b.length := List.length_pos_iff.mpr hb
  obtain ⟨iob₁, h₁, hwf₁, ha₁, hraw₁, hsize₁, hc₁⟩ : ∃ iob₁,
      (if iob.raw.isNone then init_by_alloc .succeeding iob b.length else some (true, iob)) =
        some (true, iob₁) ∧ Wf iob₁ ∧ iob₁.alloced = true ∧ iob₁.raw.isSome = true ∧
        iob₁.size = iob.size ∧ iob₁.content = iob.content := by
    cases hraw : iob.raw with
    | none =>
      obtain ⟨iob₁, h₁, hroom, hsize, hc⟩ := init_by_alloc_spec h ha hraw hpos (by omega)
      exact ⟨iob₁, by simpa using h₁, hroom.wf, hroom.alloced, hroom.some_raw, hsize, hc⟩
    | some block => exact ⟨iob, by simp, h, ha, by simp [hraw], rfl, rfl⟩
  obtain ⟨iob₂, h₂, hroom₂, hc₂⟩ := make_room_spec hwf₁ ha₁ hraw₁ (n := b.length) (by omega)
  obtain ⟨iob₃, h₃, hroom₃, hc₃⟩ := append_spec b hroom₂ (Nat.le_refl _)
  refine ⟨iob₃, ?_, hroom₃.wf, hroom₃.alloced, by rw [hc₃, hc₂, hc₁]⟩
  unfold write
  simp only [ha, hb, h₁, h₂, h₃, Option.bind_eq_bind, Option.bind_some, Bool.not_true,
    Bool.false_eq_true, if_false]

/-- Whatever sums wrap, room made for `n` bytes leaves the readable bytes if
    it leaves them in the block. -/
theorem make_room_sound {iob iob' : IoBuffer} {n : Nat} (h : Fits iob) (hraw : iob.raw.isSome = true)
    (he : make_room .succeeding iob n = some (true, iob')) :
    iob'.alloced = iob.alloced ∧ iob'.raw.isSome = true ∧
      (iob'.raw.getD []).length = iob'.raw_size ∧ iob'.raw_size < 2 ^ 32 ∧
      (iob'.rpos + iob'.size ≤ iob'.raw_size → iob'.content = iob.content) := by
  obtain ⟨r, hr, -, hclear, hcontent, -⟩ := unwound h
  obtain ⟨block, hblock⟩ := Option.isSome_iff_exists.mp hraw
  have hlen := h.block_length
  have hcap := h.capacity_lt
  have hgetD : iob.raw.getD [] = block := by rw [hblock, Option.getD_some]
  rw [hgetD] at hlen hcontent
  unfold make_room at he
  rw [hclear] at he
  simp only at he
  split at he
  · split at he
    · -- memmove to the front
      have hcl : iob.content.length = iob.size := h.content_length
      have hl : load block r iob.size = some iob.content := by
        unfold load
        rw [if_pos (by omega), hcontent]
      have hs : store block 0 iob.content = some (iob.content ++ block.drop iob.size) := by
        unfold store
        rw [if_pos (by omega), hcl, List.take_zero, List.nil_append, Nat.zero_add]
      simp only [hblock, hl, hs, Option.bind_eq_bind, Option.bind_some, Option.some.injEq,
        Prod.mk.injEq, true_and] at he
      subst he
      refine ⟨rfl, rfl, ?_, hcap, fun _ => ?_⟩
      · show (iob.content ++ block.drop iob.size).length = iob.raw_size
        rw [List.length_append, List.length_drop, hcl]
        omega
      · show (iob.content ++ block.drop iob.size).take iob.size = iob.content
        rw [List.take_append_of_le_length (by omega), List.take_of_length_le (by omega)]
    · -- pump_realloc
      obtain ⟨new_size, hnew⟩ : ∃ k, k = add32 iob.raw_size n / 2 * 3 % 2 ^ 32 := ⟨_, rfl⟩
      have hlt : new_size < 2 ^ 32 := by
        rw [hnew]
        exact Nat.mod_lt _ (by omega)
      rw [← hnew] at he
      simp only [Alloc.succeeding, if_true, hgetD, Option.some.injEq, Prod.mk.injEq, true_and] at he
      subst he
      refine ⟨rfl, rfl, ?_, hlt, ?_⟩
      · show (block.take new_size ++ List.replicate (new_size - block.length) 0).length = new_size
        rw [List.length_append, List.length_take, List.length_replicate]
        omega
      · intro hwin
        replace hwin : r + iob.size ≤ new_size := hwin
        show ((block.take new_size ++ List.replicate (new_size - block.length) 0).drop r).take
          iob.size = iob.content
        have hle : (block.take new_size).length = min new_size block.length := List.length_take
        rw [List.drop_append_of_le_length (by omega), List.take_append_of_le_length
          (by rw [List.length_drop]; omega), List.drop_take, List.take_take,
          Nat.min_eq_left (by omega), hcontent]
  · cases he
    refine ⟨rfl, hraw, h.block_length, hcap, fun _ => ?_⟩
    show ((iob.raw.getD []).drop r).take iob.size = iob.content
    rw [hgetD, hcontent]

/-- A write that stays in the memory block appends its bytes. -/
theorem write_sound {iob iob' : IoBuffer} {b : List UInt8} (h : Fits iob)
    (hlen : b.length < 2 ^ 32) (he : write .succeeding iob b = some (true, iob')) :
    Fits iob' ∧ iob'.alloced = true ∧ iob'.content = iob.content ++ b := by
  unfold write at he
  split at he
  · cases he
  · next halloced =>
    have ha : iob.alloced = true := by simpa using halloced
    split at he
    · cases he
    · next hb =>
      have hpos : 0 < b.length := List.length_pos_iff.mpr hb
      simp only [Option.bind_eq_bind, Option.bind_eq_some_iff, Prod.exists] at he
      obtain ⟨ok₁, iob₁, h₁, he⟩ := he
      obtain ⟨hf₁, ha₁, hraw₁, hc₁⟩ : Fits iob₁ ∧ iob₁.alloced = true ∧ iob₁.raw.isSome = true ∧
          iob₁.content = iob.content := by
        split at h₁
        · next hraw =>
          obtain ⟨iob₂, h₂, hf, ha₂, hraw₂, -, -, hc⟩ := init_by_alloc_fits h ha hraw hpos hlen
          rw [h₂] at h₁
          cases h₁
          exact ⟨hf, ha₂, hraw₂, hc⟩
        · next hraw =>
          cases h₁
          refine ⟨h, ha, ?_, rfl⟩
          rwa [← Option.not_isSome, Bool.not_eq_true, Bool.not_eq_false'] at hraw
      split at he
      · cases he
      · simp only [Option.bind_eq_some_iff, Prod.exists] at he
        obtain ⟨ok₂, iob₂, h₂, he⟩ := he
        split at he
        · cases he
        · next hok =>
          obtain rfl : ok₂ = true := by simpa using hok
          obtain ⟨ha₂, hraw₂, hlen₂, hcap₂, hc₂⟩ := make_room_sound hf₁ hraw₁ h₂
          -- the store behind the readable bytes is in the block
          have hroom : iob₂.rpos + iob₂.size + b.length ≤ iob₂.raw_size := by
            simp only [append, Option.bind_eq_bind, Option.bind_eq_some_iff] at he
            obtain ⟨block, hblock, block', hstore, -⟩ := he
            rw [hblock, Option.getD_some] at hlen₂
            unfold store at hstore
            split at hstore
            · omega
            · cases hstore
          have hf₂ : Fits iob₂ := ⟨hlen₂, fun _ => by omega, by omega, hcap₂⟩
          obtain ⟨iob₃, h₃, hf₃, ha₃, -, -, -, -, hc₃, -⟩ := append_fits b hf₂ hraw₂ hroom
          rw [h₃] at he
          cases he
          exact ⟨hf₃, by rw [ha₃, ha₂, ha₁], by rw [hc₃, hc₂ (by omega), hc₁]⟩

/-- With allocations succeeding, a write of some bytes is not refused. -/
theorem write_not_refused {iob iob' : IoBuffer} {b : List UInt8} {ok : Bool} (hb : b ≠ [])
    (he : write .succeeding iob b = some (ok, iob')) : ok = true := by
  have happend : ∀ {iob iob' : IoBuffer} {ok : Bool}, append iob b = some (ok, iob') → ok = true := by
    intro iob iob' ok h
    simp only [append, Option.bind_eq_bind, Option.bind_eq_some_iff] at h
    obtain ⟨block, -, block', -, h⟩ := h
    cases h
    rfl
  unfold write at he
  split at he
  · cases he
  · simp only [Option.bind_eq_bind, Option.bind_eq_some_iff, Prod.exists] at he
    obtain ⟨ok₁, iob₁, h₁, he⟩ := he
    have hok₁ : ok₁ = true := by
      split at h₁
      · unfold init_by_alloc at h₁
        split at h₁
        · cases h₁
        · cases h₁
          rfl
      · cases h₁
        rfl
    rw [hok₁] at he
    simp only [Bool.not_true, Bool.false_eq_true, if_false, Option.bind_eq_some_iff,
      Prod.exists] at he
    obtain ⟨ok₂, iob₂, h₂, he⟩ := he
    have hok₂ : ok₂ = true := by
      unfold make_room at h₂
      generalize (if iob₁.rpos = iob₁.raw_size then iob₁.clear else iob₁) = cleared at h₂
      simp only at h₂
      split at h₂
      · split at h₂
        · simp only [Option.bind_eq_bind, Option.bind_eq_some_iff] at h₂
          obtain ⟨block, -, bytes, -, block', -, h₂⟩ := h₂
          cases h₂
          rfl
        · rw [if_pos (show Alloc.succeeding.realloc = true from rfl)] at h₂
          cases h₂
          rfl
      · cases h₂
        rfl
    rw [hok₂] at he
    exact happend he

/-! ## Section 5: A buffer that is only written to -/

theorem init_by_alloc_rpos {a : Alloc} {iob iob' : IoBuffer} {n : Nat} {ok : Bool}
    (h : init_by_alloc a iob n = some (ok, iob')) : iob'.rpos = iob.rpos := by
  unfold init_by_alloc at h
  split at h
  · contradiction
  · split at h
    · cases h
      rfl
    · cases h
      rfl

theorem create_rpos {a : Alloc} {n : Nat} {iob : IoBuffer}
    (h : create a n = some (some iob)) : iob.rpos = 0 := by
  unfold create at h
  split at h
  · cases h
  · split at h
    · obtain ⟨⟨ok, iob₁⟩, h₁, h₂⟩ := Option.map_eq_some_iff.mp h
      have hr := init_by_alloc_rpos h₁
      split at h₂
      · cases h₂
        exact hr
      · contradiction
    · cases h
      rfl

theorem make_room_rpos {a : Alloc} {iob iob' : IoBuffer} {n : Nat} {ok : Bool}
    (h0 : iob.rpos = 0) (h : make_room a iob n = some (ok, iob')) : iob'.rpos = 0 := by
  have hclear : (if iob.rpos = iob.raw_size then iob.clear else iob).rpos = 0 := by
    split
    · rfl
    · exact h0
  unfold make_room at h
  generalize (if iob.rpos = iob.raw_size then iob.clear else iob) = cleared at h hclear
  simp only at h
  split at h
  · split at h
    · simp only [Option.bind_eq_bind, Option.bind_eq_some_iff] at h
      obtain ⟨block, -, bytes, -, block', -, h⟩ := h
      cases h
      rfl
    · split at h
      · cases h
        exact hclear
      · cases h
        exact hclear
  · cases h
    exact hclear

theorem append_rpos {iob iob' : IoBuffer} {bytes : List UInt8} {ok : Bool}
    (h : append iob bytes = some (ok, iob')) : iob'.rpos = iob.rpos := by
  simp only [append, Option.bind_eq_bind, Option.bind_eq_some_iff] at h
  obtain ⟨block, -, block', -, h⟩ := h
  cases h
  rfl

/-- Writing leaves the read position at the start. -/
theorem write_rpos {a : Alloc} {iob iob' : IoBuffer} {b : List UInt8} {ok : Bool}
    (h0 : iob.rpos = 0) (h : write a iob b = some (ok, iob')) : iob'.rpos = 0 := by
  unfold write at h
  split at h
  · contradiction
  · split at h
    · cases h
      exact h0
    · simp only [Option.bind_eq_bind, Option.bind_eq_some_iff, Prod.exists] at h
      obtain ⟨ok₁, iob₁, h₁, h⟩ := h
      have hr₁ : iob₁.rpos = 0 := by
        split at h₁
        · rw [init_by_alloc_rpos h₁, h0]
        · cases h₁
          exact h0
      split at h
      · cases h
        exact hr₁
      · simp only [Option.bind_eq_some_iff, Prod.exists] at h
        obtain ⟨ok₂, iob₂, h₂, h⟩ := h
        have hr₂ := make_room_rpos hr₁ h₂
        split at h
        · cases h
          exact hr₂
        · rw [append_rpos h, hr₂]

theorem write_fill_rpos {a : Alloc} {iob iob' : IoBuffer} {b : UInt8} {count : Nat} {ok : Bool}
    (h0 : iob.rpos = 0) (h : write_fill a iob b count = some (ok, iob')) : iob'.rpos = 0 := by
  unfold write_fill at h
  split at h
  · contradiction
  · split at h
    · cases h
      exact h0
    · simp only [Option.bind_eq_bind, Option.bind_eq_some_iff, Prod.exists] at h
      obtain ⟨ok₁, iob₁, h₁, h⟩ := h
      have hr₁ : iob₁.rpos = 0 := by
        split at h₁
        · rw [init_by_alloc_rpos h₁, h0]
        · exact make_room_rpos h0 h₁
      split at h
      · cases h
        exact hr₁
      · rw [append_rpos h, hr₁]

/-- Storing the readable bytes where they are changes nothing. -/
theorem store_content {iob : IoBuffer} (h : Wf iob) :
    store (iob.raw.getD []) iob.rpos iob.content = some (iob.raw.getD []) := by
  have hlen := content_length h
  have hblock := h.block_length
  have hwin := h.window
  unfold store
  rw [if_pos (by omega), hlen]
  congr 1
  unfold content
  rw [← List.drop_drop, List.append_assoc, List.take_append_drop, List.take_append_drop]

/-! ## Section 6: Reading -/

/-- The buffer after its first `n` readable bytes are consumed. -/
def advance (iob : IoBuffer) (n : Nat) : IoBuffer :=
  { iob with rpos := iob.rpos + n, size := iob.size - n }

@[simp] theorem advance_zero (iob : IoBuffer) : iob.advance 0 = iob := rfl

@[simp] theorem advance_size (iob : IoBuffer) (n : Nat) : (iob.advance n).size = iob.size - n := rfl

@[simp] theorem advance_alloced (iob : IoBuffer) (n : Nat) :
    (iob.advance n).alloced = iob.alloced := rfl

theorem advance_advance (iob : IoBuffer) (m n : Nat) :
    (iob.advance m).advance n = iob.advance (m + n) := by
  simp [advance, Nat.add_assoc, Nat.sub_sub]

theorem wf_advance {iob : IoBuffer} (h : Wf iob) {n : Nat} (hn : n ≤ iob.size) :
    Wf (iob.advance n) := by
  have := h.window
  refine ⟨h.block_length, h.block_pos, ?_, h.capacity_lt⟩
  simp only [advance]
  omega

theorem content_advance (iob : IoBuffer) (n : Nat) :
    (iob.advance n).content = iob.content.drop n := by
  simp [content, advance, List.drop_take, Nat.add_comm]

theorem fits_advance {iob : IoBuffer} (h : Fits iob) {n : Nat} (hn : n ≤ iob.size) :
    Fits (iob.advance n) := by
  have := h.window
  refine ⟨h.block_length, h.block_pos, ?_, h.capacity_lt⟩
  show iob.rpos + n + (iob.size - n) ≤ iob.raw_size
  omega

theorem behind_advance (iob : IoBuffer) {n : Nat} (hn : n ≤ iob.size) :
    (iob.advance n).behind = iob.behind ++ iob.content.take n := by
  unfold behind content
  rw [List.take_take, Nat.min_eq_left hn]
  exact List.take_add

theorem read_fits {iob : IoBuffer} (h : Fits iob) {n : Nat} (hn : n ≤ iob.size) :
    read iob n = some (some (iob.content.take n), iob.advance n) := by
  have hlen := h.block_length
  have hwin := h.window
  have hcap := h.capacity_lt
  have hload : load (iob.raw.getD []) iob.rpos n = some (iob.content.take n) := by
    unfold load
    rw [if_pos (by omega), content, List.take_take, Nat.min_eq_left hn]
  have hr : add32 iob.rpos n = iob.rpos + n := add32_eq (by omega)
  have hs : sub32 iob.size n = iob.size - n := sub32_eq hn
  unfold read
  rw [if_neg (by omega)]
  simp [hload, hr, hs, advance]

theorem read_spec {iob : IoBuffer} (h : Wf iob) {n : Nat} (hn : n ≤ iob.size) :
    read iob n = some (some (iob.content.take n), iob.advance n) :=
  read_fits h.fits hn

theorem read_short {iob : IoBuffer} {n : Nat} (hn : iob.size < n) :
    read iob n = some (none, iob) := by
  unfold read
  rw [if_pos hn]

theorem read_one_fits {iob : IoBuffer} (h : Fits iob) {c : UInt8} {rest : List UInt8}
    (hc : iob.content = c :: rest) : read_one iob = some (some c, iob.advance 1) := by
  have hlen := h.block_length
  have hwin := h.window
  have hcap := h.capacity_lt
  have hsize : iob.size = rest.length + 1 := by rw [← h.content_length, hc]; rfl
  have hget : (iob.raw.getD [])[iob.rpos]? = some c := by
    have h0 : iob.content[0]? = some c := by rw [hc]; rfl
    simpa [content, List.getElem?_take, List.getElem?_drop, hsize] using h0
  have hr : add32 iob.rpos 1 = iob.rpos + 1 := add32_eq (by omega)
  have hs : sub32 iob.size 1 = iob.size - 1 := sub32_eq (by omega)
  unfold read_one
  rw [if_neg (by omega)]
  simp [hget, hr, hs, advance]

theorem read_one_spec {iob : IoBuffer} (h : Wf iob) {c : UInt8} {rest : List UInt8}
    (hc : iob.content = c :: rest) : read_one iob = some (some c, iob.advance 1) :=
  read_one_fits h.fits hc

theorem read_one_empty {iob : IoBuffer} (h : iob.size = 0) :
    read_one iob = some (none, iob) := by
  unfold read_one
  rw [if_pos (by omega)]

/-- Shifting forward consumes bytes. -/
theorem shift_advance {iob : IoBuffer} (h : Fits iob) (hsize : iob.size < 2 ^ 31) {n : Nat}
    (hn : n ≤ iob.size) : (shift iob n).2 = iob.advance n := by
  have hwin := h.window
  have hcap := h.capacity_lt
  have hs : toI32 iob.size = iob.size := toI32_eq hsize
  have h₁ : ofI32 (iob.rpos + n) = iob.rpos + n := ofI32_eq (by omega) (by omega)
  have h₂ : ofI32 (iob.size - n) = iob.size - n := ofI32_eq (by omega) (by omega)
  unfold shift
  rw [h₁, h₂, hs]
  by_cases hpos : (n : Int) > 0
  · rw [if_pos hpos, if_neg (by omega)]
    rfl
  · -- a shift by nothing, refused or not
    have hsame : iob.advance n = iob := by
      have h0 : n = 0 := by omega
      rw [h0, advance_zero]
    rw [if_neg hpos, apply_ite Prod.snd]
    exact (ite_congr rfl (fun _ => hsame.symm) fun _ => rfl).trans (ite_self _)

theorem shift_forward {iob : IoBuffer} (h : Wf iob) {n : Nat} (hn : n ≤ iob.size) :
    (shift iob n).2 = iob.advance n := by
  have hwin := h.window
  have hcap := h.capacity_lt
  exact shift_advance h.fits (by omega) hn

/-- The fields that `shift` writes when it moves back by what was read. -/
theorem moved_back {iob : IoBuffer} (h : Fits iob) {n : Nat} (hn : n ≤ iob.size) :
    ({ iob.advance n with
      rpos := ofI32 ((iob.advance n).rpos + -n)
      size := ofI32 ((iob.advance n).size - -n) } : IoBuffer) = iob := by
  have hwin := h.window
  have hcap := h.capacity_lt
  have h₁ : ofI32 ((iob.advance n).rpos + -n) = iob.rpos := by
    unfold ofI32 advance
    simp only
    omega
  have h₂ : ofI32 ((iob.advance n).size - -n) = iob.size := by
    unfold ofI32 advance
    simp only
    omega
  rw [h₁, h₂]
  rfl

/-- Shifting back by what was read undoes the reads. -/
theorem shift_back {iob : IoBuffer} (h : Wf iob) {n : Nat} (hn : n ≤ iob.size) :
    (shift (iob.advance n) (toI32 (sub32 (iob.advance n).size iob.size))).2 = iob := by
  have hwin := h.window
  have hcap := h.capacity_lt
  have hback : toI32 (sub32 (iob.advance n).size iob.size) = -n := by
    rw [toI32_sub32 (by rw [advance_size]; omega) (by omega), advance_size]
    omega
  have hr : toI32 (iob.advance n).rpos = iob.rpos + n := by
    rw [toI32_eq (by simp only [advance]; omega)]
    rfl
  have hneg : (-(-(n : Int))).bmod (2 ^ 32) = n := by
    rw [Int.bmod_def]
    omega
  rw [hback]
  unfold shift
  rw [moved_back h.fits hn, hr, hneg, if_neg (by omega), if_neg (by omega)]

end IoBuffer

end Pump
