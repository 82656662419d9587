import Pump.Toolkit.IoBuffer

/-! # frame_header

    The websocket frame header of `proto/http/frame.cpp`: how it is packed
    into an `io_buffer`, unpacked from one, and reset between frames.

    The host is little-endian (`LITTLE_ENDIAN` is defined), so a `memcpy`
    of an integer moves its bytes lowest first. -/

namespace Pump

/-! ## Section 1: Endian swaps -/

/-- `transform_endian_i16`. -/
def transform_endian_i16 (val : UInt16) : UInt16 := (val >>> 8) ||| (val <<< 8)

/-- `transform_endian_i64`. -/
def transform_endian_i64 (val : UInt64) : UInt64 :=
  ((val >>> 56) &&& (0x00000000000000ff : UInt64)) |||
  ((val >>> 40) &&& (0x000000000000ff00 : UInt64)) |||
  ((val >>> 24) &&& (0x0000000000ff0000 : UInt64)) |||
  ((val >>> 8) &&& (0x00000000ff000000 : UInt64)) |||
  ((val <<< 8) &&& (0x000000ff00000000 : UInt64)) |||
  ((val <<< 24) &&& (0x0000ff0000000000 : UInt64)) |||
  ((val <<< 40) &&& (0x00ff000000000000 : UInt64)) |||
  ((val <<< 56) &&& (0xff00000000000000 : UInt64))

/-- The bytes of an integer in memory, and back. -/
def bytes_of_i16 (l : UInt16) : List UInt8 := [l.toUInt8, (l >>> 8).toUInt8]

def bytes_of_i64 (l : UInt64) : List UInt8 :=
  [l.toUInt8, (l >>> 8).toUInt8, (l >>> 16).toUInt8, (l >>> 24).toUInt8,
    (l >>> 32).toUInt8, (l >>> 40).toUInt8, (l >>> 48).toUInt8, (l >>> 56).toUInt8]

def i16_of_bytes (b : List UInt8) : UInt16 :=
  b.foldr (fun c l => (l <<< 8) ||| c.toUInt16) 0

def i64_of_bytes (b : List UInt8) : UInt64 :=
  b.foldr (fun c l => (l <<< 8) ||| c.toUInt64) 0

/-! ## Section 2: Model -/

def wscode_slice : UInt8 := 0x00
def wscode_text : UInt8 := 0x01
def wscode_bin : UInt8 := 0x02
def wscode_close : UInt8 := 0x08
def wscode_ping : UInt8 := 0x09
def wscode_pong : UInt8 := 0x0A
def wscode_end : UInt8 := 0xFF

/-- `http::frame_header`. -/
structure FrameHeader where
  fin : Bool
  code : UInt8
  payload_len : UInt64
  key : List UInt8
  is_unpacked : Bool
  deriving DecidableEq, Repr

namespace FrameHeader

/-- The constructor with all of its arguments. -/
def construct (fin : Bool) (code : UInt8) (payload_len : UInt64) (key : List UInt8) :
    FrameHeader :=
  ⟨fin, code, payload_len, key, false⟩

/-- The default constructor. -/
def fresh : FrameHeader := construct true wscode_end 0 []

/-- `key_.resize(4)`. -/
def resize_key (key : List UInt8) : List UInt8 :=
  key.take 4 ++ List.replicate (4 - key.length) 0

/-- The length part of `unpack_header`; `false` is the `break` on a short buffer. -/
def unpack_length (h : FrameHeader) (iob : IoBuffer) : Option (Bool × FrameHeader × IoBuffer) :=
  if h.payload_len = 126 then do
    let (l, iob) ← iob.read 2
    match l with
    | none => some (false, h, iob)
    | some l =>
      let len := (transform_endian_i16 (i16_of_bytes l)).toUInt64
      some (true, { h with payload_len := len }, iob)
  else if h.payload_len = 127 then do
    let (l, iob) ← iob.read 8
    match l with
    | none => some (false, h, iob)
    | some l => some (true, { h with payload_len := transform_endian_i64 (i64_of_bytes l) }, iob)
  else
    some (true, h, iob)

/-- The key part of `unpack_header` and the final `is_unpacked_ = true`;
    `b` is the second header byte. -/
def unpack_key (h : FrameHeader) (b : UInt8) (iob : IoBuffer) : Option (FrameHeader × IoBuffer) :=
  if b &&& 0x80 > 0 then do
    let h := { h with key := resize_key h.key }
    let (k, iob) ← iob.read 4
    match k with
    | none => some (h, iob)
    | some k => some ({ h with key := k, is_unpacked := true }, iob)
  else
    some ({ h with is_unpacked := true }, iob)

/-- The `do { } while (false)` block of `unpack_header`. -/
def unpack_fields (h : FrameHeader) (iob : IoBuffer) : Option (FrameHeader × IoBuffer) := do
  let (b, iob) ← iob.read_one
  match b with
  | none => some (h, iob)
  | some b =>
    let h := { h with fin := b &&& 0x80 > 0, code := b &&& 0x0f }
    let (b, iob) ← iob.read_one
    match b with
    | none => some (h, iob)
    | some b =>
      -- the mask keeps four of the seven length bits
      let h := { h with payload_len := (b &&& 0x0f).toUInt64 }
      let (ok, h, iob) ← unpack_length h iob
      if ok then unpack_key h b iob else some (h, iob)

/-- `frame_header::unpack_header`; the source returns the new `is_unpacked`. -/
def unpack_header (h : FrameHeader) (iob : IoBuffer) : Option (FrameHeader × IoBuffer) := do
  let iob_size := iob.size
  let (h, iob) ← unpack_fields h iob
  if !h.is_unpacked then
    some (h, (iob.shift (toI32 (sub32 iob.size iob_size))).2)
  else
    some (h, iob)

/-- First header byte. -/
def first_byte (h : FrameHeader) : UInt8 := if h.fin then h.code ||| 0x80 else h.code

/-- Second header byte. -/
def second_byte (h : FrameHeader) : UInt8 :=
  (if h.key.length = 4 then 0x80 else 0) |||
    (if h.payload_len < 126 then h.payload_len.toUInt8
     else if h.payload_len ≤ 65535 then 126 else 127)

/-- The length bytes behind the second header byte. -/
def length_bytes (h : FrameHeader) : List UInt8 :=
  if h.payload_len ≥ 126 ∧ h.payload_len ≤ 65535 then
    bytes_of_i16 (transform_endian_i16 h.payload_len.toUInt16)
  else if h.payload_len > 65535 then
    bytes_of_i64 (transform_endian_i64 h.payload_len)
  else
    []

/-- One `if (!iob->write(..)) return false;` of `pack_header`. -/
def write_or_fail (a : Alloc) (bytes : List UInt8) (r : Bool × IoBuffer) :
    Option (Bool × IoBuffer) :=
  if r.1 = false ∨ bytes = [] then some r else IoBuffer.write a r.2 bytes

/-- `frame_header::pack_header`. -/
def pack_header (a : Alloc) (h : FrameHeader) (iob : IoBuffer) : Option (Bool × IoBuffer) := do
  let r ← iob.write_fill a h.first_byte 1
  if !r.1 then some r
  else
    let r ← r.2.write_fill a h.second_byte 1
    let r ← write_or_fail a h.length_bytes r
    write_or_fail a (if h.key.length = 4 then h.key else []) r

/-- The bytes of the loop of `mask_payload`. -/
def mask_bytes (key bytes : List UInt8) : List UInt8 :=
  bytes.mapIdx fun i c => c ^^^ key.getD (i % 4) 0

/-- `frame_header::mask_payload` on the pointer at offset `off` of a memory
    block; `none` when it leaves the block. -/
def mask_payload (h : FrameHeader) (block : List UInt8) (off : Int) : Option (List UInt8) :=
  if h.key.length = 4 ∧ h.payload_len ≠ 0 then
    if 0 ≤ off then do
      let bytes ← load block off.toNat h.payload_len.toNat
      store block off.toNat (mask_bytes h.key bytes)
    else
      none
  else
    some block

/-- `frame_header::reset`. -/
def reset (h : FrameHeader) : FrameHeader :=
  { h with fin := true, code := wscode_end, payload_len := 0, key := [] }

/-- What a receiver does before it looks at a payload, as in
    `connection::__handle_websocket_frame`: unpack the header unless that is
    done, and check that the payload has arrived. `true` means that the
    frame is ready. -/
def receive_step (h : FrameHeader) (iob : IoBuffer) : Option (Bool × FrameHeader × IoBuffer) := do
  let (h, iob) ← (if !h.is_unpacked then unpack_header h iob else some (h, iob))
  if !h.is_unpacked then some (false, h, iob)
  else if h.payload_len.toNat > iob.size then some (false, h, iob)
  else some (true, h, iob)

/-! ## Section 3: The bytes of a header -/

/-- The header of `h` on the wire. -/
def packed (h : FrameHeader) : List UInt8 :=
  [h.first_byte, h.second_byte] ++ h.length_bytes ++ (if h.key.length = 4 then h.key else [])

theorem length_bytes_length_le (h : FrameHeader) : h.length_bytes.length ≤ 8 := by
  unfold length_bytes
  split
  · simp [bytes_of_i16]
  · split <;> simp [bytes_of_i64]

theorem packed_length_le (h : FrameHeader) : h.packed.length ≤ 14 := by
  have hl := length_bytes_length_le h
  unfold packed
  split <;> simp <;> omega

theorem write_or_fail_spec (a : Alloc) (bytes : List UInt8) {iob : IoBuffer} {n : Nat}
    (hroom : iob.HasRoom n) (hn : bytes.length ≤ n) :
    ∃ iob', write_or_fail a bytes (true, iob) = some (true, iob') ∧
      iob'.HasRoom (n - bytes.length) ∧ iob'.content = iob.content ++ bytes := by
  unfold write_or_fail
  by_cases hb : bytes = []
  · refine ⟨iob, by simp [hb], ?_, by simp [hb]⟩
    simpa [hb] using hroom
  · obtain ⟨iob', h', hroom', hc⟩ := IoBuffer.write_of_room (a := a) hroom hb hn
    exact ⟨iob', by simpa [hb] using h', hroom', hc⟩

theorem pack_header_spec {a : Alloc} {h : FrameHeader} {iob : IoBuffer} {n : Nat}
    (hroom : iob.HasRoom n) (hn : h.packed.length ≤ n) :
    ∃ iob', h.pack_header a iob = some (true, iob') ∧ iob'.HasRoom (n - h.packed.length) ∧
      iob'.content = iob.content ++ h.packed := by
  have hlen : h.packed.length =
      1 + (1 + (h.length_bytes.length + (if h.key.length = 4 then h.key else []).length)) := by
    simp only [packed, List.length_append, List.length_cons, List.length_nil]
    omega
  obtain ⟨iob₁, h₁, hroom₁, hc₁⟩ := IoBuffer.write_fill_of_room (a := a) (b := h.first_byte)
    hroom (Nat.one_pos) (by omega)
  obtain ⟨iob₂, h₂, hroom₂, hc₂⟩ := IoBuffer.write_fill_of_room (a := a) (b := h.second_byte)
    hroom₁ (Nat.one_pos) (by omega)
  obtain ⟨iob₃, h₃, hroom₃, hc₃⟩ := write_or_fail_spec a h.length_bytes
    hroom₂ (by omega)
  obtain ⟨iob₄, h₄, hroom₄, hc₄⟩ := write_or_fail_spec a
    (if h.key.length = 4 then h.key else []) hroom₃ (by omega)
  refine ⟨iob₄, ?_, ?_, ?_⟩
  · simp [pack_header, h₁, h₂, h₃, h₄]
  · have hrem : n - 1 - 1 - h.length_bytes.length - (if h.key.length = 4 then h.key else []).length
        = n - h.packed.length := by omega
    rwa [hrem] at hroom₄
  · simp [hc₄, hc₃, hc₂, hc₁, packed]

theorem write_or_fail_rpos {a : Alloc} {bytes : List UInt8} {r r' : Bool × IoBuffer}
    (h0 : r.2.rpos = 0) (h : write_or_fail a bytes r = some r') : r'.2.rpos = 0 := by
  unfold write_or_fail at h
  split at h
  · cases h
    exact h0
  · exact IoBuffer.write_rpos h0 h

theorem pack_header_rpos {a : Alloc} {h : FrameHeader} {iob : IoBuffer} {r : Bool × IoBuffer}
    (h0 : iob.rpos = 0) (he : h.pack_header a iob = some r) : r.2.rpos = 0 := by
  simp only [pack_header, Option.bind_eq_bind, Option.bind_eq_some_iff] at he
  obtain ⟨r₁, h₁, he⟩ := he
  have hr₁ := IoBuffer.write_fill_rpos h0 h₁
  split at he
  · cases he
    exact hr₁
  · simp only [Option.bind_eq_some_iff] at he
    obtain ⟨r₂, h₂, r₃, h₃, he⟩ := he
    exact write_or_fail_rpos (write_or_fail_rpos (IoBuffer.write_fill_rpos hr₁ h₂) h₃) he

/-! ## Section 4: What unpacking gives -/

theorem and_low_nibble_toNat (b : UInt8) : (b &&& 0x0f).toNat = b.toNat % 16 := by
  rw [UInt8.toNat_and]
  exact Nat.and_two_pow_sub_one_eq_mod b.toNat 4

/-- The length bits kept by the mask never announce an extended length. -/
theorem masked_length_lt (b : UInt8) : ((b &&& 0x0f).toUInt64).toNat < 16 := by
  rw [UInt8.toNat_toUInt64, and_low_nibble_toNat]
  omega

theorem unpack_length_short {h : FrameHeader} {iob : IoBuffer} (hl : h.payload_len.toNat < 16) :
    unpack_length h iob = some (true, h, iob) := by
  have h₁ : h.payload_len ≠ 126 := by
    rintro he
    simp [he] at hl
  have h₂ : h.payload_len ≠ 127 := by
    rintro he
    simp [he] at hl
  unfold unpack_length
  rw [if_neg h₁, if_neg h₂]

/-- The decoded form of a header starting with the bytes `b₀`, `b₁`. -/
def unpacked (h : FrameHeader) (b₀ b₁ : UInt8) (rest : List UInt8) : FrameHeader :=
  { fin := b₀ &&& 0x80 > 0
    code := b₀ &&& 0x0f
    payload_len := (b₁ &&& 0x0f).toUInt64
    key := if b₁ &&& 0x80 > 0 then rest.take 4 else h.key
    is_unpacked := true }

/-- How many bytes that header takes. -/
def unpacked_size (b₁ : UInt8) : Nat := if b₁ &&& 0x80 > 0 then 6 else 2

theorem unpack_header_complete {h : FrameHeader} {iob : IoBuffer} {b₀ b₁ : UInt8}
    {rest : List UInt8} (hwf : iob.Wf) (hc : iob.content = b₀ :: b₁ :: rest)
    (hkey : b₁ &&& 0x80 > 0 → 4 ≤ rest.length) :
    h.unpack_header iob = some (h.unpacked b₀ b₁ rest, iob.advance (unpacked_size b₁)) := by
  have hsize : iob.size = rest.length + 2 := by
    rw [← IoBuffer.content_length hwf, hc]
    rfl
  have hwf₁ : (iob.advance 1).Wf := IoBuffer.wf_advance hwf (by omega)
  have hwf₂ : (iob.advance 2).Wf := IoBuffer.wf_advance hwf (by omega)
  have hc₁ : (iob.advance 1).content = b₁ :: rest := by rw [IoBuffer.content_advance, hc]; rfl
  have hc₂ : (iob.advance 2).content = rest := by rw [IoBuffer.content_advance, hc]; rfl
  have hr₁ := IoBuffer.read_one_spec hwf hc
  have hr₂ := IoBuffer.read_one_spec hwf₁ hc₁
  rw [IoBuffer.advance_advance] at hr₂
  have hfields : unpack_fields h iob =
      some (h.unpacked b₀ b₁ rest, iob.advance (unpacked_size b₁)) := by
    unfold unpack_fields
    simp only [hr₁, hr₂, Option.bind_eq_bind, Option.bind_some]
    rw [unpack_length_short (masked_length_lt b₁)]
    by_cases hb : b₁ &&& 0x80 > 0
    · have hr₃ := IoBuffer.read_spec hwf₂ (n := 4) (by rw [IoBuffer.advance_size]; have := hkey hb; omega)
      rw [IoBuffer.advance_advance, hc₂] at hr₃
      simp [unpack_key, unpacked, unpacked_size, hb, hr₃]
    · simp [unpack_key, unpacked, unpacked_size, hb]
  unfold unpack_header
  simp [hfields, unpacked]

/-- Without both header bytes nothing is consumed, and the next call starts
    over. -/
theorem unpack_header_short {h : FrameHeader} {iob : IoBuffer} (hwf : iob.Wf)
    (hu : h.is_unpacked = false) (hs : iob.content.length < 2) :
    ∃ h', h.unpack_header iob = some (h', iob) ∧ h'.is_unpacked = false ∧ h'.key = h.key := by
  have hsize := IoBuffer.content_length hwf
  have hback := fun n hn => IoBuffer.shift_back hwf (n := n) hn
  match hc : iob.content with
  | [] =>
    have h0 : iob.size = 0 := by rw [← hsize, hc]; rfl
    refine ⟨h, ?_, hu, rfl⟩
    simpa [unpack_header, unpack_fields, IoBuffer.read_one_empty h0, hu] using hback 0 (by omega)
  | [b₀] =>
    have h1 : iob.size = 1 := by rw [← hsize, hc]; rfl
    have hr₁ := IoBuffer.read_one_spec hwf hc
    have hr₂ : (iob.advance 1).read_one = some (none, iob.advance 1) :=
      IoBuffer.read_one_empty (by rw [IoBuffer.advance_size]; omega)
    refine ⟨{ h with fin := b₀ &&& 0x80 > 0, code := b₀ &&& 0x0f }, ?_, hu, rfl⟩
    simpa [unpack_header, unpack_fields, hr₁, hr₂, hu] using hback 1 (by omega)
  | b₀ :: b₁ :: rest => simp [hc] at hs

/-- Without the whole key nothing is consumed either. -/
theorem unpack_header_short_key {h : FrameHeader} {iob : IoBuffer} {b₀ b₁ : UInt8}
    {rest : List UInt8} (hwf : iob.Wf) (hu : h.is_unpacked = false)
    (hc : iob.content = b₀ :: b₁ :: rest) (hb : b₁ &&& 0x80 > 0) (hs : rest.length < 4) :
    ∃ h', h.unpack_header iob = some (h', iob) ∧ h'.is_unpacked = false := by
  have hsize : iob.size = rest.length + 2 := by
    rw [← IoBuffer.content_length hwf, hc]
    rfl
  have hwf₁ : (iob.advance 1).Wf := IoBuffer.wf_advance hwf (by omega)
  have hc₁ : (iob.advance 1).content = b₁ :: rest := by rw [IoBuffer.content_advance, hc]; rfl
  have hr₁ := IoBuffer.read_one_spec hwf hc
  have hr₂ := IoBuffer.read_one_spec hwf₁ hc₁
  rw [IoBuffer.advance_advance] at hr₂
  have hr₃ : (iob.advance 2).read 4 = some (none, iob.advance 2) :=
    IoBuffer.read_short (by rw [IoBuffer.advance_size]; omega)
  have hfields : unpack_fields h iob = some ({ h with
      fin := b₀ &&& 0x80 > 0
      code := b₀ &&& 0x0f
      payload_len := (b₁ &&& 0x0f).toUInt64
      key := resize_key h.key }, iob.advance 2) := by
    unfold unpack_fields
    simp only [hr₁, hr₂, Option.bind_eq_bind, Option.bind_some]
    rw [unpack_length_short (masked_length_lt b₁)]
    simp [unpack_key, hb, hr₃]
  refine ⟨{ h with
      fin := b₀ &&& 0x80 > 0
      code := b₀ &&& 0x0f
      payload_len := (b₁ &&& 0x0f).toUInt64
      key := resize_key h.key }, ?_, hu⟩
  simpa [unpack_header, hfields, hu] using IoBuffer.shift_back hwf (n := 2) (by omega)

/-- Unpacking writes the flag, the code and the length only from bytes it
    has read: a finished header carries a code of four bits. -/
theorem unpack_fields_bounds {h h' : FrameHeader} {iob iob' : IoBuffer}
    (hl : h.payload_len.toNat < 16) (he : h.unpack_fields iob = some (h', iob')) :
    h'.payload_len.toNat < 16 ∧
      (h.is_unpacked = false → h'.is_unpacked = true → h'.code.toNat < 16) := by
  have hcode (b : UInt8) : (b &&& 0x0f).toNat < 16 := by
    rw [and_low_nibble_toNat]
    omega
  simp only [unpack_fields, Option.bind_eq_bind, Option.bind_eq_some_iff, Prod.exists] at he
  obtain ⟨r₀, iob₁, -, he⟩ := he
  cases r₀ with
  | none =>
    cases he
    exact ⟨hl, fun hf ht => by simp [hf] at ht⟩
  | some b₀ =>
    simp only [Option.bind_eq_some_iff, Prod.exists] at he
    obtain ⟨r₁, iob₂, -, he⟩ := he
    cases r₁ with
    | none =>
      cases he
      exact ⟨hl, fun _ _ => hcode b₀⟩
    | some b₁ =>
      have hshort := masked_length_lt b₁
      simp only [] at he
      rw [unpack_length_short (by exact hshort)] at he
      simp only [Option.bind_some, if_true, unpack_key] at he
      split at he
      · simp only [Option.bind_eq_bind, Option.bind_eq_some_iff, Prod.exists] at he
        obtain ⟨r₂, iob₃, -, he⟩ := he
        cases r₂ with
        | none =>
          cases he
          exact ⟨hshort, fun _ _ => hcode b₀⟩
        | some k =>
          cases he
          exact ⟨hshort, fun _ _ => hcode b₀⟩
      · cases he
        exact ⟨hshort, fun _ _ => hcode b₀⟩

theorem unpack_header_bounds {h h' : FrameHeader} {iob iob' : IoBuffer}
    (hl : h.payload_len.toNat < 16) (he : h.unpack_header iob = some (h', iob')) :
    h'.payload_len.toNat < 16 ∧
      (h.is_unpacked = false → h'.is_unpacked = true → h'.code.toNat < 16) := by
  simp only [unpack_header, Option.bind_eq_bind, Option.bind_eq_some_iff, Prod.exists] at he
  obtain ⟨h₁, iob₁, hf, he⟩ := he
  have hb := unpack_fields_bounds hl hf
  split at he
  · cases he
    exact hb
  · cases he
    exact hb

/-! ## Section 5: Round trip -/

/-- Pack a header into a new buffer, write what follows it as
    `connection::send` does, and unpack it with a new `frame_header`. -/
def pack_then_unpack (h : FrameHeader) (rest : List UInt8) : Option (FrameHeader × IoBuffer) := do
  let iob ← (IoBuffer.create .succeeding (16 + rest.length)).join
  let r ← h.pack_header .succeeding iob
  let r ← write_or_fail .succeeding rest r
  if r.1 then fresh.unpack_header r.2 else none

/-- The header comes back whole and the bytes behind it are left. -/
def RoundTrips (fin : Bool) (code : UInt8) (payload_len : UInt64) (key rest : List UInt8) : Prop :=
  ∃ iob, pack_then_unpack (construct fin code payload_len key) rest =
    some ({ construct fin code payload_len key with is_unpacked := true }, iob) ∧
    iob.content = rest

theorem nibble_eq {c : UInt8} (hc : c.toNat < 16) : ∃ n : Fin 16, c = UInt8.ofNat n :=
  ⟨⟨c.toNat, hc⟩, by simp⟩

/-- The bytes of a header whose length fits the mask. -/
theorem short_header_bytes (fin : Bool) {code : UInt8} {payload_len : UInt64} (key : List UInt8)
    (hcode : code.toNat < 16) (hlen : payload_len.toNat < 16) :
    let h := construct fin code payload_len key
    (h.first_byte &&& 0x80 > 0 ↔ fin = true) ∧ h.first_byte &&& 0x0f = code ∧
      (h.second_byte &&& 0x80 > 0 ↔ key.length = 4) ∧
      (h.second_byte &&& 0x0f).toUInt64 = payload_len := by
  have hl : payload_len = UInt64.ofNat payload_len.toNat := by simp
  have h126 : payload_len < 126 := by
    rw [UInt64.lt_iff_toNat_lt]
    exact Nat.lt_trans hlen (by decide)
  have hlow : payload_len.toUInt8.toNat < 16 := by
    rw [UInt64.toNat_toUInt8]
    omega
  have hback : payload_len.toUInt8.toUInt64 = payload_len := by
    apply UInt64.toNat_inj.mp
    rw [UInt8.toNat_toUInt64, UInt64.toNat_toUInt8]
    omega
  have hbits : ∀ n : Fin 16, ∀ b : Bool,
      (((if b then UInt8.ofNat n ||| 0x80 else UInt8.ofNat n) &&& 0x80 > 0) ↔ b = true) ∧
        (if b then UInt8.ofNat n ||| 0x80 else UInt8.ofNat n) &&& 0x0f = UInt8.ofNat n ∧
        ((((if b then 0x80 else 0) ||| UInt8.ofNat n) &&& 0x80 > 0) ↔ b = true) ∧
        ((if b then 0x80 else 0) ||| UInt8.ofNat n) &&& 0x0f = UInt8.ofNat n := by
    decide
  obtain ⟨n, hn⟩ := nibble_eq hcode
  obtain ⟨m, hm⟩ := nibble_eq hlow
  have hsecond : (construct fin code payload_len key).second_byte =
      (if decide (key.length = 4) then 0x80 else 0) ||| UInt8.ofNat m := by
    by_cases hk : key.length = 4 <;> simp [second_byte, construct, h126, hm, hk]
  refine ⟨?_, ?_, ?_, ?_⟩
  · have := (hbits n fin).1
    simpa [first_byte, construct, hn] using this
  · have := (hbits n fin).2.1
    simpa [first_byte, construct, hn] using this
  · rw [hsecond]
    simpa using (hbits m (decide (key.length = 4))).2.2.1
  · rw [hsecond, (hbits m (decide (key.length = 4))).2.2.2, ← hm, hback]

/-- A short header is two bytes and the key. -/
theorem packed_short {fin : Bool} {code : UInt8} {payload_len : UInt64} {key : List UInt8}
    (hlen : payload_len.toNat < 16) (hkey : key = [] ∨ key.length = 4) :
    let h := construct fin code payload_len key
    h.packed = h.first_byte :: h.second_byte :: key := by
  have h₁ : ¬ payload_len ≥ 126 := by
    rw [ge_iff_le, UInt64.le_iff_toNat_le]
    have : (126 : UInt64).toNat = 126 := rfl
    omega
  have h₂ : ¬ payload_len > 65535 := by
    rw [gt_iff_lt, UInt64.lt_iff_toNat_lt]
    have : (65535 : UInt64).toNat = 65535 := rfl
    omega
  have hbytes : (construct fin code payload_len key).length_bytes = [] := by
    simp [length_bytes, construct, h₁, h₂]
  have hk : (construct fin code payload_len key).key = key := rfl
  rcases hkey with rfl | hkey
  · simp [packed, hbytes, hk]
  · simp [packed, hbytes, hk, hkey]

/-- A new header recovers a short header from any buffer that starts with it. -/
theorem unpack_packed {fin : Bool} {code : UInt8} {payload_len : UInt64} {key rest : List UInt8}
    {iob : IoBuffer} (hcode : code.toNat < 16) (hlen : payload_len.toNat < 16)
    (hkey : key = [] ∨ key.length = 4) (hwf : iob.Wf)
    (hc : iob.content = (construct fin code payload_len key).packed ++ rest) :
    fresh.unpack_header iob =
      some ({ construct fin code payload_len key with is_unpacked := true },
        iob.advance (2 + key.length)) := by
  obtain ⟨hfin, hcode', hmask, hlen'⟩ := short_header_bytes fin key hcode hlen
  rw [packed_short hlen hkey, List.cons_append, List.cons_append] at hc
  rw [unpack_header_complete hwf hc fun hb => by simp [hmask.mp hb]]
  rcases hkey with rfl | hkey
  · have hb : ¬ (construct fin code payload_len []).second_byte &&& 0x80 > 0 := by
      rw [hmask]
      simp
    simp only [unpacked, unpacked_size, hfin, hcode', hlen', if_neg hb]
    simp [construct, fresh]
  · have hb := hmask.mpr hkey
    have htake : (key ++ rest).take 4 = key := by simp [← hkey]
    simp only [unpacked, unpacked_size, hfin, hcode', hlen', if_pos hb, htake]
    simp [construct, hkey]

/-- **Header round trip.** The length mask `0x0f` of `unpack_header` keeps
    four bits of the seven that `pack_header` writes. -/
theorem round_trips_iff_short {fin : Bool} {code : UInt8} {payload_len : UInt64} {key rest : List UInt8}
    (hcode : code.toNat < 16) (hkey : key = [] ∨ key.length = 4)
    (hrest : rest.length + 16 < 2 ^ 31) :
    RoundTrips fin code payload_len key rest ↔ payload_len.toNat < 16 := by
  constructor
  · rintro ⟨iob, he, -⟩
    simp only [pack_then_unpack, Option.bind_eq_bind, Option.bind_eq_some_iff] at he
    obtain ⟨iob₀, -, r₁, -, r₂, -, he⟩ := he
    split at he
    · exact (unpack_header_bounds (h := fresh) (by decide) he).1
    · cases he
  · intro hlen
    obtain ⟨iob₀, h₀, hroom₀, hc₀⟩ := IoBuffer.create_spec (n := 16 + rest.length) (by omega)
      (by omega)
    have hpacked := packed_length_le (construct fin code payload_len key)
    obtain ⟨iob₁, h₁, hroom₁, hc₁⟩ := pack_header_spec (a := .succeeding)
      (h := construct fin code payload_len key) hroom₀ (by omega)
    obtain ⟨iob₂, h₂, hroom₂, hc₂⟩ := write_or_fail_spec .succeeding rest hroom₁ (by omega)
    have hcontent : iob₂.content = (construct fin code payload_len key).packed ++ rest := by
      rw [hc₂, hc₁, hc₀, List.nil_append]
    have hunpack := unpack_packed hcode hlen hkey hroom₂.wf hcontent
    refine ⟨iob₂.advance (2 + key.length), ?_, ?_⟩
    · simp [pack_then_unpack, h₀, h₁, h₂, hunpack]
    · have hsize : (construct fin code payload_len key).packed.length = 2 + key.length := by
        rw [packed_short hlen hkey, List.length_cons, List.length_cons]
        omega
      rw [IoBuffer.content_advance, hcontent, ← hsize, List.drop_left]

theorem round_trips_fifteen : RoundTrips true wscode_bin 15 [1, 2, 3, 4] [7, 8] :=
  (round_trips_iff_short (by decide) (by decide) (by decide)).mpr (by decide)

/-- Sixteen bytes come back as none. -/
theorem not_round_trips_sixteen : ¬ RoundTrips true wscode_text 16 [] [] := by
  rintro ⟨iob, he, -⟩
  have hzero : (pack_then_unpack (construct true wscode_text 16 []) []).map
      (fun r => r.1.payload_len) = some 0 := by decide
  rw [he] at hzero
  revert hzero
  simp [construct]

/-! ## Section 6: reset does not forget -/

/-- What `__handle_websocket_frame` uses of a receive step: whether the frame
    is ready, its `fin`, code and length, and the bytes left. -/
def observed (r : Bool × FrameHeader × IoBuffer) : Bool × Bool × UInt8 × UInt64 × List UInt8 :=
  (r.1, r.2.1.fin, r.2.1.code, r.2.1.payload_len, r.2.2.content)

/-- A header state after the unpacking of some frame. -/
def Decoded (h : FrameHeader) : Prop :=
  ∃ h₀ iob₀ iob₁, unpack_header h₀ iob₀ = some (h, iob₁) ∧ h.is_unpacked = true

/-- Two headers receive alike from `iob`. -/
def SameBehaviour (h h' : FrameHeader) (iob : IoBuffer) : Prop :=
  (receive_step h iob).map observed = (receive_step h' iob).map observed

instance (h h' : FrameHeader) (iob : IoBuffer) : Decidable (SameBehaviour h h' iob) :=
  inferInstanceAs (Decidable (_ = _))

/-- A header that is still marked as unpacked is ready on any buffer. -/
theorem receive_step_reset {h : FrameHeader} (hu : h.is_unpacked = true) (iob : IoBuffer) :
    receive_step h.reset iob = some (true, h.reset, iob) := by
  simp [receive_step, reset, hu]

theorem receive_step_fresh_code {h : FrameHeader} {iob iob' : IoBuffer}
    (he : receive_step fresh iob = some (true, h, iob')) : h.code.toNat < 16 := by
  have hf : fresh.is_unpacked = false := rfl
  simp only [receive_step, hf, Bool.not_false, if_true, Option.bind_eq_bind,
    Option.bind_eq_some_iff, Prod.exists] at he
  obtain ⟨h₁, iob₁, hunpack, he⟩ := he
  have hb := (unpack_header_bounds (h := fresh) (by decide) hunpack).2 hf
  split at he
  · cases he
  · next hdone =>
    split at he
    · cases he
    · cases he
      exact hb (by simpa using hdone)

/-- **reset.** The flag `is_unpacked_` survives `reset`, so the next buffer
    is taken for a ready frame with the code `wscode_end`. -/
theorem reset_not_fresh {h : FrameHeader} (hdecoded : Decoded h) (next : IoBuffer) :
    ¬ SameBehaviour h.reset fresh next := by
  obtain ⟨-, -, -, -, hdone⟩ := hdecoded
  intro hsame
  unfold SameBehaviour at hsame
  rw [receive_step_reset hdone] at hsame
  obtain ⟨⟨ready, h', iob'⟩, hf, ho⟩ := Option.map_eq_some_iff.mp hsame.symm
  simp only [observed, Prod.mk.injEq] at ho
  obtain ⟨rfl, -, hcode, -⟩ := ho
  have hlt := receive_step_fresh_code hf
  rw [hcode] at hlt
  revert hlt
  simp [reset, wscode_end]

theorem reset_not_fresh_text :
    ¬ SameBehaviour (reset ⟨true, wscode_text, 1, [], true⟩) fresh
      (IoBuffer.create_by_reference [0x81, 0x01, 0x61]) :=
  reset_not_fresh ⟨fresh, IoBuffer.create_by_reference [0x81, 0x01, 0x61],
    (IoBuffer.create_by_reference [0x81, 0x01, 0x61]).advance 2, by decide, rfl⟩ _

/-- The frame `81 01 61` received twice. -/
theorem text_frame_twice : ∃ h, Decoded h ∧
    ¬ SameBehaviour h.reset fresh (IoBuffer.create_by_reference [0x81, 0x01, 0x61]) :=
  ⟨⟨true, wscode_text, 1, [], true⟩,
    ⟨fresh, IoBuffer.create_by_reference [0x81, 0x01, 0x61],
      (IoBuffer.create_by_reference [0x81, 0x01, 0x61]).advance 2, by decide, rfl⟩, by decide⟩

end FrameHeader

end Pump
