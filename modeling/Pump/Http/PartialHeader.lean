import Pump.Http.Frame

/-! # A header that is cut off

    What `unpack_header` leaves behind when the buffer ends inside a header:
    the bytes it has read are put back by `shift`, and the fields it has set
    stay in the `frame_header` until the next attempt. -/

namespace Pump

/-! ## Section 1: Putting back -/

namespace IoBuffer

/-- The argument that `unpack_header` passes to `shift`. -/
theorem back_argument {size n : Nat} (hn : n ≤ size) (hle : n ≤ 2 ^ 31) :
    toI32 (sub32 (size - n) size) = -n := by
  unfold toI32 sub32
  rw [Int.bmod_def]
  split <;> split <;> omega

/-- `shift` sees a read position from `2^31` on as a negative one, and then
    puts nothing back. -/
theorem shift_back_fits {iob : IoBuffer} (h : Fits iob) {n : Nat} (hpos : 0 < n)
    (hn : n ≤ iob.size) (hle : n < 2 ^ 31) :
    (shift (iob.advance n) (-n)).2 = if iob.rpos + n < 2 ^ 31 then iob else iob.advance n := by
  have hwin := h.window
  have hcap := h.capacity_lt
  have hneg : (-(-(n : Int))).bmod (2 ^ 32) = n := by
    rw [Int.bmod_def]
    omega
  have hr : (iob.advance n).rpos = iob.rpos + n := rfl
  unfold shift
  rw [moved_back h hn, hneg, hr, if_neg (by omega)]
  by_cases hlow : iob.rpos + n < 2 ^ 31
  · rw [if_pos hlow, toI32_eq hlow, if_neg (by omega)]
  · have hsign : toI32 (iob.rpos + n) < n := by
      unfold toI32
      rw [Int.bmod_def]
      split <;> omega
    rw [if_neg hlow, if_pos hsign]

end IoBuffer

namespace FrameHeader

/-! ## Section 2: A header that is not complete -/

/-- How many bytes `unpack_header` takes for a header with that second byte. -/
def header_size (b : UInt8) : Nat :=
  2 + (if (b &&& 0x0f).toUInt64 = 126 then 2 else if (b &&& 0x0f).toUInt64 = 127 then 8 else 0) +
    (if b &&& 0x80 > 0 then 4 else 0)

/-- The bytes begin with a complete header. -/
def HasHeader (bytes : List UInt8) : Prop :=
  ∃ b₀ b₁ rest, bytes = b₀ :: b₁ :: rest ∧ header_size b₁ ≤ bytes.length

/-- The mask `0x0f` leaves no length that announces an extended one. -/
theorem header_size_eq (b : UInt8) : header_size b = unpacked_size b := by
  have hlen := masked_length_lt b
  have h₁ : (b &&& 0x0f).toUInt64 ≠ 126 := by
    intro he
    simp [he] at hlen
  have h₂ : (b &&& 0x0f).toUInt64 ≠ 127 := by
    intro he
    simp [he] at hlen
  unfold header_size unpacked_size
  rw [if_neg h₁, if_neg h₂]
  split <;> rfl

/-- Otherwise there are less than two bytes, or less than four behind them
    where a key is announced. -/
theorem not_hasHeader {bytes : List UInt8} (h : ¬ HasHeader bytes) :
    bytes = [] ∨ (∃ b₀, bytes = [b₀]) ∨
      ∃ b₀ b₁ rest, bytes = b₀ :: b₁ :: rest ∧ b₁ &&& 0x80 > 0 ∧ rest.length < 4 := by
  match bytes with
  | [] => exact Or.inl rfl
  | [b₀] => exact Or.inr (Or.inl ⟨b₀, rfl⟩)
  | b₀ :: b₁ :: rest =>
    right; right
    refine ⟨b₀, b₁, rest, rfl, ?_⟩
    have hshort : ¬ header_size b₁ ≤ rest.length + 2 := fun hle => h ⟨b₀, b₁, rest, rfl, hle⟩
    rw [header_size_eq, unpacked_size] at hshort
    split at hshort
    · next hmask => exact ⟨hmask, by omega⟩
    · omega

/-- The fields after an attempt on bytes without a complete header. -/
def partly (h : FrameHeader) : List UInt8 → FrameHeader
  | [] => h
  | [b₀] => { h with fin := b₀ &&& 0x80 > 0, code := b₀ &&& 0x0f }
  | b₀ :: b₁ :: _ =>
    { h with
      fin := b₀ &&& 0x80 > 0
      code := b₀ &&& 0x0f
      payload_len := (b₁ &&& 0x0f).toUInt64
      key := resize_key h.key }

theorem partly_is_unpacked (h : FrameHeader) (bytes : List UInt8) :
    (h.partly bytes).is_unpacked = h.is_unpacked := by
  match bytes with
  | [] => rfl
  | [_] => rfl
  | _ :: _ :: _ => rfl

/-- The fields behind the first two bytes. -/
theorem unpack_fields_two {h : FrameHeader} {iob : IoBuffer} {b₀ b₁ : UInt8} {rest : List UInt8}
    (hf : iob.Fits) (hc : iob.content = b₀ :: b₁ :: rest) :
    h.unpack_fields iob = unpack_key { h with
      fin := b₀ &&& 0x80 > 0
      code := b₀ &&& 0x0f
      payload_len := (b₁ &&& 0x0f).toUInt64 } b₁ (iob.advance 2) := by
  have hsize : iob.size = rest.length + 2 := by
    rw [← hf.content_length, hc]
    rfl
  have hc₁ : (iob.advance 1).content = b₁ :: rest := by rw [IoBuffer.content_advance, hc]; rfl
  have hr₁ := IoBuffer.read_one_fits hf hc
  have hr₂ := IoBuffer.read_one_fits (IoBuffer.fits_advance hf (by omega)) hc₁
  rw [IoBuffer.advance_advance] at hr₂
  unfold unpack_fields
  simp only [hr₁, hr₂, Option.bind_eq_bind, Option.bind_some]
  rw [unpack_length_short (masked_length_lt b₁)]
  rfl

theorem unpack_fields_one {h : FrameHeader} {iob : IoBuffer} {b₀ : UInt8} (hf : iob.Fits)
    (hc : iob.content = [b₀]) :
    h.unpack_fields iob = some (h.partly [b₀], iob.advance 1) := by
  have hsize : iob.size = 1 := by
    rw [← hf.content_length, hc]
    rfl
  have hr₁ := IoBuffer.read_one_fits hf hc
  have hr₂ : (iob.advance 1).read_one = some (none, iob.advance 1) :=
    IoBuffer.read_one_empty (by rw [IoBuffer.advance_size]; omega)
  unfold unpack_fields
  simp only [hr₁, hr₂, Option.bind_eq_bind, Option.bind_some]
  rfl

theorem unpack_fields_none {h : FrameHeader} {iob : IoBuffer} (hf : iob.Fits)
    (hc : iob.content = []) : h.unpack_fields iob = some (h, iob) := by
  have hsize : iob.size = 0 := by
    rw [← hf.content_length, hc]
    rfl
  unfold unpack_fields
  simp only [IoBuffer.read_one_empty hsize, Option.bind_eq_bind, Option.bind_some]

/-- **An attempt that fails** has read two bytes at most: the key is read
    whole or not at all. -/
theorem unpack_fields_partly {h : FrameHeader} {iob : IoBuffer} (hf : iob.Fits)
    (hno : ¬ HasHeader iob.content) :
    h.unpack_fields iob = some (h.partly iob.content, iob.advance (min iob.size 2)) := by
  have hlen := hf.content_length
  rcases not_hasHeader hno with hc | ⟨b₀, hc⟩ | ⟨b₀, b₁, rest, hc, hmask, hshort⟩
  · have hsize : iob.size = 0 := by rw [← hlen, hc]; rfl
    rw [unpack_fields_none hf hc, hc, hsize]
    rfl
  · have hsize : iob.size = 1 := by rw [← hlen, hc]; rfl
    rw [unpack_fields_one hf hc, hc, hsize]
    rfl
  · have hsize : iob.size = rest.length + 2 := by rw [← hlen, hc]; rfl
    have hr : (iob.advance 2).read 4 = some (none, iob.advance 2) :=
      IoBuffer.read_short (by rw [IoBuffer.advance_size]; omega)
    have hmin : min iob.size 2 = 2 := by omega
    rw [unpack_fields_two hf hc, hc, hmin]
    unfold unpack_key
    simp only [if_pos hmask, hr, Option.bind_eq_bind, Option.bind_some]
    rfl

/-! ## Section 3: The next attempt -/

theorem resize_key_resize (key : List UInt8) : resize_key (resize_key key) = resize_key key := by
  have hlen : (resize_key key).length = 4 := by
    simp only [resize_key, List.length_append, List.length_take, List.length_replicate]
    omega
  rw [resize_key, hlen, List.take_of_length_le (by omega)]
  exact List.append_nil _

/-- With more bytes behind them, the first bytes set the same fields again. -/
theorem unpack_fields_again {h : FrameHeader} {iob : IoBuffer} {bytes : List UInt8}
    (hf : iob.Fits) (hno : ¬ HasHeader bytes) (hpre : bytes <+: iob.content) :
    (h.partly bytes).unpack_fields iob = h.unpack_fields iob := by
  obtain ⟨more, hc⟩ := hpre
  rcases not_hasHeader hno with rfl | ⟨b₀, rfl⟩ | ⟨b₀, b₁, rest, rfl, hmask, -⟩
  · rfl
  · rcases more with _ | ⟨b₁, rest⟩
    · rw [unpack_fields_one hf hc.symm, unpack_fields_one hf hc.symm]
      rfl
    · rw [unpack_fields_two hf hc.symm, unpack_fields_two hf hc.symm]
      rfl
  · -- the key has four zero bytes now, and is read as a whole
    rw [unpack_fields_two hf hc.symm, unpack_fields_two hf hc.symm]
    unfold unpack_key
    rw [if_pos hmask, if_pos hmask]
    simp only [partly, resize_key_resize]

/-- A failed attempt on a new header leaves the buffer as it was, and the next
    attempt, with more bytes, does what that of a new header does. -/
def NoTrace (iob : IoBuffer) : Prop :=
  ∃ h, fresh.unpack_header iob = some (h, iob) ∧ h.is_unpacked = false ∧
    ∀ iob' : IoBuffer, iob'.Fits → iob.content <+: iob'.content →
      h.unpack_header iob' = fresh.unpack_header iob'

/-- What a failed attempt leaves. -/
theorem unpack_header_partly {iob : IoBuffer} (hf : iob.Fits) (hno : ¬ HasHeader iob.content) :
    fresh.unpack_header iob = some (fresh.partly iob.content,
      if iob.size = 0 ∨ iob.rpos + min iob.size 2 < 2 ^ 31 then iob
      else iob.advance (min iob.size 2)) := by
  obtain ⟨n, hn⟩ : ∃ n, n = min iob.size 2 := ⟨_, rfl⟩
  have hback : toI32 (sub32 (iob.advance n).size iob.size) = -n := by
    rw [IoBuffer.advance_size]
    exact IoBuffer.back_argument (by omega) (by omega)
  have hnot : (fresh.partly iob.content).is_unpacked = false := partly_is_unpacked _ _
  unfold unpack_header
  rw [unpack_fields_partly hf hno, ← hn]
  simp only [Option.bind_eq_bind, Option.bind_some, hnot, Bool.not_false, if_true, hback]
  by_cases h0 : iob.size = 0
  · -- nothing read, and nothing to put back
    obtain rfl : n = 0 := by omega
    rw [if_pos (Or.inl h0)]
    have hshift := IoBuffer.shift_advance hf (by omega) (Nat.zero_le iob.size)
    simp only [IoBuffer.advance_zero] at hshift ⊢
    exact congrArg _ (congrArg _ hshift)
  · rw [IoBuffer.shift_back_fits hf (by omega) (by omega) (by omega)]
    by_cases hlow : iob.rpos + n < 2 ^ 31
    · rw [if_pos hlow, if_pos (Or.inr hlow)]
    · have hboth : ¬ (iob.size = 0 ∨ iob.rpos + n < 2 ^ 31) := by
        rintro (hz | hl)
        · exact h0 hz
        · exact hlow hl
      rw [if_neg hlow, if_neg hboth]

/-- **A header that is cut off leaves no trace** exactly if the attempt has not
    moved the read position to `2^31` or beyond. -/
theorem no_trace_iff {iob : IoBuffer} (hf : iob.Fits) (hno : ¬ HasHeader iob.content) :
    NoTrace iob ↔ iob.size = 0 ∨ iob.rpos + min iob.size 2 < 2 ^ 31 := by
  have hattempt := unpack_header_partly hf hno
  constructor
  · rintro ⟨h, he, -, -⟩
    by_contra hfar
    rw [if_neg hfar] at hattempt
    rw [hattempt] at he
    -- the bytes read are gone
    have hgone : (iob.advance (min iob.size 2)).size = iob.size :=
      congrArg (fun r => r.2.size) (Option.some.inj he)
    rw [IoBuffer.advance_size] at hgone
    exact hfar (Or.inl (by omega))
  · intro hnear
    rw [if_pos hnear] at hattempt
    refine ⟨fresh.partly iob.content, hattempt, partly_is_unpacked _ _, ?_⟩
    intro iob' hf' hpre
    unfold unpack_header
    rw [unpack_fields_again hf' hno hpre]

/-- Three bytes of a header with a key, in a block of three. -/
theorem no_trace_three : NoTrace (IoBuffer.create_by_reference [0x82, 0x83, 0x10]) := by
  refine (no_trace_iff (IoBuffer.wf_create_by_reference (by decide)).fits ?_).mpr (by decide)
  rintro ⟨b₀, b₁, rest, hc, hle⟩
  rw [IoBuffer.content_create_by_reference] at hc hle
  cases hc
  revert hle
  decide

/-- The last byte of a block of `2^31 + 1` bytes, behind `2^31` bytes that have
    been read. -/
theorem not_no_trace :
    ¬ ∀ iob : IoBuffer, iob.Fits → iob.size < 2 ^ 31 → ¬ HasHeader iob.content → NoTrace iob := by
  intro hall
  obtain ⟨block, hblock⟩ : ∃ block : List UInt8, block.length = 2 ^ 31 + 1 :=
    ⟨List.replicate (2 ^ 31 + 1) 0, List.length_replicate⟩
  obtain ⟨iob, hraw, hcap, hsize, hrpos⟩ : ∃ iob : IoBuffer, iob.raw = some block ∧
      iob.raw_size = 2 ^ 31 + 1 ∧ iob.size = 1 ∧ iob.rpos = 2 ^ 31 :=
    ⟨⟨false, some block, 2 ^ 31 + 1, 1, 2 ^ 31⟩, rfl, rfl, rfl, rfl⟩
  have hf : iob.Fits := ⟨by rw [hraw, hcap]; exact hblock, fun _ => by omega, by omega, by omega⟩
  have hno : ¬ HasHeader iob.content := by
    rintro ⟨b₀, b₁, rest, hc, -⟩
    have hlen := hf.content_length
    rw [hc, hsize] at hlen
    cases hlen
  have htrace := hall iob hf (by omega) hno
  rw [no_trace_iff hf hno] at htrace
  omega

end FrameHeader

end Pump
