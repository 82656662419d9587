import Pump.Http.Delivery

/-! # Masking

    The frame that `connection::send` hands to the transport: its header, and
    behind it the payload under the mask of `ws_key_`. -/

namespace Pump

namespace FrameHeader

/-! ## Section 1: The bytes that mask_payload works on -/

/-- The positions of the block that the loop of `mask_payload` works on, from
    the pointer at `off`. -/
def Masks (h : FrameHeader) (off p : Int) : Prop :=
  h.key.length = 4 ∧ off ≤ p ∧ p < off + h.payload_len.toNat

/-- It stays in the block exactly if they are all in it. -/
theorem mask_payload_isSome_iff (h : FrameHeader) (block : List UInt8) (off : Int) :
    (h.mask_payload block off).isSome = true ↔
      ∀ p, h.Masks off p → 0 ≤ p ∧ p < block.length := by
  unfold mask_payload
  by_cases hrun : h.key.length = 4 ∧ h.payload_len ≠ 0
  · rw [if_pos hrun]
    have hpos : 0 < h.payload_len.toNat := by
      rcases Nat.eq_zero_or_pos h.payload_len.toNat with h0 | h0
      · exact absurd (UInt64.toNat_inj.mp h0) hrun.2
      · exact h0
    by_cases hoff : 0 ≤ off
    · rw [if_pos hoff]
      by_cases hfit : off.toNat + h.payload_len.toNat ≤ block.length
      · refine iff_of_true ?_ ?_
        · have hl : load block off.toNat h.payload_len.toNat =
              some ((block.drop off.toNat).take h.payload_len.toNat) := if_pos hfit
          have hlen : (mask_bytes h.key ((block.drop off.toNat).take h.payload_len.toNat)).length =
              h.payload_len.toNat := by
            simp only [mask_bytes, List.length_mapIdx, List.length_take, List.length_drop]
            omega
          simp [hl, store, hlen, hfit]
        · rintro p ⟨-, hlo, hhi⟩
          omega
      · refine iff_of_false ?_ ?_
        · have hl : load block off.toNat h.payload_len.toNat = none := if_neg hfit
          simp [hl]
        · intro hall
          have hlast := hall (off + h.payload_len.toNat - 1) ⟨hrun.1, by omega, by omega⟩
          omega
    · rw [if_neg hoff]
      refine iff_of_false Bool.false_ne_true ?_
      intro hall
      have hfirst := hall off ⟨hrun.1, by omega, by omega⟩
      omega
  · rw [if_neg hrun]
    refine iff_of_true rfl ?_
    rintro p ⟨hkey, hlo, hhi⟩
    -- without a payload there is no such position
    exfalso
    apply hrun
    refine ⟨hkey, ?_⟩
    rintro h0
    rw [h0] at hhi
    have hzero : (0 : UInt64).toNat = 0 := rfl
    omega

theorem mask_bytes_nil (bytes : List UInt8) : mask_bytes [] bytes = bytes := by
  unfold mask_bytes
  apply List.ext_getElem
  · rw [List.length_mapIdx]
  · intro i h₁ h₂
    rw [List.getElem_mapIdx]
    simp

end FrameHeader

namespace Connection

variable {α : Type}

/-! ## Section 2: The frame that is sent -/

/-- The buffer with which `send` calls `mask_payload`: the header and the
    payload are written. -/
def written (c : Connection α) (b : Bytes) (text : Bool) : Option IoBuffer := do
  let iob ← (IoBuffer.create .succeeding (16 + b.length)).join
  let r ← (c.message_header b text).pack_header .succeeding iob
  let r ← r.2.write .succeeding b
  if r.1 then some r.2 else none

/-- The header and, behind it, the payload. -/
theorem written_eq (text : Bool) (c : Connection α) {b : Bytes} (hb : b ≠ [])
    (hlen : b.length + 16 < 2 ^ 31) :
    ∃ iob, c.written b text = some iob ∧ iob.Wf ∧ iob.rpos = 0 ∧
      iob.content = (c.message_header b text).packed ++ b := by
  have hpos : 0 < b.length := List.length_pos_iff.mpr hb
  have hpacked := FrameHeader.packed_length_le (c.message_header b text)
  obtain ⟨iob₀, h₀, hroom₀, hc₀⟩ := IoBuffer.create_spec (n := 16 + b.length) (by omega) (by omega)
  obtain ⟨iob₁, h₁, hroom₁, hc₁⟩ := FrameHeader.pack_header_spec (a := .succeeding)
    (h := c.message_header b text) hroom₀ (by omega)
  obtain ⟨iob₂, h₂, hroom₂, hc₂⟩ := IoBuffer.write_of_room (a := .succeeding) hroom₁ hb (by omega)
  have hr₁ := FrameHeader.pack_header_rpos (IoBuffer.create_rpos h₀) h₁
  refine ⟨iob₂, ?_, hroom₂.wf, IoBuffer.write_rpos hr₁ h₂, ?_⟩
  · simp [written, h₀, h₁, h₂]
  · rw [hc₂, hc₁, hc₀, List.nil_append]

/-- `mask_payload` works on positions of the payload only, and the transport
    gets the header and the payload under the mask. -/
def SendsMasked (c : Connection α) (b : Bytes) (text : Bool) : Prop :=
  (∃ iob, c.written b text = some iob ∧
    ∀ p, (c.message_header b text).Masks ((iob.rpos : Int) - b.length) p →
      ((iob.rpos + (c.message_header b text).packed.length : Nat) : Int) ≤ p ∧
        p < ((iob.rpos + iob.size : Nat) : Int)) ∧
  c.send .succeeding b text = some (true, { c with
    transp := { c.transp with
      sent := c.transp.sent ++
        [(c.message_header b text).packed ++ FrameHeader.mask_bytes c.ws_key b] } })

/-- **Masking.** The pointer that `mask_payload` gets is `size` bytes before
    the readable ones, not before their end. -/
theorem sends_masked_iff {c : Connection α} {b : Bytes} (text : Bool)
    (hstarted : c.transp.started = true) (hkey : c.ws_key = [] ∨ c.ws_key.length = 4) (hb : b ≠ [])
    (hlen : b.length ≤ 2 ^ 31 - 17) : SendsMasked c b text ↔ c.ws_key = [] := by
  constructor
  · rintro ⟨-, hsend⟩
    rcases hkey with hnil | hfour
    · exact hnil
    · -- with a key, send does not return true
      have hfalse := not_sent_of_key hfour hb hsend
      cases hfalse
  · intro hnil
    obtain ⟨iob, hwritten, -⟩ := written_eq text c hb (by omega)
    refine ⟨⟨iob, hwritten, ?_⟩, ?_⟩
    · rintro p ⟨hfour, -⟩
      have hfour : c.ws_key.length = 4 := hfour
      rw [hnil] at hfour
      cases hfour
    · have hsame : FrameHeader.mask_bytes c.ws_key b = b := by
        rw [hnil, FrameHeader.mask_bytes_nil]
      rw [hsame]
      exact sent_plain text hstarted hnil hb (by omega)

theorem sends_masked_text : SendsMasked (upgraded []) [0x68, 0x69] true :=
  (sends_masked_iff true rfl (Or.inl rfl) (by decide) (by decide)).mpr rfl

/-- One byte, with a key: the loop starts one byte before the block. -/
theorem not_sends_masked :
    ¬ SendsMasked (upgraded [1, 2, 3, 4]) [0x68] true ∧
      ((upgraded [1, 2, 3, 4]).message_header [0x68] true).Masks (-1) (-1) := by
  refine ⟨?_, rfl, le_refl _, by decide⟩
  rintro ⟨-, hsend⟩
  have hfalse := not_sent_of_key (by decide) (by decide) hsend
  cases hfalse

end Connection

end Pump
