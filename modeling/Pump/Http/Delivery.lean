import Pump.Http.Connection
import Pump.Http.Request

/-! # Websocket delivery

    What a peer's `frame_cb` sees of the messages that `connection::send`
    writes, over every way of cutting the bytes into `on_read` segments. -/

namespace Pump

namespace Connection

open ConnectionState

variable {α : Type} {K : Kind α}

/-! ## Section 1: Sending -/

/-- With a key, `iob->data() - size` lies before the memory block. -/
theorem not_sent_of_key {a : Alloc} {c : Connection α} {b : Bytes} {text : Bool}
    {r : Bool × Connection α} (hkey : c.ws_key.length = 4) (hb : b ≠ [])
    (h : c.send a b text = some r) : r.1 = false := by
  unfold send at h
  split at h
  · cases h
    rfl
  · split at h
    · cases h
    · next hsize =>
      simp only [Option.bind_eq_bind, Option.bind_eq_some_iff] at h
      obtain ⟨created, hcreate, h⟩ := h
      rcases created with _ | iob
      · cases h
        rfl
      · simp only [Option.bind_eq_some_iff] at h
        obtain ⟨r₁, hpack, h⟩ := h
        have hr₁ := FrameHeader.pack_header_rpos (IoBuffer.create_rpos hcreate) hpack
        split at h
        · cases h
          rfl
        · simp only [Option.bind_eq_some_iff] at h
          obtain ⟨r₂, hwrite, h⟩ := h
          have hr₂ := IoBuffer.write_rpos hr₁ hwrite
          split at h
          · cases h
            rfl
          · exfalso
            simp only [Option.bind_eq_some_iff] at h
            obtain ⟨block, hmask, -⟩ := h
            have hpos : 0 < b.length := List.length_pos_iff.mpr hb
            -- the length is not zero, so the loop runs
            have hlen : (c.message_header b text).payload_len ≠ 0 := by
              intro h0
              have h0 := congrArg UInt64.toNat h0
              simp only [message_header, FrameHeader.construct, UInt64.toNat_ofNat',
                UInt64.toNat_zero] at h0
              omega
            have hkey' : (c.message_header b text).key.length = 4 := hkey
            unfold FrameHeader.mask_payload at hmask
            rw [if_pos ⟨hkey', hlen⟩, if_neg (by rw [hr₂]; omega)] at hmask
            cases hmask

/-- Without a key, the header and the payload are sent. -/
theorem sent_plain (text : Bool) {c : Connection α} {b : Bytes} (hstarted : c.transp.started = true)
    (hkey : c.ws_key = []) (hb : b ≠ []) (hlen : b.length + 16 < 2 ^ 31) :
    c.send .succeeding b text = some (true, { c with
      transp := { c.transp with
        sent := c.transp.sent ++ [(c.message_header b text).packed ++ b] } }) := by
  have hpos : 0 < b.length := List.length_pos_iff.mpr hb
  have hpacked := FrameHeader.packed_length_le (c.message_header b text)
  obtain ⟨iob₀, h₀, hroom₀, hc₀⟩ := IoBuffer.create_spec (n := 16 + b.length) (by omega) (by omega)
  obtain ⟨iob₁, h₁, hroom₁, hc₁⟩ := FrameHeader.pack_header_spec (a := .succeeding)
    (h := c.message_header b text) hroom₀ (by omega)
  obtain ⟨iob₂, h₂, hroom₂, hc₂⟩ := IoBuffer.write_of_room (a := .succeeding) hroom₁ hb (by omega)
  have hcontent : iob₂.content = (c.message_header b text).packed ++ b := by
    rw [hc₂, hc₁, hc₀, List.nil_append]
  have hsize : iob₂.size ≠ 0 := by
    rw [← IoBuffer.content_length hroom₂.wf, hcontent, List.length_append]
    omega
  have hmask : (c.message_header b text).mask_payload (iob₂.raw.getD [])
      ((iob₂.rpos : Int) - b.length) = some (iob₂.raw.getD []) := by
    have hkey' : (c.message_header b text).key = [] := hkey
    unfold FrameHeader.mask_payload
    rw [hkey', if_neg (by simp)]
  have hraw : ({ iob₂ with raw := some (iob₂.raw.getD []) } : IoBuffer) = iob₂ := by
    obtain ⟨block, hblock⟩ := Option.isSome_iff_exists.mp hroom₂.some_raw
    rw [hblock, Option.getD_some, ← hblock]
  unfold send
  rw [if_neg (by simp [hstarted]), if_neg (by omega)]
  simp [h₀, h₁, h₂, hmask, hraw, Transport.send, hsize, hstarted, hcontent]

/-! ## Section 2: A peer receives one short frame at most -/

/-- The frame header was reset without becoming new. -/
def Stale (c : Connection α) : Prop :=
  c.ws_frame.is_unpacked = true ∧ c.ws_frame.code = wscode_end

/-- No frame so far, or one with less than sixteen bytes and no more. -/
structure AtMostOne (c : Connection α) : Prop where
  upgraded : c.state = state_upgraded
  calls : (c.calls = [] ∧ c.ws_frame.payload_len.toNat < 16) ∨
    ((∃ b fin, c.calls = [.frame_cb b fin] ∧ b.length < 16) ∧ c.Stale)

/-- The cache and the transport do not matter. -/
theorem AtMostOne.same {c c' : Connection α} (hc : c.AtMostOne) (hstate : c'.state = c.state)
    (hframe : c'.ws_frame = c.ws_frame) (hcalls : c'.calls = c.calls) : c'.AtMostOne := by
  refine ⟨hstate.trans hc.upgraded, ?_⟩
  unfold Stale
  rw [hframe, hcalls]
  exact hc.calls

/-- A control frame only bears on the transport. -/
theorem control_frame_eq {a : Alloc} {code : UInt8} {c c' : Connection α}
    (h : c.send_websocket_control_frame code a = some c') : ∃ t, c' = { c with transp := t } := by
  simp only [send_websocket_control_frame, Option.bind_eq_bind, Option.bind_eq_some_iff] at h
  obtain ⟨-, -, iob, -, r, -, h⟩ := h
  split at h
  · cases h
    exact ⟨_, rfl⟩
  · cases h
    exact ⟨c.transp, rfl⟩

/-- What `dispatch_frame` does not bear on: the cache, the packet, the frame
    header, the key and the state. -/
theorem dispatch_eq {a : Alloc} {c : Connection α} {h : FrameHeader} {b : Bytes}
    {r : Bool × Connection α} (he : c.dispatch_frame a h b = some r) :
    ∃ closed t calls, r.2 = { c with ws_closed := closed, transp := t, calls := calls } := by
  unfold dispatch_frame at he
  split at he
  · cases he
    exact ⟨c.ws_closed, c.transp, _, rfl⟩
  · split at he
    · split at he
      · cases he
        exact ⟨c.ws_closed, c.transp, c.calls, rfl⟩
      · obtain ⟨c', hsend, rfl⟩ := Option.map_eq_some_iff.mp he
        obtain ⟨t, rfl⟩ := control_frame_eq hsend
        exact ⟨true, t.stop, c.calls, rfl⟩
    · split at he
      · obtain ⟨c', hsend, rfl⟩ := Option.map_eq_some_iff.mp he
        obtain ⟨t, rfl⟩ := control_frame_eq hsend
        exact ⟨c.ws_closed, t, c.calls, rfl⟩
      · split at he
        · cases he
          exact ⟨c.ws_closed, c.transp, c.calls, rfl⟩
        · cases he
          exact ⟨c.ws_closed, c.transp, c.calls, rfl⟩

/-- What `dispatch_frame` can do to the calls. -/
theorem dispatch_cases {a : Alloc} {c : Connection α} {h : FrameHeader} {b : Bytes}
    {r : Bool × Connection α} (he : c.dispatch_frame a h b = some r) :
    r.2.state = c.state ∧ r.2.ws_frame = c.ws_frame ∧
      (r.2.calls = c.calls ∨ (r.2.calls = c.calls ++ [.frame_cb b h.fin] ∧ h.code ≠ wscode_end ∧
        r.1 = true)) ∧ (h.code = wscode_end → r.1 = false) := by
  unfold dispatch_frame at he
  -- data frames, close, ping, pong, and the rest
  split at he
  · next hcode =>
    cases he
    have hend : h.code ≠ wscode_end := by
      intro hc
      rw [hc] at hcode
      revert hcode
      decide
    exact ⟨rfl, rfl, Or.inr ⟨rfl, hend, rfl⟩, fun hc => absurd hc hend⟩
  · split at he
    · next hcode =>
      have hend : h.code ≠ wscode_end := by
        rw [hcode]
        decide
      split at he
      · cases he
        exact ⟨rfl, rfl, Or.inl rfl, fun hc => absurd hc hend⟩
      · obtain ⟨c', hsend, rfl⟩ := Option.map_eq_some_iff.mp he
        obtain ⟨t, rfl⟩ := control_frame_eq hsend
        exact ⟨rfl, rfl, Or.inl rfl, fun hc => absurd hc hend⟩
    · split at he
      · next hcode =>
        have hend : h.code ≠ wscode_end := by
          rw [hcode]
          decide
        obtain ⟨c', hsend, rfl⟩ := Option.map_eq_some_iff.mp he
        obtain ⟨t, rfl⟩ := control_frame_eq hsend
        exact ⟨rfl, rfl, Or.inl rfl, fun hc => absurd hc hend⟩
      · split at he
        · next hcode =>
          have hend : h.code ≠ wscode_end := by
            rw [hcode]
            decide
          cases he
          exact ⟨rfl, rfl, Or.inl rfl, fun hc => absurd hc hend⟩
        · cases he
          exact ⟨rfl, rfl, Or.inl rfl, fun _ => rfl⟩

/-- A receive step leaves a header whose length was kept by the mask; a
    ready one is unpacked. -/
theorem receive_step_bounds {h h' : FrameHeader} {iob iob' : IoBuffer} {ready : Bool}
    (hl : h.payload_len.toNat < 16) (he : h.receive_step iob = some (ready, h', iob')) :
    h'.payload_len.toNat < 16 ∧ (ready = true → h'.is_unpacked = true) := by
  simp only [FrameHeader.receive_step, Option.bind_eq_bind, Option.bind_eq_some_iff,
    Prod.exists] at he
  obtain ⟨h₁, iob₁, hunpack, he⟩ := he
  have hl₁ : h₁.payload_len.toNat < 16 := by
    split at hunpack
    · exact (FrameHeader.unpack_header_bounds hl hunpack).1
    · cases hunpack
      exact hl
  split at he
  · cases he
    exact ⟨hl₁, fun hr => by cases hr⟩
  · next hdone =>
    split at he
    · cases he
      exact ⟨hl₁, fun hr => by cases hr⟩
    · cases he
      exact ⟨hl₁, fun _ => by simpa using hdone⟩

theorem receive_step_unpacked {h h' : FrameHeader} {iob iob' : IoBuffer} {ready : Bool}
    (hu : h.is_unpacked = true) (he : h.receive_step iob = some (ready, h', iob')) :
    h' = h ∧ iob' = iob := by
  simp only [FrameHeader.receive_step, hu, Bool.not_true, Bool.false_eq_true, if_false,
    Option.bind_eq_bind, Option.bind_some] at he
  split at he
  · cases he
    exact ⟨rfl, rfl⟩
  · cases he
    exact ⟨rfl, rfl⟩

theorem handle_frame_at_most_one {a : Alloc} {c : Connection α} {iob : IoBuffer}
    {r : Bool × IoBuffer × Connection α} (hc : c.AtMostOne) (hu : c.ws_frame.is_unpacked = true)
    (h : c.handle_frame a iob = some r) : r.2.2.AtMostOne := by
  simp only [handle_frame, Option.bind_eq_bind, Option.bind_eq_some_iff] at h
  obtain ⟨block, -, d, hdispatch, h⟩ := h
  obtain ⟨hstate, hframe, hcalls, hend⟩ := dispatch_cases hdispatch
  rcases hc.calls with ⟨hnone, hlen⟩ | ⟨hone, hstale⟩
  · rcases hcalls with hsame | ⟨hcall, hcode, hok⟩
    · split at h
      · cases h
        exact ⟨hstate.trans hc.upgraded, Or.inl ⟨hsame.trans hnone, by rw [hframe]; exact hlen⟩⟩
      · cases h
        exact ⟨hstate.trans hc.upgraded, Or.inl ⟨hsame.trans hnone, by
          show (0 : UInt64).toNat < 16
          decide⟩⟩
    · -- the frame is counted, and the header keeps its mark
      rw [if_neg (by simp [hok])] at h
      cases h
      rw [hnone, List.nil_append] at hcall
      refine ⟨hstate.trans hc.upgraded, Or.inr ⟨⟨_, _, hcall, ?_⟩, ⟨hu, rfl⟩⟩⟩
      rw [List.length_take]
      omega
  · -- a stale header is refused
    have hok := hend hstale.2
    rw [if_pos (by simp [hok])] at h
    cases h
    have hsame : d.2.calls = c.calls := by
      rcases hcalls with hsame | ⟨-, hcode, -⟩
      · exact hsame
      · exact absurd hstale.2 hcode
    refine ⟨hstate.trans hc.upgraded, Or.inr ⟨?_, ?_⟩⟩
    · rw [hsame]
      exact hone
    · show d.2.ws_frame.is_unpacked = true ∧ d.2.ws_frame.code = wscode_end
      rw [hframe]
      exact hstale

theorem handle_at_most_one {a : Alloc} {c : Connection α} {b : Bytes}
    {r : Int × Bytes × Connection α} (h : c.handle a K b = some r) (hc : c.AtMostOne) :
    r.2.2.AtMostOne := by
  unfold handle at h
  rw [hc.upgraded] at h
  simp only [handle_websocket_frame, Option.bind_eq_bind, Option.bind_eq_some_iff,
    Prod.exists] at h
  obtain ⟨ready, hdr, iob, hstep, ok, iob', c', hframe, h⟩ := h
  have hc₁ : AtMostOne { c with ws_frame := hdr } := by
    rcases hc.calls with ⟨hnone, hlen⟩ | ⟨hone, hstale⟩
    · exact ⟨hc.upgraded, Or.inl ⟨hnone, (receive_step_bounds hlen hstep).1⟩⟩
    · obtain ⟨rfl, -⟩ := receive_step_unpacked hstale.1 hstep
      exact hc
  have hready : ready = true → hdr.is_unpacked = true := by
    rcases hc.calls with ⟨hnone, hlen⟩ | ⟨hone, hstale⟩
    · exact (receive_step_bounds hlen hstep).2
    · obtain ⟨rfl, -⟩ := receive_step_unpacked hstale.1 hstep
      exact fun _ => hstale.1
  have hc₂ : c'.AtMostOne := by
    split at hframe
    · next hr => exact handle_frame_at_most_one hc₁ (hready hr) hframe
    · cases hframe
      exact hc₁
  split at h
  · cases h
    exact hc₂
  · split at h
    · cases h
      exact hc₂.same rfl rfl rfl
    · cases h
      exact hc₂.same rfl rfl rfl

theorem on_read_at_most_one {a : Alloc} {c : Connection α} {b : Bytes} {r : Int × Connection α}
    (hc : c.AtMostOne) (h : c.on_read a K b = some r) : r.2.AtMostOne := by
  simp only [on_read, Option.bind_eq_bind, Option.bind_eq_some_iff] at h
  obtain ⟨r₁, hblock, h⟩ := h
  have hr₁ : r₁.2.AtMostOne := by
    simp only [read_block, Option.bind_eq_bind, Option.bind_eq_some_iff] at hblock
    obtain ⟨created, -, hblock⟩ := hblock
    rcases created with _ | cache
    · cases hblock
      exact hc.same rfl rfl rfl
    · simp only at hblock
      split at hblock
      · simp only [read_cached, Option.bind_eq_bind, Option.bind_eq_some_iff] at hblock
        obtain ⟨w, -, hblock⟩ := hblock
        split at hblock
        · cases hblock
          exact hc.same rfl rfl rfl
        · simp only [Option.bind_eq_some_iff] at hblock
          obtain ⟨r₂, hhandle, raw, -, hblock⟩ := hblock
          have hr₂ : r₂.2.2.AtMostOne := handle_at_most_one hhandle (hc.same rfl rfl rfl)
          split at hblock
          · cases hblock
            exact hr₂.same rfl rfl rfl
          · cases hblock
            exact hr₂.same rfl rfl rfl
      · simp only [read_direct, Option.bind_eq_bind, Option.bind_eq_some_iff] at hblock
        obtain ⟨r₂, hhandle, hblock⟩ := hblock
        have hr₂ : r₂.2.2.AtMostOne := handle_at_most_one hhandle (hc.same rfl rfl rfl)
        split at hblock
        · simp only [Option.bind_eq_some_iff] at hblock
          obtain ⟨w, -, hblock⟩ := hblock
          cases hblock
          exact hr₂.same rfl rfl rfl
        · cases hblock
          exact hr₂.same rfl rfl rfl
  split at h
  · cases h
    exact hr₁.same rfl rfl rfl
  · cases h
    exact hr₁.same rfl rfl rfl

theorem read_all_at_most_one {a : Alloc} {c : Connection α} {segs : List Bytes}
    {r : List Int × Connection α} (hc : c.AtMostOne) (h : c.read_all a K segs = some r) :
    r.2.AtMostOne := by
  induction segs generalizing c r with
  | nil =>
    cases h
    exact hc
  | cons seg segs ih =>
    simp only [read_all, Option.bind_eq_bind, Option.bind_eq_some_iff] at h
    obtain ⟨r₁, hread, rs, hrest, h⟩ := h
    have hrs := ih (on_read_at_most_one hc hread) hrest
    cases h
    exact hrs

/-! ## Section 3: A short frame arrives -/

/-- The cache is not there yet, or is a buffer of its own. -/
def CacheOk (c : Connection α) : Prop :=
  ∀ iob, c.cache = some iob → iob.Wf ∧ iob.alloced = true

/-- The bytes in the cache. -/
def pending (c : Connection α) : Bytes := (c.cache.map IoBuffer.content).getD []

/-- What `on_read` does around a handler that takes `n` bytes and leaves the
    memory alone. -/
theorem on_read_took (c' : Connection α) {c : Connection α} {b : Bytes} {n : Nat} (hcache : c.CacheOk) (hb : b ≠ [])
    (hsmall : (c.pending ++ b).length < 2 ^ 28) (hn : n ≤ (c.pending ++ b).length)
    (hhandle : ∀ cache, handle .succeeding K { c with
        transp := { c.transp with read_pending := false }
        cache := cache } (c.pending ++ b) =
      some ((n : Int), c.pending ++ b, { c' with cache := cache })) :
    ∃ cache, on_read .succeeding K c b = some ((n : Int), { c' with cache := some cache }) ∧
      cache.Wf ∧ cache.alloced = true ∧ cache.content = (c.pending ++ b).drop n := by
  -- the cache is created when there is none
  obtain ⟨iob, hcreated, hwf, halloced, hpending⟩ : ∃ iob,
      (∀ t, create_cache .succeeding { c with transp := t } = some (some iob)) ∧
      iob.Wf ∧ iob.alloced = true ∧ c.pending = iob.content := by
    rcases hc : c.cache with _ | iob
    · refine ⟨IoBuffer.construct true, ?_, IoBuffer.wf_construct true, rfl, ?_⟩
      · intro t
        simp only [create_cache]
        rfl
      · simp [pending, hc, IoBuffer.content, IoBuffer.construct]
    · obtain ⟨hwf, halloced⟩ := hcache iob hc
      refine ⟨iob, ?_, hwf, halloced, by simp [pending, hc]⟩
      intro t
      simp only [create_cache]
  have hne : ¬ (n : Int) = -1 := by omega
  have hlen := IoBuffer.content_length hwf
  rw [hpending] at hsmall hn hhandle ⊢
  rw [List.length_append] at hsmall hn
  by_cases hsize : iob.size > 0
  · -- the bytes are added to the cache and taken from it
    obtain ⟨w, hwrite, hwf', halloced', hcontent⟩ := IoBuffer.write_spec hwf halloced hb (by omega)
    have hwlen := IoBuffer.content_length hwf'
    rw [hcontent, List.length_append] at hwlen
    have hstore := IoBuffer.store_content hwf'
    rw [hcontent] at hstore
    have hraw : ({ w with raw := some (w.raw.getD []) } : IoBuffer) = w := by
      have hblock := hwf'.block_length
      have hwin := hwf'.window
      rcases hr : w.raw with _ | block
      · rw [hr, Option.getD_none, List.length_nil] at hblock
        omega
      · rw [Option.getD_some, ← hr]
    refine ⟨w.advance n, ?_, IoBuffer.wf_advance hwf' (by omega), halloced', ?_⟩
    · have hshift := IoBuffer.shift_forward hwf' (n := n) (by omega)
      unfold on_read read_block
      simp only [hcreated, Option.bind_eq_bind, Option.bind_some, if_pos hsize]
      unfold read_cached
      simp only [hwrite, hcontent, hhandle, hstore, hraw, hshift, Option.bind_eq_bind,
        Option.bind_some, Bool.not_true, Bool.false_eq_true, if_false, if_neg hne]
    · rw [IoBuffer.content_advance, hcontent]
  · -- the bytes that are not taken go to the cache
    have hzero : iob.size = 0 := by omega
    have hnil : iob.content = [] := IoBuffer.content_of_size_zero hzero
    rw [hnil, List.nil_append] at hhandle ⊢
    rw [hnil, List.length_nil] at hn hsmall
    by_cases hall : n = b.length
    · refine ⟨iob, ?_, hwf, halloced, by rw [hnil, hall, List.drop_length]⟩
      unfold on_read read_block
      simp only [hcreated, Option.bind_eq_bind, Option.bind_some, if_neg hsize]
      unfold read_direct
      simp only [hhandle, Option.bind_eq_bind, Option.bind_some]
      rw [if_neg (by omega)]
      simp only [Option.bind_some, if_neg hne]
    · have hrest : b.drop n ≠ [] := by
        intro hnil'
        have := congrArg List.length hnil'
        rw [List.length_drop, List.length_nil] at this
        omega
      obtain ⟨w, hwrite, hwf', halloced', hcontent⟩ :=
        IoBuffer.write_spec hwf halloced hrest (by rw [List.length_drop]; omega)
      refine ⟨w, ?_, hwf', halloced', by rw [hcontent, hnil, List.nil_append]⟩
      unfold on_read read_block
      simp only [hcreated, Option.bind_eq_bind, Option.bind_some, if_neg hsize]
      unfold read_direct
      simp only [hhandle, Option.bind_eq_bind, Option.bind_some]
      rw [if_pos ⟨hne, by omega⟩]
      simp only [Int.toNat_natCast, hwrite, Option.bind_some, if_neg hne]

/-- A frame that is not complete: the handler keeps what it unpacked. -/
theorem handle_waits {c : Connection α} {b : Bytes} {h : FrameHeader} {n : Nat}
    (hstate : c.state = state_upgraded) (hstarted : c.transp.started = true)
    (hread : c.transp.read_pending = false) (hn : n ≤ b.length)
    (hstep : c.ws_frame.receive_step (IoBuffer.create_by_reference b) =
      some (false, h, (IoBuffer.create_by_reference b).advance n)) :
    handle .succeeding K c b = some ((n : Int), b, { c with
      ws_frame := h
      transp := { c.transp with read_pending := true } }) := by
  have hraw : ((IoBuffer.create_by_reference b).advance n).raw.getD [] = b := by
    show (IoBuffer.create_by_reference b).raw.getD [] = b
    unfold IoBuffer.create_by_reference
    split
    · rfl
    · simp_all [IoBuffer.construct]
  unfold handle handle_websocket_frame
  rw [hstate]
  simp [hstep, async_read, Transport.async_read, hstarted, hread, hraw]
  omega

/-- A complete message without a key. -/
theorem handle_message {c : Connection α} {b p : Bytes} {h : FrameHeader} {n : Nat}
    (hstate : c.state = state_upgraded) (hstarted : c.transp.started = true)
    (hread : c.transp.read_pending = false) (hb : b.length < 2 ^ 31)
    (hcode : h.code = wscode_text ∨ h.code = wscode_bin) (hkey : h.key = [])
    (hrest : b.drop n = p) (hlen : h.payload_len.toNat = p.length) (hp : p ≠ [])
    (hstep : c.ws_frame.receive_step (IoBuffer.create_by_reference b) =
      some (true, h, (IoBuffer.create_by_reference b).advance n)) :
    handle .succeeding K c b = some ((b.length : Int), b, { c with
      ws_frame := h.reset
      transp := { c.transp with read_pending := true }
      calls := c.calls ++ [.frame_cb p h.fin] }) := by
  have hpos : 0 < p.length := List.length_pos_iff.mpr hp
  have hplen : b.length - n = p.length := by rw [← hrest, List.length_drop]
  have hraw : (IoBuffer.create_by_reference b).raw = some b := by
    unfold IoBuffer.create_by_reference
    rw [if_pos (by omega)]
  obtain ⟨iob, hiob⟩ : ∃ iob, iob = (IoBuffer.create_by_reference b).advance n := ⟨_, rfl⟩
  -- the buffer behind the frame header
  have hwf : iob.Wf := by
    rw [hiob]
    apply IoBuffer.wf_advance (IoBuffer.wf_create_by_reference hb)
    rw [IoBuffer.size_create_by_reference]
    omega
  have hcontent : iob.content = p := by
    rw [hiob, IoBuffer.content_advance, IoBuffer.content_create_by_reference, hrest]
  have hiraw : iob.raw = some b := by
    rw [hiob]
    exact hraw
  have hsame : ({ iob with raw := some b } : IoBuffer) = iob := by
    rw [← hiraw]
  have hsize : iob.size = p.length := by rw [← IoBuffer.content_length hwf, hcontent]
  have hmask : h.mask_payload b iob.rpos = some b := by
    unfold FrameHeader.mask_payload
    rw [hkey, if_neg (by simp)]
  have hgt : h.payload_len > 0 := by
    rw [gt_iff_lt, UInt64.lt_iff_toNat_lt, hlen]
    exact hpos
  -- the frame is handed over as it is
  have hdispatch : ∀ c : Connection α, c.dispatch_frame .succeeding h p =
      some (true, { c with calls := c.calls ++ [.frame_cb p h.fin] }) := by
    intro c
    unfold dispatch_frame
    rw [if_pos (Or.inr hcode)]
  have hshift : (iob.shift (p.length : Int)).2 = iob.advance p.length :=
    IoBuffer.shift_forward hwf (by omega)
  have htake : p.take p.length = p := List.take_length
  unfold handle handle_websocket_frame
  rw [hstate]
  rw [← hiob] at hstep
  simp only [hstep, Option.bind_eq_bind, Option.bind_some, if_true]
  unfold handle_frame
  simp only [hiraw, Option.getD_some, if_pos hgt, hmask, Option.bind_eq_bind, Option.bind_some,
    Option.map_some, hsame, hcontent, hlen, htake, hdispatch, hshift, Bool.not_true,
    Bool.false_eq_true, if_false]
  simp [async_read, Transport.async_read, hstarted, hread, hsize, IoBuffer.advance, hiraw]

/-- The header of a message of at most fifteen bytes, without a key. -/
structure ShortMessage (w : FrameHeader) (m : Bytes) : Prop where
  ne_nil : m ≠ []
  length_le : m.length ≤ 15
  header : ∃ text : Bool, w = FrameHeader.construct true (if text then wscode_text else wscode_bin)
    (UInt64.ofNat m.length) []

theorem ShortMessage.fields {w : FrameHeader} {m : Bytes} (hw : ShortMessage w m) :
    w.fin = true ∧ (w.code = wscode_text ∨ w.code = wscode_bin) ∧ w.key = [] ∧
      w.payload_len.toNat = m.length := by
  obtain ⟨text, rfl⟩ := hw.header
  have hle := hw.length_le
  refine ⟨rfl, ?_, rfl, ?_⟩
  · rcases text with _ | _
    · exact Or.inr rfl
    · exact Or.inl rfl
  · show (UInt64.ofNat m.length).toNat = m.length
    rw [UInt64.toNat_ofNat']
    omega

theorem ShortMessage.packed {w : FrameHeader} {m : Bytes} (hw : ShortMessage w m) :
    w.packed = [w.first_byte, w.second_byte] := by
  obtain ⟨-, -, hkey, hlen⟩ := hw.fields
  obtain ⟨text, rfl⟩ := hw.header
  have hle := hw.length_le
  have hlen : (UInt64.ofNat m.length).toNat = m.length := hlen
  exact FrameHeader.packed_short (by omega) (Or.inl rfl)

/-- A header that has not been unpacked becomes that of the message. -/
theorem ShortMessage.unpack {w : FrameHeader} {m : Bytes} (hw : ShortMessage w m)
    {h : FrameHeader} (hkey : h.key = []) {iob : IoBuffer} (hwf : iob.Wf) {p : Bytes}
    (hc : iob.content = w.packed ++ p) :
    h.unpack_header iob = some ({ w with is_unpacked := true }, iob.advance 2) := by
  obtain ⟨hfin, hcode, hwkey, hlen⟩ := hw.fields
  have hpacked := hw.packed
  have hle := hw.length_le
  obtain ⟨text, hheader⟩ := hw.header
  have hnibble : w.code.toNat < 16 := by
    rcases hcode with hcode | hcode
    · rw [hcode]
      decide
    · rw [hcode]
      decide
  have hconstruct : w = FrameHeader.construct w.fin w.code w.payload_len w.key := by
    rw [hheader]
    rfl
  obtain ⟨hbfin, hbcode, hbmask, hblen⟩ := FrameHeader.short_header_bytes w.fin w.key hnibble
    (show w.payload_len.toNat < 16 by omega)
  rw [← hconstruct] at hbfin hbcode hbmask hblen
  have hmask : ¬ w.second_byte &&& 0x80 > 0 := by
    rw [hbmask, hwkey]
    exact fun h => by cases h
  rw [hpacked] at hc
  rw [FrameHeader.unpack_header_complete hwf hc (fun h => absurd h hmask)]
  unfold FrameHeader.unpacked FrameHeader.unpacked_size
  rw [if_neg hmask, if_neg hmask, hbcode, hblen, hkey]
  have hdecide : decide (w.first_byte &&& 0x80 > 0) = w.fin := by
    rw [hfin] at hbfin ⊢
    simpa using hbfin
  rw [hdecide, hheader]
  rfl

/-- The receive step once the header is there. -/
theorem receive_step_eq {h h' : FrameHeader} {iob iob' : IoBuffer}
    (hunpack : (if !h.is_unpacked then h.unpack_header iob else some (h, iob)) = some (h', iob'))
    (hu : h'.is_unpacked = true) :
    h.receive_step iob = some (decide (h'.payload_len.toNat ≤ iob'.size), h', iob') := by
  unfold FrameHeader.receive_step
  rw [hunpack]
  simp only [Option.bind_eq_bind, Option.bind_some, hu, Bool.not_true, Bool.false_eq_true, if_false]
  by_cases hle : h'.payload_len.toNat > iob'.size
  · rw [if_pos hle, decide_eq_false (by omega)]
  · rw [if_neg hle, decide_eq_true (by omega)]

/-- A peer that takes websocket frames. -/
structure Receiving (c : Connection α) : Prop where
  upgraded : c.state = state_upgraded
  started : c.transp.started = true
  cache : c.CacheOk

/-- A peer that has got a part of the message `m`; `rest` is still to come. -/
structure Waiting (w : FrameHeader) (m : Bytes) (c : Connection α) (rest : Bytes) : Prop where
  receiving : c.Receiving
  no_calls : c.calls = []
  progress : (c.ws_frame.is_unpacked = false ∧ c.ws_frame.key = [] ∧
      c.pending ++ rest = w.packed ++ m) ∨
    (c.ws_frame = { w with is_unpacked := true } ∧ c.pending ++ rest = m)

theorem Waiting.bound {w : FrameHeader} {m : Bytes} {c : Connection α} {rest : Bytes}
    (hw : ShortMessage w m) (h : Waiting w m c rest) : (c.pending ++ rest).length ≤ 17 := by
  have hle := hw.length_le
  rcases h.progress with ⟨-, -, heq⟩ | ⟨-, heq⟩
  · rw [heq, hw.packed, List.length_append, List.length_cons, List.length_cons, List.length_nil]
    omega
  · rw [heq]
    omega

/-- What the receive step makes of the bytes `b` that a waiting peer has:
    either they end in the header, or the header is there. -/
theorem Waiting.receive {w : FrameHeader} {m : Bytes} {c : Connection α} {seg rest : Bytes}
    (hw : ShortMessage w m) (h : Waiting w m c (seg ++ rest)) :
    (∃ hdr, c.ws_frame.receive_step (IoBuffer.create_by_reference (c.pending ++ seg)) =
        some (false, hdr, (IoBuffer.create_by_reference (c.pending ++ seg)).advance 0) ∧
        hdr.is_unpacked = false ∧ hdr.key = [] ∧ rest ≠ [] ∧
        c.pending ++ seg ++ rest = w.packed ++ m) ∨
      (∃ n, c.ws_frame.receive_step (IoBuffer.create_by_reference (c.pending ++ seg)) =
          some (decide (rest = []), { w with is_unpacked := true },
            (IoBuffer.create_by_reference (c.pending ++ seg)).advance n) ∧
        n ≤ (c.pending ++ seg).length ∧ (c.pending ++ seg).drop n ++ rest = m) := by
  have hbound := h.bound hw
  obtain ⟨-, -, -, hlen⟩ := hw.fields
  obtain ⟨b, hb⟩ : ∃ b, b = c.pending ++ seg := ⟨_, rfl⟩
  rw [← List.append_assoc, ← hb] at hbound
  rw [← hb]
  rw [List.length_append] at hbound
  have hwf : (IoBuffer.create_by_reference b).Wf := IoBuffer.wf_create_by_reference (by omega)
  have hcontent := IoBuffer.content_create_by_reference b
  have hsize := IoBuffer.size_create_by_reference b
  -- the frame is ready when nothing is left to come
  have hready : ∀ n, n ≤ b.length → b.drop n ++ rest = m →
      decide (w.payload_len.toNat ≤ ((IoBuffer.create_by_reference b).advance n).size) =
        decide (rest = []) := by
    intro n hn hm
    have hl := congrArg List.length hm
    rw [List.length_append, List.length_drop] at hl
    have hiff : rest = [] ↔ rest.length = 0 := List.length_eq_zero_iff.symm
    rw [decide_eq_decide, hiff, IoBuffer.advance_size, hsize, hlen]
    omega
  rcases h.progress with ⟨hu, hkey, heq⟩ | ⟨hframe, heq⟩
  · rw [← List.append_assoc, ← hb] at heq
    by_cases hshort : b.length < 2
    · left
      obtain ⟨hdr, hunpack, hu', hkey'⟩ := FrameHeader.unpack_header_short hwf hu
        (by rw [hcontent]; exact hshort)
      refine ⟨hdr, ?_, hu', by rw [hkey', hkey], ?_, heq⟩
      · unfold FrameHeader.receive_step
        simp [hu, hunpack, hu']
      · intro hnil
        have hl := congrArg List.length heq
        rw [hnil, hw.packed, List.append_nil, List.length_append] at hl
        simp only [List.length_cons, List.length_nil] at hl
        omega
    · right
      have htwo : w.packed.length = 2 := by rw [hw.packed]; rfl
      have htake : b.take 2 = w.packed := by
        have ht := congrArg (List.take 2) heq
        rw [List.take_append_of_le_length (by omega), List.take_left' htwo] at ht
        exact ht
      have hdrop : b.drop 2 ++ rest = m := by
        have hd := congrArg (List.drop 2) heq
        rw [List.drop_append_of_le_length (by omega), List.drop_left' htwo] at hd
        exact hd
      have hparts : b = w.packed ++ b.drop 2 := by
        rw [← htake, List.take_append_drop]
      have hunpack := hw.unpack hkey hwf (hcontent.trans hparts)
      refine ⟨2, ?_, by omega, hdrop⟩
      rw [receive_step_eq (by rw [hu]; exact hunpack) rfl]
      simp only [hready 2 (by omega) hdrop]
  · right
    rw [← List.append_assoc, ← hb] at heq
    refine ⟨0, ?_, Nat.zero_le _, heq⟩
    rw [hframe, receive_step_eq (by rfl) rfl]
    have hz := hready 0 (Nat.zero_le _) heq
    rw [IoBuffer.advance_zero] at hz
    simp only [hz, IoBuffer.advance_zero]

/-- **Step.** A segment leaves the peer waiting for the rest, or completes
    the message. -/
theorem Waiting.step {w : FrameHeader} {m : Bytes} {c : Connection α} {seg rest : Bytes}
    (hw : ShortMessage w m) (h : Waiting w m c (seg ++ rest)) (hseg : seg ≠ []) :
    ∃ (n : Nat) (c' : Connection α), on_read .succeeding K c seg = some ((n : Int), c') ∧
      (rest ≠ [] → Waiting w m c' rest) ∧ (rest = [] → c'.calls = [.frame_cb m true]) := by
  have hbound := h.bound hw
  rw [← List.append_assoc, List.length_append] at hbound
  have hbound' : (c.pending ++ seg).length ≤ 17 := by omega
  obtain ⟨hstate, hstarted, hcache⟩ := h.receiving
  obtain ⟨hfin, hcode, hkey, hlen⟩ := hw.fields
  rcases h.receive hw with ⟨hdr, hstep, hu, hkey', hrest, heq⟩ | ⟨n, hstep, hn, heq⟩
  · -- the segment ends in the header
    have hhandle := fun cache => handle_waits (K := K) (c := { c with
      transp := { c.transp with read_pending := false }, cache := cache })
      hstate hstarted rfl (Nat.zero_le _) hstep
    obtain ⟨cache, hread, hwf, halloced, hcontent⟩ :=
      on_read_took { c with ws_frame := hdr, transp := { c.transp with read_pending := true } }
        hcache hseg (by omega) (Nat.zero_le _) hhandle
    refine ⟨0, _, hread, ?_, fun hnil => absurd hnil hrest⟩
    intro _
    refine ⟨⟨hstate, hstarted, ?_⟩, h.no_calls, Or.inl ⟨hu, hkey', ?_⟩⟩
    · intro iob hiob
      cases hiob
      exact ⟨hwf, halloced⟩
    · show cache.content ++ rest = w.packed ++ m
      rw [hcontent, List.drop_zero]
      exact heq
  · by_cases hrest : rest = []
    · -- the last segment of the frame
      rw [decide_eq_true hrest] at hstep
      rw [hrest, List.append_nil] at heq
      have hhandle := fun cache => handle_message (K := K) (c := { c with
        transp := { c.transp with read_pending := false }, cache := cache })
        (h := { w with is_unpacked := true }) hstate hstarted rfl
        (show (c.pending ++ seg).length < 2 ^ 31 by omega) hcode hkey heq hlen
        hw.ne_nil hstep
      obtain ⟨cache, hread, -, -, -⟩ :=
        on_read_took { c with
          ws_frame := FrameHeader.reset { w with is_unpacked := true }
          transp := { c.transp with read_pending := true }
          calls := c.calls ++ [.frame_cb m w.fin] } hcache hseg (by omega) (Nat.le_refl _) hhandle
      refine ⟨(c.pending ++ seg).length, _, hread, fun hne => absurd hrest hne, ?_⟩
      intro _
      show c.calls ++ [.frame_cb m w.fin] = _
      rw [h.no_calls, hfin]
      rfl
    · -- the header is there
      rw [decide_eq_false hrest] at hstep
      have hhandle := fun cache => handle_waits (K := K) (c := { c with
        transp := { c.transp with read_pending := false }, cache := cache })
        hstate hstarted rfl hn hstep
      obtain ⟨cache, hread, hwf, halloced, hcontent⟩ :=
        on_read_took { c with
          ws_frame := { w with is_unpacked := true }
          transp := { c.transp with read_pending := true } } hcache hseg (by omega) hn hhandle
      refine ⟨n, _, hread, ?_, fun hnil => absurd hnil hrest⟩
      intro _
      refine ⟨⟨hstate, hstarted, ?_⟩, h.no_calls, Or.inr ⟨rfl, ?_⟩⟩
      · intro iob hiob
        cases hiob
        exact ⟨hwf, halloced⟩
      · show cache.content ++ rest = m
        rw [hcontent]
        exact heq

/-- **Run.** Over any segments the message is delivered once. -/
theorem Waiting.run {w : FrameHeader} {m : Bytes} {c : Connection α} {segs : List Bytes}
    (hw : ShortMessage w m) (h : Waiting w m c segs.flatten) (hsegs : ∀ seg ∈ segs, seg ≠ [])
    (hne : segs ≠ []) :
    ∃ sizes c', read_all .succeeding K c segs = some (sizes, c') ∧ (-1 : Int) ∉ sizes ∧
      c'.calls = [.frame_cb m true] := by
  induction segs generalizing c with
  | nil => exact absurd rfl hne
  | cons seg segs ih =>
    rw [List.flatten_cons] at h
    have hseg := hsegs seg List.mem_cons_self
    have htail : ∀ s ∈ segs, s ≠ [] := fun s hs => hsegs s (List.mem_cons_of_mem seg hs)
    obtain ⟨n, c', hread, hwait, hdone⟩ := h.step (K := K) hw hseg
    have hn : (-1 : Int) ≠ n := by omega
    rcases segs with _ | ⟨seg', segs⟩
    · refine ⟨[(n : Int)], c', ?_, ?_, hdone rfl⟩
      · simp [read_all, hread]
      · simp
    · -- the next segment is not empty, so the frame is not complete
      have hrest : (seg' :: segs).flatten ≠ [] := by
        intro hnil
        rw [List.flatten_cons, List.append_eq_nil_iff] at hnil
        exact htail seg' List.mem_cons_self hnil.1
      obtain ⟨sizes, c'', hall, hsizes, hcalls⟩ :=
        ih (hwait hrest) htail (List.cons_ne_nil seg' segs)
      refine ⟨(n : Int) :: sizes, c'', ?_, ?_, hcalls⟩
      · unfold read_all
        simp [hread, hall]
      · rw [List.mem_cons, not_or]
        exact ⟨hn, hsizes⟩

/-! ## Section 4: Delivery -/

/-- A way of cutting the bytes `s` into segments. -/
def Segments (s : Bytes) (segs : List Bytes) : Prop :=
  (∀ seg ∈ segs, seg ≠ []) ∧ segs.flatten = s

/-- The calls of `frame_cb` that the messages ask for. -/
def frames (msgs : List (Bytes × Bool)) : List (Call α) :=
  msgs.map fun msg => .frame_cb msg.1 true

/-- All messages are sent, and over all segments of what was sent the peer
    gets them one by one and reports no parse error. -/
def Delivers (K : Kind α) (sender peer : Connection α) (msgs : List (Bytes × Bool)) : Prop :=
  ∃ c, send_all .succeeding sender msgs = some c ∧
    ∀ segs, Segments c.transp.sent.flatten segs →
      ∃ sizes c', read_all .succeeding K peer segs = some (sizes, c') ∧ (-1 : Int) ∉ sizes ∧
        c'.calls = frames msgs

/-- A connection that has sent nothing yet. -/
structure Sender (c : Connection α) : Prop where
  started : c.transp.started = true
  nothing_sent : c.transp.sent = []
  key : c.ws_key = [] ∨ c.ws_key.length = 4

/-- An upgraded connection that has received nothing yet. -/
structure Peer (c : Connection α) : Prop where
  receiving : c.Receiving
  no_calls : c.calls = []
  new_frame : c.ws_frame = FrameHeader.fresh
  nothing_cached : c.pending = []

theorem exists_segments (s : Bytes) : ∃ segs, Segments s segs := by
  by_cases hs : s = []
  · exact ⟨[], by simp [Segments, hs]⟩
  · exact ⟨[s], by simp [Segments, hs]⟩

/-- What is delivered is one message of less than sixteen bytes, or none. -/
theorem Delivers.at_most_one {sender peer : Connection α} {msgs : List (Bytes × Bool)}
    (hpeer : Peer peer) (h : Delivers K sender peer msgs) :
    msgs = [] ∨ ∃ msg, msgs = [msg] ∧ msg.1.length ≤ 15 := by
  obtain ⟨c, -, hall⟩ := h
  obtain ⟨segs, hsegs⟩ := exists_segments c.transp.sent.flatten
  obtain ⟨sizes, c', hread, -, hcalls⟩ := hall segs hsegs
  have hstart : peer.AtMostOne := by
    refine ⟨hpeer.receiving.upgraded, Or.inl ⟨hpeer.no_calls, ?_⟩⟩
    rw [hpeer.new_frame]
    decide
  have hend := read_all_at_most_one hstart hread
  rcases hend.calls with ⟨hnone, -⟩ | ⟨⟨b, fin, hone, hlen⟩, -⟩
  · left
    rw [hcalls] at hnone
    exact List.map_eq_nil_iff.mp hnone
  · right
    have hone : frames msgs = [.frame_cb b fin] := hcalls.symm.trans hone
    obtain ⟨msg, hmsgs, hmsg⟩ := List.map_eq_singleton_iff.mp hone
    refine ⟨msg, hmsgs, ?_⟩
    cases hmsg
    omega

/-- With a key nothing is sent. -/
theorem Delivers.no_key {sender peer : Connection α} {msg : Bytes × Bool}
    {msgs : List (Bytes × Bool)} (hsender : Sender sender) (hmsg : msg.1 ≠ [])
    (h : Delivers K sender peer (msg :: msgs)) : sender.ws_key = [] := by
  obtain ⟨c, hsend, -⟩ := h
  rcases hsender.key with hkey | hkey
  · exact hkey
  · exfalso
    simp only [send_all, Option.bind_eq_bind, Option.bind_eq_some_iff] at hsend
    obtain ⟨r, hr, hsend⟩ := hsend
    have hfalse := not_sent_of_key hkey hmsg hr
    rw [if_neg (by simp [hfalse])] at hsend
    cases hsend

/-- One short message without a key is delivered. -/
theorem delivers_short {sender peer : Connection α} {msg : Bytes × Bool}
    (hsender : Sender sender) (hpeer : Peer peer) (hkey : sender.ws_key = []) (hmsg : msg.1 ≠ [])
    (hlen : msg.1.length ≤ 15) : Delivers K sender peer [msg] := by
  have hw : ShortMessage (sender.message_header msg.1 msg.2) msg.1 := by
    refine ⟨hmsg, hlen, msg.2, ?_⟩
    unfold message_header
    rw [hkey]
  have hsend := sent_plain msg.2 hsender.started hkey hmsg (by omega)
  rw [hsender.nothing_sent, List.nil_append] at hsend
  refine ⟨_, by simp only [send_all, hsend, Option.bind_eq_bind, Option.bind_some, if_true]; rfl, ?_⟩
  rintro segs ⟨hsegs, hflat⟩
  have hwire : segs.flatten = (sender.message_header msg.1 msg.2).packed ++ msg.1 := by
    rw [hflat]
    exact List.flatten_singleton
  have hne : segs ≠ [] := by
    intro hnil
    rw [hnil, hw.packed] at hwire
    cases hwire
  refine Waiting.run hw ⟨hpeer.receiving, hpeer.no_calls, Or.inl ⟨?_, ?_, ?_⟩⟩ hsegs hne
  · rw [hpeer.new_frame]
    rfl
  · rw [hpeer.new_frame]
    rfl
  · rw [hpeer.nothing_cached, hwire, List.nil_append]

/-- **Websocket delivery.** `mask_payload` gets a pointer before the
    payload, the length mask keeps four bits, and the header of the first
    frame stays marked as unpacked. -/
theorem delivers_iff {sender peer : Connection α} {msgs : List (Bytes × Bool)}
    (hsender : Sender sender) (hpeer : Peer peer) (hmsgs : ∀ msg ∈ msgs, msg.1 ≠ []) :
    Delivers K sender peer msgs ↔
      msgs = [] ∨ (sender.ws_key = [] ∧ ∃ msg, msgs = [msg] ∧ msg.1.length ≤ 15) := by
  constructor
  · intro h
    rcases h.at_most_one hpeer with hnil | ⟨msg, rfl, hlen⟩
    · exact Or.inl hnil
    · have hkey := h.no_key hsender (hmsgs msg List.mem_cons_self)
      exact Or.inr ⟨hkey, msg, rfl, hlen⟩
  · rintro (rfl | ⟨hkey, msg, rfl, hlen⟩)
    · refine ⟨sender, rfl, ?_⟩
      rintro segs ⟨hsegs, hflat⟩
      -- no bytes, so no segments
      rcases segs with _ | ⟨seg, segs⟩
      · exact ⟨[], peer, rfl, List.not_mem_nil, hpeer.no_calls⟩
      · rw [hsender.nothing_sent, List.flatten_cons, List.flatten_nil,
          List.append_eq_nil_iff] at hflat
        exact absurd hflat.1 (hsegs seg List.mem_cons_self)
    · exact delivers_short hsender hpeer hkey (hmsgs msg List.mem_cons_self) hlen

/-- A connection right after the upgrade. -/
def upgraded (key : Bytes) : Connection RequestFields :=
  ⟨state_upgraded, none, none, FrameHeader.fresh, key, false, ⟨true, true, []⟩, []⟩

theorem upgraded_sender {key : Bytes} (hkey : key = [] ∨ key.length = 4) : Sender (upgraded key) :=
  ⟨rfl, rfl, hkey⟩

theorem upgraded_peer (key : Bytes) : Peer (upgraded key) :=
  ⟨⟨rfl, rfl, fun _ hiob => by cases hiob⟩, rfl, rfl, rfl⟩

theorem delivers_two_bytes :
    Delivers Request.kind (upgraded []) (upgraded []) [([0x68, 0x69], true)] :=
  (delivers_iff (upgraded_sender (Or.inl rfl)) (upgraded_peer []) (by decide)).mpr
    (Or.inr ⟨rfl, _, rfl, by decide⟩)

/-- Two messages of one byte, a message of sixteen bytes, and a message of
    one byte with a key. -/
theorem not_delivers_two_messages :
    ¬ Delivers Request.kind (upgraded []) (upgraded []) [([0x68], true), ([0x69], true)] ∧
      ¬ Delivers Request.kind (upgraded []) (upgraded []) [(List.replicate 16 0x68, true)] ∧
      ¬ Delivers Request.kind (upgraded [1, 2, 3, 4]) (upgraded []) [([0x68], true)] := by
  refine ⟨?_, ?_, ?_⟩
  · intro h
    rcases h.at_most_one (upgraded_peer []) with hnil | ⟨msg, hone, -⟩
    · cases hnil
    · cases hone
  · intro h
    rcases h.at_most_one (upgraded_peer []) with hnil | ⟨msg, hone, hlen⟩
    · cases hnil
    · cases hone
      revert hlen
      decide
  · intro h
    have hkey := h.no_key (upgraded_sender (Or.inr rfl)) (by decide)
    cases hkey

end Connection

end Pump
