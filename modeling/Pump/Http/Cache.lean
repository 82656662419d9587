import Pump.Toolkit.ByteQueue
import Pump.Http.Pipelining

/-! # The cache of a connection

    `connection::on_read` hands its handler the bytes of `cache_` with those
    received behind them, and puts back what the handler does not take. Over
    a whole run, what was received is what the handlers took, followed by
    what is in the cache. -/

namespace Pump

open ConnectionState ParseStatus

namespace Connection

variable {α : Type} (K : Kind α)

/-! ## Section 1: Model -/

/-- The bytes that `on_read` gives to a handler; the inner `none` when it
    gives up before it calls one. -/
def offered (a : Alloc) (c : Connection α) (b : Bytes) : Option (Option Bytes) := do
  match ← c.create_cache a with
  | none => some none
  | some cache =>
    if cache.size > 0 then
      (cache.write a b).map fun w => if w.1 then some w.2.content else none
    else some (some b)

/-- A connection with what it has received, segment by segment, and the calls
    of its handlers: the bytes offered and the result. -/
structure Traffic (α : Type) where
  conn : Connection α
  received : List Bytes
  handled : List (Bytes × Int)

namespace Traffic

/-- What happens to a connection: its transport reads a segment, or something
    else changes other members than `cache_` and `ws_frame_`. A packet that is
    set is a new one. -/
inductive Event (α : Type) where
  | segment (b : Bytes)
  | meanwhile (state : ConnectionState) (packet : Option α) (ws_key : Bytes) (ws_closed : Bool)
      (transp : Transport) (calls : List (Call α))

/-- A step; a handler that returns `-1` ends the run. -/
def step (t : Traffic α) : Event α → Option (Traffic α)
  | .segment b => do
    let given ← t.conn.offered .succeeding b
    let r ← t.conn.on_read .succeeding K b
    match given with
    | none => some ⟨r.2, t.received ++ [b], t.handled⟩
    | some bytes =>
      if r.1 = -1 then none
      else some ⟨r.2, t.received ++ [b], t.handled ++ [(bytes, r.1)]⟩
  | .meanwhile state packet ws_key ws_closed transp calls =>
    some { t with conn := { t.conn with
      state := state
      pending_packet := (packet.map Packet.construct).or t.conn.pending_packet
      ws_key := ws_key
      ws_closed := ws_closed
      transp := transp
      calls := calls } }

/-- The ranges that the handlers reported as consumed. -/
def consumed (t : Traffic α) : List Bytes := t.handled.map fun h => h.1.take h.2.toNat

/-- The bytes cached and received are counted by an `int32_t`. -/
def Counts (t : Traffic α) : Event α → Prop
  | .segment b => t.conn.Counted b
  | .meanwhile .. => True

instance (t : Traffic α) : (ev : Event α) → Decidable (t.Counts ev)
  | .segment _ => inferInstanceAs (Decidable (_ < _))
  | .meanwhile .. => isTrue trivial

/-- A connection that has received nothing yet. -/
structure Opened (t : Traffic α) : Prop where
  no_cache : t.conn.cache = none
  no_packet : t.conn.pending_packet = none
  new_frame : t.conn.ws_frame = FrameHeader.fresh
  no_traffic : t.received = [] ∧ t.handled = []

/-- What holds between the events. -/
structure Sound (t : Traffic α) : Prop where
  cache : t.conn.CacheFits
  packet : ∀ p, t.conn.pending_packet = some p → p.Ongoing
  frame : t.conn.ws_frame.Ok
  conserved : t.received.flatten = t.consumed.flatten ++ t.conn.pending
  bounds : ∀ h ∈ t.handled, 0 ≤ h.2 ∧ h.2 ≤ (h.1.length : Int)

theorem Opened.sound {t : Traffic α} (h : t.Opened) : t.Sound := by
  obtain ⟨hcache, hpacket, hframe, hreceived, hhandled⟩ := h
  refine ⟨?_, ?_, ?_, ?_, ?_⟩
  · intro iob hiob
    rw [hcache] at hiob
    cases hiob
  · intro p hp
    rw [hpacket] at hp
    cases hp
  · rw [hframe]
    exact fun _ _ => rfl
  · simp [consumed, hreceived, hhandled, pending, hcache]
  · simp [hhandled]

end Traffic

/-! ## Section 2: One segment -/

variable {K}

theorem handle_http_frame {c : Connection α} {b : Bytes} {r : Int × Connection α}
    (h : c.handle_http_packet K b = some r) : r.2.ws_frame = c.ws_frame := by
  unfold handle_http_packet at h
  split at h
  · cases h
    rfl
  · simp only [Option.bind_eq_bind, Option.bind_eq_some_iff] at h
    obtain ⟨p', -, h⟩ := h
    split at h
    · cases h
      rfl
    · split at h
      · cases h
        rfl
      · cases h
        rfl

theorem handle_websocket_packet {a : Alloc} {c : Connection α} {b : Bytes}
    {r : Int × Bytes × Connection α} (h : c.handle_websocket_frame a b = some r) :
    r.2.2.pending_packet = c.pending_packet := by
  simp only [handle_websocket_frame, Option.bind_eq_bind, Option.bind_eq_some_iff,
    Prod.exists] at h
  obtain ⟨ready, hdr, iob, -, ok, iob', c₁, hframe, h⟩ := h
  have hpacket : c₁.pending_packet = c.pending_packet := by
    split at hframe
    · simp only [handle_frame, Option.bind_eq_bind, Option.bind_eq_some_iff] at hframe
      obtain ⟨block, -, d, hdispatch, hframe⟩ := hframe
      have hd : d.2.pending_packet = c.pending_packet := by
        obtain ⟨closed, t, calls, hd⟩ := dispatch_eq hdispatch
        rw [hd]
      split at hframe
      · cases hframe
        exact hd
      · cases hframe
        exact hd
    · cases hframe
      rfl
  split at h
  · cases h
    exact hpacket
  · split at h
    · cases h
      exact hpacket
    · cases h
      exact hpacket

/-- A handler that does not fail takes a number of the bytes offered. -/
theorem handle_takes {c c' : Connection α} {b block : Bytes} {n : Int} (hb : b.length < 2 ^ 31)
    (hpacket : ∀ p, c.pending_packet = some p → p.Ongoing) (hframe : c.ws_frame.Ok)
    (h : c.handle .succeeding K b = some (n, block, c')) (hn : n ≠ -1) :
    c'.cache = c.cache ∧ (∃ k, Takes b n block k) ∧
      (∀ p, c'.pending_packet = some p → p.Ongoing) ∧ c'.ws_frame.Ok := by
  unfold handle at h
  split at h
  · -- __handle_http_packet
    obtain ⟨⟨m, c₁⟩, hhttp, hres⟩ := Option.map_eq_some_iff.mp h
    cases hres
    rcases hp : c.pending_packet with _ | p
    · simp only [handle_http_packet, hp, Option.some.injEq, Prod.mk.injEq] at hhttp
      exact absurd hhttp.1.symm hn
    · obtain ⟨k, p', rfl, hparse, -, hcache, hpend, -⟩ := handle_http_left hp hhttp hn
      obtain ⟨hk, hongoing, -⟩ := Packet.parse_left (hpacket p hp) hparse
      have hws := handle_http_frame hhttp
      refine ⟨hcache, ⟨k, rfl, hk, rfl, rfl⟩, ?_, by rw [hws]; exact hframe⟩
      intro q hq
      rw [hpend] at hq
      cases hq
      exact hongoing
  · -- __handle_websocket_frame
    obtain ⟨k, rfl, hk, hlen, hdrop, -, hcache, hok, -⟩ := handle_websocket_left hb hframe h hn
    have hpend := handle_websocket_packet h
    refine ⟨hcache, ⟨k, rfl, hk, hlen, hdrop⟩, ?_, hok⟩
    rw [hpend]
    exact hpacket
  · cases h
    exact absurd rfl hn

/-- What a handler is offered: the bytes cached and received. It is not called
    on an empty segment behind cached bytes. -/
theorem offered_cases {c : Connection α} {b : Bytes} {given : Option Bytes} (hcache : c.CacheFits)
    (hsmall : c.Counted b) (h : c.offered .succeeding b = some given) :
    given = some (c.pending ++ b) ∨
      given = none ∧ b = [] ∧ ∃ cache, c.cache = some cache ∧ cache.size > 0 := by
  unfold offered create_cache at h
  rcases hc : c.cache with _ | cache
  · left
    rw [hc] at h
    cases h
    simp [pending, hc]
  · obtain ⟨hfits, -⟩ := hcache cache hc
    have hpending : c.pending = cache.content := by simp [pending, hc]
    unfold Counted at hsmall
    rw [List.length_append] at hsmall
    rw [hc] at h
    simp only [Option.bind_eq_bind, Option.bind_some] at h
    split at h
    · next hsize =>
      obtain ⟨⟨ok, w⟩, hwrite, hgiven⟩ := Option.map_eq_some_iff.mp h
      cases ok with
      | true =>
        left
        obtain ⟨-, -, hcontent⟩ := IoBuffer.write_sound hfits (by omega) hwrite
        rw [← hgiven, hpending, ← hcontent]
        rfl
      | false =>
        right
        refine ⟨hgiven.symm, ?_, cache, rfl, hsize⟩
        by_contra hb
        cases IoBuffer.write_not_refused hb hwrite
    · next hsize =>
      left
      cases h
      rw [hpending, IoBuffer.content_of_size_zero (by omega)]
      rfl

/-- Without a handler, `on_read` stops the connection and leaves the cache. -/
theorem on_read_empty {c c' : Connection α} {cache : IoBuffer} {n : Int}
    (hc : c.cache = some cache) (hsize : cache.size > 0)
    (h : c.on_read .succeeding K [] = some (n, c')) :
    c'.cache = c.cache ∧ c'.pending_packet = c.pending_packet ∧ c'.ws_frame = c.ws_frame := by
  simp only [on_read, read_block, create_cache, hc, read_cached, IoBuffer.write, hsize,
    Option.bind_eq_bind, Option.bind_some, if_true] at h
  split at h
  · cases h
  · simp only [Option.bind_some, Bool.not_false, if_true, Option.some.injEq, Prod.mk.injEq] at h
    rw [← h.2, hc]
    exact ⟨rfl, rfl, rfl⟩

variable (K) in
/-- **Step.** A segment, and anything else, keeps what was received in the
    consumed ranges and the cache. -/
theorem Traffic.step_sound {t t' : Traffic α} {ev : Traffic.Event α} (h : t.Sound)
    (hok : t.Counts ev) (hstep : t.step K ev = some t') : t'.Sound := by
  obtain ⟨hcache, hpacket, hframe, hconserved, hbounds⟩ := h
  cases ev with
  | meanwhile state packet ws_key ws_closed transp calls =>
    cases hstep
    refine ⟨hcache, ?_, hframe, hconserved, hbounds⟩
    intro p hp
    rcases packet with _ | fields
    · exact hpacket p hp
    · cases hp
      exact ⟨rfl, rfl⟩
  | segment b =>
    simp only [Traffic.step, Option.bind_eq_bind, Option.bind_eq_some_iff, Prod.exists] at hstep
    obtain ⟨given, hgiven, n, c', hread, hstep⟩ := hstep
    rcases offered_cases hcache hok hgiven with rfl | ⟨rfl, rfl, cache, hc, hsize⟩
    · -- a handler was called
      simp only at hstep
      split at hstep
      · cases hstep
      · next hn =>
        have htakes : ∀ c₁ m block c₂, Agrees t.conn c₁ →
            handle .succeeding K c₁ (t.conn.pending ++ b) = some (m, block, c₂) → m ≠ -1 →
            c₂.cache = c₁.cache ∧ (∃ k, Takes (t.conn.pending ++ b) m block k) ∧
              (∀ p, c₂.pending_packet = some p → p.Ongoing) ∧ c₂.ws_frame.Ok := by
          intro c₁ m block c₂ hsame hhandle hm
          refine handle_takes hok ?_ ?_ hhandle hm
          · rw [hsame.pending_packet]
            exact hpacket
          · rw [hsame.ws_frame]
            exact hframe
        obtain ⟨c₁, block, c₂, hsame, hhandle, hsame', hcache', hleft⟩ :=
          on_read_left hcache hok hread hn fun c₁ m block c₂ hsame hhandle hm =>
            ⟨(htakes c₁ m block c₂ hsame hhandle hm).1,
              (htakes c₁ m block c₂ hsame hhandle hm).2.1⟩
        obtain ⟨-, ⟨k, rfl, hk, -, -⟩, hpacket', hframe'⟩ := htakes c₁ n block c₂ hsame hhandle hn
        cases hstep
        refine ⟨hcache', ?_, ?_, ?_, ?_⟩
        · rw [hsame'.pending_packet]
          exact hpacket'
        · rw [hsame'.ws_frame]
          exact hframe'
        · -- what is not taken is in the cache
          show (t.received ++ [b]).flatten =
            (List.map _ (t.handled ++ [(t.conn.pending ++ b, (k : Int))])).flatten ++ c'.pending
          rw [hleft, Int.toNat_natCast, List.map_append, List.flatten_append, List.flatten_append,
            hconserved, List.append_assoc, List.append_assoc]
          simp [Traffic.consumed]
        · intro h hh
          rcases List.mem_append.mp hh with hh | hh
          · exact hbounds h hh
          · rw [List.mem_singleton.mp hh]
            exact ⟨Int.natCast_nonneg k, Int.ofNat_le.mpr hk⟩
    · -- no handler
      simp only at hstep
      cases hstep
      obtain ⟨hcache', hpend', hws'⟩ := on_read_empty hc hsize hread
      refine ⟨?_, ?_, ?_, ?_, hbounds⟩
      · intro iob hiob
        exact hcache iob (hcache' ▸ hiob)
      · rw [hpend']
        exact hpacket
      · rw [hws']
        exact hframe
      · show (t.received ++ [[]]).flatten = t.consumed.flatten ++ c'.pending
        have hpending : c'.pending = t.conn.pending := by
          unfold pending
          rw [hcache']
        rw [hpending, List.flatten_append, List.flatten_singleton, List.append_nil, hconserved]

end Connection

/-! ## Section 3: The handlers return -/

theorem Body.parse_returns {body : Body} (h : body.Live) (b : Bytes) :
    ∃ body', (body.parse b).state = some body' := by
  rcases h with hawait | hchunk
  · rw [Body.parse_awaiting hawait]
    exact ⟨_, rfl⟩
  · have hspec := Body.parse_unfinished_spec hchunk b 0
    unfold Body.parse_unfinished at hspec
    rw [hchunk.unfinished] at hspec
    simp only [Bool.false_eq_true, if_false] at hspec
    rcases hcall : body.parse b with _ | body' | ⟨n, body'⟩
    · rw [hcall] at hspec
      exact hspec.elim
    · exact ⟨body', rfl⟩
    · exact ⟨body', rfl⟩

namespace Packet

variable {α : Type} {K : Kind α}

theorem parse_body_returns {p : Packet α} (h : p.Ongoing) (b : Bytes) :
    ∃ p', (p.parse_body b).state = some p' := by
  unfold parse_body
  split
  · next hs =>
    unfold Ongoing at h
    rw [hs] at h
    obtain ⟨body, hbody, hlive⟩ := h
    obtain ⟨body', hstate⟩ := Body.parse_returns hlive b
    rw [hbody]
    simp only [Reply.state_map, hstate, Option.map_some]
    exact ⟨_, rfl⟩
  · exact ⟨p, rfl⟩

theorem parse_head_returns {p : Packet α} (hs : p.parse_status = PARSE_HEADER)
    (hparsed : p.header.header_parsed = false) (hb : p.body = none) (b : Bytes) :
    ∃ p', (p.parse_head K [] b).state = some p' := by
  rw [parse_head_eq hs hparsed]
  split
  · exact ⟨_, rfl⟩
  · rw [Reply.state_after]
    apply parse_body_returns
    apply finish_header_ongoing
    exact hb
  · exact ⟨_, rfl⟩

/-- `parse` does not abort. -/
theorem parse_returns {p : Packet α} (h : p.Ongoing) (b : Bytes) :
    ∃ p', (p.parse K b).state = some p' := by
  unfold parse
  rcases h.stage with ⟨hs, hparsed, hb⟩ | ⟨hs, hparsed, hb⟩ | hl
  · rw [parse_from_line hs]
    rcases find_http_line_end b with _ | k
    · exact ⟨_, rfl⟩
    · simp only
      split
      · rw [Reply.state_after]
        refine parse_head_returns ?_ ?_ ?_ _
        · rfl
        · exact hparsed
        · exact hb
      · exact ⟨_, rfl⟩
  · rw [parse_from_header hs]
    exact parse_head_returns hs hparsed hb b
  · rw [parse_from_late hl]
    exact parse_body_returns h b

end Packet

namespace Connection

variable {α : Type} {K : Kind α}

theorem handle_http_returns {c : Connection α}
    (hpacket : ∀ p, c.pending_packet = some p → p.Ongoing) (b : Bytes) :
    ∃ r, c.handle_http_packet K b = some r := by
  unfold handle_http_packet
  rcases hp : c.pending_packet with _ | p
  · exact ⟨_, rfl⟩
  · obtain ⟨p', hstate⟩ := Packet.parse_returns (K := K) (hpacket p hp) b
    simp only [hstate, Option.bind_eq_bind, Option.bind_some]
    split
    · exact ⟨_, rfl⟩
    · split
      · exact ⟨_, rfl⟩
      · exact ⟨_, rfl⟩

theorem control_frame_returns (code : UInt8) (c : Connection α) :
    ∃ c', c.send_websocket_control_frame code .succeeding = some c' := by
  obtain ⟨iob, hcreate, hroom, -⟩ := IoBuffer.create_spec (n := 16) (by omega) (by omega)
  have hpacked := FrameHeader.packed_length_le (FrameHeader.construct true code 0 [])
  obtain ⟨iob', hpack, -, -⟩ := FrameHeader.pack_header_spec (a := .succeeding)
    (h := FrameHeader.construct true code 0 []) hroom (by omega)
  unfold send_websocket_control_frame
  simp only [hcreate, hpack, Option.bind_eq_bind, Option.bind_some, if_true]
  exact ⟨_, rfl⟩

theorem dispatch_returns (c : Connection α) (h : FrameHeader) (b : Bytes) :
    ∃ r, c.dispatch_frame .succeeding h b = some r := by
  unfold dispatch_frame
  split
  · exact ⟨_, rfl⟩
  · split
    · split
      · exact ⟨_, rfl⟩
      · obtain ⟨c', hsend⟩ := control_frame_returns wscode_close { c with ws_closed := true }
        simp only [send_wbesocket_close_frame, hsend, Option.map_some]
        exact ⟨_, rfl⟩
    · split
      · obtain ⟨c', hsend⟩ := control_frame_returns wscode_pong c
        simp only [send_websocket_pong_frame, hsend, Option.map_some]
        exact ⟨_, rfl⟩
      · split
        · exact ⟨_, rfl⟩
        · exact ⟨_, rfl⟩

/-- The payload of a ready frame is in the memory that `mask_payload` gets. -/
theorem mask_payload_returns {h : FrameHeader} {block : Bytes} {n : Nat}
    (hlen : n + h.payload_len.toNat ≤ block.length) :
    ∃ block', h.mask_payload block n = some block' ∧ block'.length = block.length := by
  have hok : ∃ block', h.mask_payload block n = some block' := by
    unfold FrameHeader.mask_payload
    split
    · rw [if_pos (Int.natCast_nonneg n)]
      have hload : load block n h.payload_len.toNat =
          some ((block.drop n).take h.payload_len.toNat) := by
        unfold load
        rw [if_pos hlen]
      have hmask : (FrameHeader.mask_bytes h.key
          ((block.drop n).take h.payload_len.toNat)).length = h.payload_len.toNat := by
        simp only [FrameHeader.mask_bytes, List.length_mapIdx, List.length_take, List.length_drop]
        omega
      simp only [Int.toNat_natCast, hload, Option.bind_eq_bind, Option.bind_some]
      unfold store
      rw [if_pos (by rw [hmask]; exact hlen)]
      exact ⟨_, rfl⟩
    · exact ⟨_, rfl⟩
  obtain ⟨block', hmask⟩ := hok
  exact ⟨block', hmask, (FrameHeader.mask_payload_drop hmask).1⟩

theorem shift_raw (iob : IoBuffer) (n : Int) : (iob.shift n).2.raw = iob.raw := by
  unfold IoBuffer.shift
  simp only
  split
  · split <;> rfl
  · split <;> rfl

/-- A frame is handled in memory `iob` that holds its payload. -/
theorem handle_frame_returns {c : Connection α} {iob : IoBuffer}
    (hlen : iob.rpos + c.ws_frame.payload_len.toNat ≤ (iob.raw.getD []).length) :
    ∃ r, c.handle_frame .succeeding iob = some r ∧
      (r.2.1.raw.getD []).length = (iob.raw.getD []).length := by
  obtain ⟨block, hmask, hblock⟩ : ∃ block, (if c.ws_frame.payload_len > 0 then
      c.ws_frame.mask_payload (iob.raw.getD []) iob.rpos else some (iob.raw.getD [])) = some block ∧
      block.length = (iob.raw.getD []).length := by
    split
    · exact mask_payload_returns hlen
    · exact ⟨_, rfl, rfl⟩
  have hraw : ((iob.raw.map fun _ => block).getD []).length = (iob.raw.getD []).length := by
    rcases hr : iob.raw with _ | old
    · rfl
    · rw [hr] at hblock
      exact hblock
  obtain ⟨r, hdispatch⟩ := dispatch_returns c c.ws_frame
    ((IoBuffer.mk iob.alloced (iob.raw.map fun _ => block) iob.raw_size iob.size
      iob.rpos).content.take c.ws_frame.payload_len.toNat)
  unfold handle_frame
  simp only [hmask, hdispatch, Option.bind_eq_bind, Option.bind_some]
  split
  · exact ⟨_, rfl, hraw⟩
  · refine ⟨_, rfl, ?_⟩
    rw [shift_raw]
    exact hraw

theorem handle_websocket_returns {c : Connection α} {b : Bytes} (hb : b.length < 2 ^ 31)
    (hok : c.ws_frame.Ok) :
    ∃ r, c.handle_websocket_frame .succeeding b = some r ∧ r.2.1.length = b.length := by
  obtain ⟨ready, hdr, j, hstep, hj, hready, -⟩ := FrameHeader.receive_left hb hok
  have hraw : ((IoBuffer.create_by_reference b).advance j).raw.getD [] = b :=
    IoBuffer.raw_create_by_reference b
  have hrpos : ((IoBuffer.create_by_reference b).advance j).rpos = j := by
    show (IoBuffer.create_by_reference b).rpos + j = j
    rw [IoBuffer.rpos_create_by_reference, Nat.zero_add]
  obtain ⟨r, hframe, hlen⟩ : ∃ r, (if ready = true then
      ({ c with ws_frame := hdr } : Connection α).handle_frame .succeeding
        ((IoBuffer.create_by_reference b).advance j)
      else some (true, (IoBuffer.create_by_reference b).advance j, { c with ws_frame := hdr })) =
        some r ∧ (r.2.1.raw.getD []).length = b.length := by
    split
    · next htrue =>
      have hpayload := hready htrue
      obtain ⟨r, hr, hl⟩ := @handle_frame_returns α { c with ws_frame := hdr }
        ((IoBuffer.create_by_reference b).advance j) (by rw [hraw, hrpos]; simp only; omega)
      exact ⟨r, hr, by rw [hl, hraw]⟩
    · exact ⟨_, rfl, by rw [hraw]⟩
  unfold handle_websocket_frame
  simp only [hstep, hframe, Option.bind_eq_bind, Option.bind_some]
  split
  · exact ⟨_, rfl, hlen⟩
  · split
    · exact ⟨_, rfl, hlen⟩
    · exact ⟨_, rfl, hlen⟩

/-- A handler comes back, and leaves as much memory as it was given. -/
theorem handle_returns {c : Connection α} {b : Bytes} (hb : b.length < 2 ^ 31)
    (hpacket : ∀ p, c.pending_packet = some p → p.Ongoing) (hframe : c.ws_frame.Ok) :
    ∃ r, c.handle .succeeding K b = some r ∧ r.2.1.length = b.length := by
  unfold handle
  split
  · obtain ⟨r, hr⟩ := handle_http_returns (K := K) hpacket b
    rw [hr]
    exact ⟨_, rfl, rfl⟩
  · exact handle_websocket_returns hb hframe
  · exact ⟨_, rfl, rfl⟩

/-! ## Section 4: `on_read` returns -/

/-- The bytes cached and received, and the memory of the cache with the
    segment, are counted by an `int32_t`. -/
def Sized (c : Connection α) (b : Bytes) : Prop :=
  c.Counted b ∧ ∀ cache, c.cache = some cache → cache.raw_size + b.length < 2 ^ 31

theorem write_returns {iob : IoBuffer} {b : Bytes} (hfits : iob.Fits) (ha : iob.alloced = true)
    (hsize : iob.raw_size + b.length < 2 ^ 31) :
    ∃ ok iob', iob.write .succeeding b = some (ok, iob') := by
  by_cases hb : b = []
  · refine ⟨false, iob, ?_⟩
    unfold IoBuffer.write
    rw [ha, if_neg (by simp), if_pos hb]
  · have hrep : iob.Represents ⟨iob.behind, iob.content⟩ := ⟨ha, hfits, rfl, List.suffix_rfl⟩
    have hwin := hfits.window
    have hroom : iob.RoomFits b.length := by
      intro _ _ _
      exact ⟨by omega, fun _ => by omega⟩
    obtain ⟨iob', hwrite, -⟩ := IoBuffer.write_fits hrep hb (by omega) hroom
    exact ⟨true, iob', hwrite⟩

/-- **`on_read` returns.** It neither aborts nor leaves the memory of its
    buffers. -/
theorem on_read_returns {c : Connection α} {b : Bytes} (hcache : c.CacheFits)
    (hpacket : ∀ p, c.pending_packet = some p → p.Ongoing) (hframe : c.ws_frame.Ok)
    (hsized : c.Sized b) : ∃ r, c.on_read .succeeding K b = some r := by
  obtain ⟨hcount, hmem⟩ := hsized
  obtain ⟨cache, hcreated, hfits, halloced, hpending, hroom⟩ : ∃ cache,
      (∀ t, create_cache .succeeding { c with transp := t } = some (some cache)) ∧
      cache.Fits ∧ cache.alloced = true ∧ c.pending = cache.content ∧
      cache.raw_size + b.length < 2 ^ 31 := by
    unfold Counted at hcount
    rw [List.length_append] at hcount
    rcases hc : c.cache with _ | cache
    · refine ⟨IoBuffer.construct true, ?_, (IoBuffer.wf_construct true).fits, rfl, ?_, ?_⟩
      · intro t
        simp only [create_cache]
        rfl
      · simp [pending, hc, IoBuffer.content, IoBuffer.construct]
      · show 0 + b.length < 2 ^ 31
        omega
    · obtain ⟨hfits, halloced⟩ := hcache cache hc
      refine ⟨cache, ?_, hfits, halloced, by simp [pending, hc], hmem cache hc⟩
      intro t
      simp only [create_cache]
  unfold Counted at hcount
  rw [hpending] at hcount
  have hblock : ∃ r, ({ c with transp := { c.transp with read_pending := false } } :
      Connection α).read_block .succeeding K b = some r := by
    simp only [read_block, hcreated, Option.bind_eq_bind, Option.bind_some]
    split
    · -- the handler works in the memory of the cache
      obtain ⟨ok, w, hwrite⟩ := write_returns hfits halloced hroom
      simp only [read_cached, hwrite, Option.bind_eq_bind, Option.bind_some]
      cases ok with
      | false => exact ⟨_, rfl⟩
      | true =>
        rw [List.length_append] at hcount
        obtain ⟨hwfits, -, hcontent⟩ := IoBuffer.write_sound hfits (by omega) hwrite
        obtain ⟨r, hhandle, hlen⟩ := handle_returns (K := K) (c := { c with
            transp := { c.transp with read_pending := false }, cache := some w })
          (b := w.content) (by rw [hcontent, List.length_append]; omega) hpacket hframe
        have hstore : ∃ raw, store (w.raw.getD []) w.rpos r.2.1 = some raw := by
          have hwin := hwfits.window
          have hblock := hwfits.block_length
          have hwlen := hwfits.content_length
          unfold store
          rw [if_pos (by omega)]
          exact ⟨_, rfl⟩
        obtain ⟨raw, hstore⟩ := hstore
        simp only [Bool.not_true, Bool.false_eq_true, if_false, hhandle, Option.bind_some, hstore]
        split
        · exact ⟨_, rfl⟩
        · exact ⟨_, rfl⟩
    · -- the handler works on the segment
      rw [List.length_append] at hcount
      obtain ⟨r, hhandle, hlen⟩ := handle_returns (K := K) (c := { c with
          transp := { c.transp with read_pending := false }, cache := some cache })
        (b := b) (by omega) hpacket hframe
      simp only [read_direct, hhandle, Option.bind_eq_bind, Option.bind_some]
      split
      · obtain ⟨ok, w, hwrite⟩ := write_returns (b := r.2.1.drop r.1.toNat) hfits halloced
          (by rw [List.length_drop]; omega)
        rw [hwrite]
        exact ⟨_, rfl⟩
      · exact ⟨_, rfl⟩
  obtain ⟨r, hblock⟩ := hblock
  unfold on_read
  simp only [hblock, Option.bind_eq_bind, Option.bind_some]
  split
  · exact ⟨_, rfl⟩
  · exact ⟨_, rfl⟩

/-! ## Section 5: Runs -/

namespace Traffic

theorem reachable_sound {t₀ t : Traffic α} (hopened : t₀.Opened)
    (h : Reachable (step K) Counts t₀ t) : t.Sound :=
  h.invariant hopened.sound fun _ _ _ hsound hok hstep => step_sound K hsound hok hstep

/-- **Nothing is lost or duplicated.** In every run, what was received is what
    the handlers took, followed by the cache; a handler takes no more than it
    is offered; and the next `on_read` returns. -/
theorem conserves {t₀ t : Traffic α} (hopened : t₀.Opened)
    (h : Reachable (step K) Counts t₀ t) :
    t.received.flatten = t.consumed.flatten ++ t.conn.pending ∧
      (∀ h ∈ t.handled, 0 ≤ h.2 ∧ h.2 ≤ (h.1.length : Int)) ∧
      ∀ b, t.conn.Sized b → ∃ r, t.conn.on_read .succeeding K b = some r := by
  have hsound := reachable_sound hopened h
  refine ⟨hsound.conserved, hsound.bounds, ?_⟩
  intro b hsized
  exact on_read_returns hsound.cache hsound.packet hsound.frame hsized

/-- A connection before it starts. -/
def opened : Traffic RequestFields :=
  ⟨⟨state_none, none, none, FrameHeader.fresh, [], false, ⟨true, true, []⟩, []⟩, [], []⟩

/-- The start of `start_http` and its first packet, and a request in two
    segments with a byte of the next one. -/
theorem conserves_one_request :
    ∃ t ∈ exec (step Request.kind) opened
        [.meanwhile state_started (some ⟨Uri.construct, .METHOD_UNKNOWN⟩) [] false
          ⟨true, true, []⟩ [], .segment (ascii "GET / HT"), .segment (ascii "TP/1.1\r\n\r\nG")],
      t.received.flatten = t.consumed.flatten ++ t.conn.pending ∧
        (∀ h ∈ t.handled, 0 ≤ h.2 ∧ h.2 ≤ (h.1.length : Int)) ∧
        ∀ b, t.conn.Sized b → ∃ r, t.conn.on_read .succeeding Request.kind b = some r := by
  obtain ⟨t, hexec⟩ := Option.isSome_iff_exists.mp (show (exec (step Request.kind) opened
    [.meanwhile state_started (some ⟨Uri.construct, .METHOD_UNKNOWN⟩) [] false
      ⟨true, true, []⟩ [], .segment (ascii "GET / HT"),
      .segment (ascii "TP/1.1\r\n\r\nG")]).isSome = true by decide)
  exact ⟨t, hexec, conserves ⟨rfl, rfl, rfl, rfl, rfl⟩ (.of_exec hexec (by decide))⟩

end Traffic

end Connection

end Pump
