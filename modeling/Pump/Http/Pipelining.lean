import Pump.Lts
import Pump.Http.Chunked
import Pump.Http.Delivery
import Pump.Http.Segments

/-! # Messages behind messages

    `on_read` hands its handler the bytes cached and received, keeps in the
    cache what the handler leaves, and returns. A handler that completes a
    message does not look at the bytes behind it. Here is when these bytes
    hold a message, too. -/

namespace Pump

open ConnectionState ParseStatus

/-! ## Section 1: Model -/

namespace Connection

variable {α : Type} (K : Kind α) (fields : α)

/-- `__async_read_http_packet`; `fields` are those of a packet that
    `create_pending_packet_` makes. -/
def async_read_http_packet (c : Connection α) : Bool × Connection α :=
  if c.state ≠ state_started then (false, c)
  else if (c.pending_packet.map fun p => decide (p.parse_status ≠ PARSE_FINISHED)) = some true then
    (false, c)
  else ({ c with pending_packet := some (Packet.construct fields) } : Connection α).async_read

/-- A `packet_cb` that asks for the next packet, as that of
    `server::on_http_request` does. -/
def ask_next (c : Connection α) : Connection α :=
  let r := c.async_read_http_packet fields
  if r.1 then r.2 else r.2.stop

/-- `on_read` with such a callback. The callback comes when
    `__handle_http_packet` has parsed and before `on_read` puts away the bytes
    that are left, which does not touch what the callback does. -/
def serve (c : Connection α) (b : Bytes) : Option (Int × Connection α) :=
  (c.on_read .succeeding K b).map fun r =>
    if c.state = state_started ∧ c.calls.length < r.2.calls.length then (r.1, r.2.ask_next fields)
    else r

/-- An `on_read` that does not fail. -/
def serve_step (c : Connection α) (b : Bytes) : Option (Connection α) :=
  (c.serve K fields b).bind fun r => if r.1 = -1 then none else some r.2

end Connection

/-! ## Section 2: Complete messages -/

/-- The packet becomes complete in `b`, behind that many bytes. -/
def Packet.message_end {α : Type} (K : Kind α) (p : Packet α) (b : Bytes) : Option Nat :=
  match p.parse K b with
  | .took n p' => if p'.parse_status = PARSE_FINISHED then some n else none
  | _ => none

/-- The frame becomes complete in `b`, behind that many bytes. -/
def FrameHeader.frame_end (h : FrameHeader) (b : Bytes) : Option Nat :=
  match h.receive_step (IoBuffer.create_by_reference b) with
  | some (true, h', iob) => some (b.length - iob.size + h'.payload_len.toNat)
  | _ => none

/-- What a header stands for: one that was reset, for a new one. -/
def FrameHeader.awaited (h : FrameHeader) : FrameHeader :=
  if h.code = wscode_end then fresh else h

namespace Connection

variable {α : Type} (K : Kind α) (fields : α)

/-- The cached bytes do not complete the message or frame that is awaited. -/
def Drained (c : Connection α) : Prop :=
  match c.state with
  | state_started => ∀ p, c.pending_packet = some p → p.message_end K c.pending = none
  | state_upgraded => c.ws_frame.awaited.frame_end c.pending = none
  | _ => True

instance (c : Connection α) : Decidable (c.Drained K) :=
  match hs : c.state with
  | state_started =>
    decidable_of_iff (∀ p ∈ c.pending_packet, p.message_end K c.pending = none)
      (by simp [Drained, hs])
  | state_upgraded =>
    decidable_of_iff (c.ws_frame.awaited.frame_end c.pending = none) (by simp [Drained, hs])
  | state_none | state_stopped | state_error => isTrue (by simp [Drained, hs])

/-- The bytes cached and received complete a message or frame and, behind
    it, a second one. -/
def CompletesTwo (c : Connection α) (b : Bytes) : Prop :=
  match c.state with
  | state_started => ∃ p n, c.pending_packet = some p ∧ p.message_end K (c.pending ++ b) = some n ∧
      (Packet.construct fields).message_end K ((c.pending ++ b).drop n) ≠ none
  | state_upgraded => ∃ n, c.ws_frame.frame_end (c.pending ++ b) = some n ∧
      FrameHeader.fresh.frame_end ((c.pending ++ b).drop n) ≠ none
  | _ => False

end Connection

/-! ## Section 3: What parsing leaves does not complete the message -/

namespace Body

/-- A body between calls. -/
def Live (body : Body) : Prop := body.Awaiting ∨ body.Chunking

theorem parse_live {body body' : Body} {b : Bytes} {n : Nat} (h : body.Live)
    (hp : body.parse b = .took n body') :
    n ≤ b.length ∧ (body'.is_parse_finished = false → body'.Live ∧
      ∀ m body'', body'.parse (b.drop n) = .took m body'' → body''.is_parse_finished = false) := by
  rcases h with hawait | hchunk
  · rw [parse_awaiting hawait] at hp
    cases hp
    refine ⟨Nat.min_le_right _ _, fun hfin => ?_⟩
    -- the body takes all there is
    have hless : b.length < body.missing := by
      simp only [extended, List.length_take, decide_eq_false_iff_not] at hfin
      omega
    rw [Nat.min_eq_right (by omega), List.take_length, List.drop_length]
    have hawait' := awaiting_extended hawait hless
    refine ⟨Or.inl hawait', ?_⟩
    intro m body'' hp'
    rw [parse_awaiting hawait', List.length_nil, Nat.min_zero, List.take_zero] at hp'
    cases hp'
    show decide ((body.extended b).missing ≤ 0) = false
    rw [missing_extended]
    exact decide_eq_false (by omega)
  · have hspec := parse_unfinished_spec hchunk b 0
    have hcall : ∀ {body : Body}, body.is_parse_finished = false → ∀ b,
        body.parse_unfinished b = body.parse b := by
      intro body hfin b
      unfold parse_unfinished
      rw [hfin]
      rfl
    rw [hcall hchunk.unfinished, hp] at hspec
    obtain ⟨hn, htook⟩ := hspec
    refine ⟨hn, fun hfin => ?_⟩
    rcases htook with ⟨hdone, -⟩ | ⟨hchunk', -, hrun⟩
    · rw [hfin] at hdone
      cases hdone
    · refine ⟨Or.inr hchunk', ?_⟩
      intro m body'' hp'
      -- the decoder waits behind the bytes that are left
      have hwaits : ((body'.decoder (0 + n)).run (b.drop n)).phase.Waits := by
        rcases hrun with ⟨hrun, hwaits⟩ | ⟨-, -, -, -, hrest⟩
        · rwa [hrun]
        · rw [hrest]
          exact decoder_waits body' (0 + n)
      have hout := outcome_whole hchunk' (b.drop n) (0 + n)
      rw [outcome_waiting (Or.inl hwaits), hcall hfin, hp'] at hout
      simp only [Reply.after, outcome] at hout
      split at hout
      · cases hout
      · next hmore => simpa using hmore

end Body

namespace Packet

variable {α : Type} {K : Kind α}

/-- A packet between calls. -/
def Ongoing (p : Packet α) : Prop :=
  match p.parse_status with
  | PARSE_NONE | PARSE_LINE | PARSE_HEADER => p.header.header_parsed = false ∧ p.body = none
  | PARSE_BODY => ∃ body, p.body = some body ∧ body.Live
  | PARSE_FINISHED => True
  | PARSE_FAILED => False

/-- What a call leaves: a packet that is complete, or that the bytes left do
    not complete. -/
def Left (K : Kind α) (b : Bytes) (n : Nat) (p : Packet α) : Prop :=
  n ≤ b.length ∧ p.Ongoing ∧
    (p.parse_status ≠ PARSE_FINISHED → p.message_end K (b.drop n) = none)

theorem Left.after {b : Bytes} {k n : Nat} {p : Packet α} (hk : k ≤ b.length)
    (h : Left K (b.drop k) n p) : Left K b (k + n) p := by
  obtain ⟨hn, hongoing, hleft⟩ := h
  rw [List.length_drop] at hn
  rw [List.drop_drop] at hleft
  exact ⟨by omega, hongoing, hleft⟩

theorem message_end_of_status {p : Packet α} {b : Bytes}
    (h : ∀ n p', p.parse K b = .took n p' → p'.parse_status ≠ PARSE_FINISHED) :
    p.message_end K b = none := by
  unfold message_end
  split
  · next n p' hp => rw [if_neg (h n p' hp)]
  · rfl

/-- A body that a header announces is new. -/
theorem announced_live {h : Header} {body : Body} (ha : announced_body h = some body) :
    body.Live := by
  rcases announced_body_cases ha with hawait | hchunk
  · exact Or.inl hawait
  · right
    unfold announced_body at ha
    split at ha
    · split at ha
      · cases ha
        cases hchunk
      · cases ha
    · split at ha
      · split at ha
        · cases ha
          exact Body.chunking_chunked
        · cases ha
      · cases ha

theorem finish_header_ongoing {p : Packet α} (hb : p.body = none) :
    (p.finish_header K).Ongoing := by
  have hbody : (p.finish_header K).body = announced_body p.header := by
    simp [finish_header, hb]
  unfold Ongoing
  rcases ha : announced_body p.header with _ | body
  · have hs : (p.finish_header K).parse_status = PARSE_FINISHED := by
      simp [finish_header, hb, ha]
    rw [hs]
    trivial
  · have hs : (p.finish_header K).parse_status = PARSE_BODY := by
      simp [finish_header, ha]
    rw [hs]
    exact ⟨body, by rw [hbody, ha], announced_live ha⟩

theorem left_of_body {p p' : Packet α} {b : Bytes} {n : Nat} (h : p.Ongoing) (hl : p.Late)
    (hp : p.parse_body b = .took n p') : Left K b n p' := by
  rcases hl with hs | hs
  · unfold Ongoing at h
    rw [hs] at h
    obtain ⟨body, hbody, hlive⟩ := h
    unfold parse_body at hp
    rw [if_pos hs, hbody] at hp
    simp only at hp
    obtain ⟨body', hcall, rfl⟩ := Reply.map_took hp
    obtain ⟨hn, hrest⟩ := Body.parse_live hlive hcall
    by_cases hfin : body'.is_parse_finished = true
    · refine ⟨hn, ?_, fun hne => absurd ?_ hne⟩
      · unfold Ongoing
        simp only [hfin, if_true]
      · simp only [hfin, if_true]
    · obtain ⟨hlive', hleft⟩ := hrest (by simpa using hfin)
      refine ⟨hn, ?_, fun _ => ?_⟩
      · unfold Ongoing
        simp only [hfin, hs]
        exact ⟨body', rfl, hlive'⟩
      · -- the next call is one of the body again
        apply message_end_of_status
        intro m' p'' hp'
        unfold parse at hp'
        rw [parse_from_late (Or.inl (by simp [hfin, hs]))] at hp'
        unfold parse_body at hp'
        simp only [hfin, hs] at hp'
        obtain ⟨body'', hcall', rfl⟩ := Reply.map_took hp'
        simp [hleft _ _ hcall']
  · rw [parse_body_finished (by simp [hs])] at hp
    cases hp
    exact ⟨Nat.zero_le _, h, fun hne => absurd hs hne⟩

/-- The header stage of `parse`. -/
theorem left_of_head {p p' : Packet α} {b : Bytes} {n : Nat} (hs : p.parse_status = PARSE_HEADER)
    (hparsed : p.header.header_parsed = false) (hb : p.body = none)
    (hp : p.parse_head K [] b = .took n p') : Left K b n p' := by
  have hsize := Header.scan_size_le b
  rw [parse_head_eq hs hparsed] at hp
  split at hp
  · -- more lines are to come, and none is left in the bytes
    next hmore =>
    cases hp
    refine ⟨hsize, ?_, fun _ => ?_⟩
    · unfold Ongoing
      simp only [hs, Header.store_lines_parsed]
      exact ⟨hparsed, hb⟩
    · have hscan := Header.scan_append b []
      rw [List.append_nil, List.append_nil, hmore, if_pos rfl] at hscan
      have hmore' : (Header.scan (b.drop (Header.scan b).size)).ending = .more :=
        (congrArg Header.Scan.ending hscan).symm.trans hmore
      apply message_end_of_status
      intro m p'' hp'
      unfold parse at hp'
      rw [parse_from_header (by simp [hs]), parse_head_eq (by simp [hs])
        (by simpa using hparsed)] at hp'
      rw [hmore'] at hp'
      cases hp'
      simp [hs]
  · -- the header is complete
    obtain ⟨p₁, hp₁⟩ : ∃ p₁ : Packet α, p₁ = { p with header :=
        { p.header.store_lines [] (Header.scan b).lines with header_parsed := true } } := ⟨_, rfl⟩
    rw [← hp₁] at hp
    obtain ⟨m, hcall, rfl⟩ := Reply.after_took hp
    have hongoing : (p₁.finish_header K).Ongoing := finish_header_ongoing (by rw [hp₁]; exact hb)
    exact (left_of_body hongoing (finish_header_late p₁) hcall).after hsize
  · cases hp

/-- The stages of a packet that is being parsed. -/
theorem Ongoing.stage {p : Packet α} (h : p.Ongoing) :
    ((p.parse_status = PARSE_NONE ∨ p.parse_status = PARSE_LINE) ∧
      p.header.header_parsed = false ∧ p.body = none) ∨
    (p.parse_status = PARSE_HEADER ∧ p.header.header_parsed = false ∧ p.body = none) ∨ p.Late := by
  unfold Late
  cases hs : p.parse_status <;> simp [Ongoing, hs] at h ⊢ <;> assumption

/-- **What a call leaves.** If it does not complete the packet, the bytes it
    leaves do not either. -/
theorem parse_left {p p' : Packet α} {b : Bytes} {n : Nat} (h : p.Ongoing)
    (hp : p.parse K b = .took n p') : Left K b n p' := by
  unfold parse at hp
  rcases h.stage with ⟨hs, hparsed, hb⟩ | ⟨hs, hparsed, hb⟩ | hl
  · rw [parse_from_line hs] at hp
    rcases hfind : find_http_line_end b with _ | k
    · -- no start line yet
      rw [hfind] at hp
      cases hp
      refine ⟨Nat.zero_le _, ⟨hparsed, hb⟩, fun _ => ?_⟩
      apply message_end_of_status
      intro m p'' hp'
      unfold parse at hp'
      rw [parse_from_line (Or.inr rfl), List.drop_zero, hfind] at hp'
      cases hp'
      nofun
    · have hk := find_http_line_end_bounds hfind
      rw [hfind] at hp
      simp only at hp
      split at hp
      · obtain ⟨p₁, hp₁⟩ : ∃ p₁ : Packet α, p₁ = { p with
            fields := (K.parse_line p.fields p.version (b.take k)).2.1
            version := (K.parse_line p.fields p.version (b.take k)).2.2
            parse_status := PARSE_HEADER } := ⟨_, rfl⟩
        rw [← hp₁] at hp
        obtain ⟨m, hcall, rfl⟩ := Reply.after_took hp
        exact (left_of_head (by rw [hp₁]) (by rw [hp₁]; exact hparsed) (by rw [hp₁]; exact hb)
          hcall).after hk.2
      · cases hp
  · rw [parse_from_header hs] at hp
    exact left_of_head hs hparsed hb hp
  · rw [parse_from_late hl] at hp
    exact left_of_body h hl hp

end Packet

/-! ## Section 4: What unpacking leaves does not complete the frame -/

namespace FrameHeader

/-- The bytes end before the header does. -/
def Short (b : Bytes) : Prop :=
  b.length < 2 ∨ ∃ b₀ b₁ rest, b = b₀ :: b₁ :: rest ∧ b₁ &&& 0x80 > 0 ∧ rest.length < 4

theorem unpack_header_cases {h : FrameHeader} {iob : IoBuffer} (hwf : iob.Wf)
    (hu : h.is_unpacked = false) :
    (∃ h', h.unpack_header iob = some (h', iob) ∧ h'.is_unpacked = false ∧ Short iob.content) ∨
      (∃ h' k, h.unpack_header iob = some (h', iob.advance k) ∧ h'.is_unpacked = true ∧
        k ≤ iob.size ∧ h'.code ≠ wscode_end ∧ ¬ Short iob.content) := by
  have hsize := IoBuffer.content_length hwf
  by_cases hshort : Short iob.content
  · left
    rcases hshort with hlen | ⟨b₀, b₁, rest, hc, hb, hlen⟩
    · obtain ⟨h', he, hu', -⟩ := unpack_header_short hwf hu hlen
      exact ⟨h', he, hu', Or.inl hlen⟩
    · obtain ⟨h', he, hu'⟩ := unpack_header_short_key hwf hu hc hb hlen
      exact ⟨h', he, hu', Or.inr ⟨b₀, b₁, rest, hc, hb, hlen⟩⟩
  · right
    obtain ⟨b₀, b₁, rest, hc⟩ : ∃ b₀ b₁ rest, iob.content = b₀ :: b₁ :: rest := by
      match hc : iob.content with
      | [] => exact absurd (Or.inl (by rw [hc]; exact Nat.two_pos)) hshort
      | [b] => exact absurd (Or.inl (by rw [hc]; exact Nat.one_lt_two)) hshort
      | b₀ :: b₁ :: rest => exact ⟨b₀, b₁, rest, rfl⟩
    have hkey : b₁ &&& 0x80 > 0 → 4 ≤ rest.length := by
      intro hb
      by_contra hlt
      exact hshort (Or.inr ⟨b₀, b₁, rest, hc, hb, by omega⟩)
    refine ⟨_, _, unpack_header_complete hwf hc hkey, rfl, ?_, ?_, hshort⟩
    · rw [← hsize, hc, List.length_cons, List.length_cons]
      unfold unpacked_size
      split
      · next hb =>
        have := hkey hb
        omega
      · omega
    · intro hend
      have hlow := congrArg UInt8.toNat hend
      rw [show (h.unpacked b₀ b₁ rest).code = b₀ &&& 0x0f from rfl, and_low_nibble_toNat] at hlow
      have h255 : wscode_end.toNat = 255 := rfl
      omega

theorem frame_end_of_short {h : FrameHeader} {b : Bytes} (hb : b.length < 2 ^ 31)
    (hu : h.is_unpacked = false) (hshort : Short b) : h.frame_end b = none := by
  have hwf := IoBuffer.wf_create_by_reference hb
  rcases unpack_header_cases (h := h) hwf hu with ⟨h', he, hu', -⟩ | ⟨-, -, -, -, -, -, hno⟩
  · unfold frame_end receive_step
    simp [hu, he, hu']
  · rw [IoBuffer.content_create_by_reference] at hno
    exact absurd hshort hno

/-- A header between calls: one that says `wscode_end` waits for no payload. -/
def Ok (h : FrameHeader) : Prop := h.is_unpacked = true → h.code = wscode_end → h.payload_len = 0

/-- **What a receive step leaves.** If the frame is not ready, the bytes left
    do not make it so. -/
theorem receive_left {h : FrameHeader} {b : Bytes} (hb : b.length < 2 ^ 31) (hok : h.Ok) :
    ∃ ready h' k, h.receive_step (IoBuffer.create_by_reference b) =
        some (ready, h', (IoBuffer.create_by_reference b).advance k) ∧ k ≤ b.length ∧
      (ready = true → h'.payload_len.toNat ≤ b.length - k) ∧
      (ready = false → h'.Ok ∧ h'.awaited.frame_end (b.drop k) = none) := by
  have hwf := IoBuffer.wf_create_by_reference hb
  have hsize := IoBuffer.size_create_by_reference b
  -- an unpacked header, behind the `k` bytes it took
  have hunpacked : ∀ (h' : FrameHeader) (k : Nat), h'.is_unpacked = true → k ≤ b.length →
      (h'.code = wscode_end → h'.payload_len = 0) →
      (if !h.is_unpacked then h.unpack_header (IoBuffer.create_by_reference b)
        else some (h, IoBuffer.create_by_reference b)) =
          some (h', (IoBuffer.create_by_reference b).advance k) →
      ∃ ready h'' j, h.receive_step (IoBuffer.create_by_reference b) =
          some (ready, h'', (IoBuffer.create_by_reference b).advance j) ∧ j ≤ b.length ∧
        (ready = true → h''.payload_len.toNat ≤ b.length - j) ∧
        (ready = false → h''.Ok ∧ h''.awaited.frame_end (b.drop j) = none) := by
    intro h' k hu' hk hend hunpack
    refine ⟨_, h', k, Connection.receive_step_eq hunpack hu', hk, ?_, ?_⟩
    · intro hready
      rw [decide_eq_true_eq, IoBuffer.advance_size, hsize] at hready
      exact hready
    · intro hready
      rw [decide_eq_false_iff_not, IoBuffer.advance_size, hsize] at hready
      have hcode : h'.code ≠ wscode_end := by
        intro hc
        rw [hend hc] at hready
        exact hready (Nat.zero_le _)
      refine ⟨fun _ hc => absurd hc hcode, ?_⟩
      have hstep : h'.receive_step (IoBuffer.create_by_reference (b.drop k)) =
          some (false, h', IoBuffer.create_by_reference (b.drop k)) := by
        rw [Connection.receive_step_eq (by rw [hu']; rfl) hu', IoBuffer.size_create_by_reference,
          List.length_drop, decide_eq_false hready]
      unfold awaited frame_end
      rw [if_neg hcode, hstep]
  by_cases hu : h.is_unpacked = true
  · refine hunpacked h 0 hu (Nat.zero_le _) (hok hu) ?_
    rw [hu]
    rfl
  · replace hu : h.is_unpacked = false := by simpa using hu
    rcases unpack_header_cases hwf hu with ⟨h', he, hu', hshort⟩ | ⟨h', k, he, hu', hk, hcode, -⟩
    · -- the header is not there
      rw [IoBuffer.content_create_by_reference] at hshort
      refine ⟨false, h', 0, ?_, Nat.zero_le _, nofun, fun _ => ⟨fun ht => ?_, ?_⟩⟩
      · unfold receive_step
        simp [hu, he, hu']
      · rw [hu'] at ht
        cases ht
      · rw [List.drop_zero]
        unfold awaited
        split
        · exact frame_end_of_short hb rfl hshort
        · exact frame_end_of_short hb hu' hshort
    · rw [hsize] at hk
      refine hunpacked h' k hu' hk (fun hc => absurd hc hcode) ?_
      rw [hu]
      exact he

theorem mask_payload_drop {h : FrameHeader} {block block' : Bytes} {n : Nat}
    (he : h.mask_payload block n = some block') :
    block'.length = block.length ∧
      block'.drop (n + h.payload_len.toNat) = block.drop (n + h.payload_len.toNat) := by
  unfold mask_payload at he
  split at he
  · rw [if_pos (Int.natCast_nonneg n)] at he
    simp only [Int.toNat_natCast, Option.bind_eq_bind, Option.bind_eq_some_iff] at he
    obtain ⟨bytes, hload, hstore⟩ := he
    have hlen := store_length hstore
    refine ⟨hlen, ?_⟩
    unfold load at hload
    split at hload
    · next hle =>
      cases hload
      unfold store at hstore
      split at hstore
      · cases hstore
        have hmask : (mask_bytes h.key ((block.drop n).take h.payload_len.toNat)).length =
            h.payload_len.toNat := by
          rw [mask_bytes, List.length_mapIdx, List.length_take, List.length_drop]
          omega
        have hfront : (block.take n ++ mask_bytes h.key ((block.drop n).take
            h.payload_len.toNat)).length = n + h.payload_len.toNat := by
          rw [List.length_append, hmask, List.length_take]
          omega
        rw [hmask, ← hfront, List.drop_left]
      · cases hstore
    · cases hload
  · cases he
    exact ⟨rfl, rfl⟩

end FrameHeader

/-! ## Section 5: What a handler leaves -/

namespace Connection

variable {α : Type} {K : Kind α}

theorem handle_http_left {c c' : Connection α} {p : Packet α} {b : Bytes} {n : Int}
    (hpending : c.pending_packet = some p) (h : c.handle_http_packet K b = some (n, c'))
    (hn : n ≠ -1) :
    ∃ (k : Nat) (p' : Packet α), n = k ∧ p.parse K b = .took k p' ∧ c'.state = c.state ∧
      c'.cache = c.cache ∧ c'.pending_packet = some p' ∧
      c'.calls = c.calls ++ if p'.parse_status = PARSE_FINISHED then [.packet_cb p'] else [] := by
  unfold handle_http_packet at h
  rw [hpending] at h
  simp only at h
  rcases hcall : p.parse K b with _ | q | ⟨k, q⟩
  · rw [hcall] at h
    cases h
  · -- a parse error
    exfalso
    rw [hcall] at h
    simp only [Reply.state, Option.bind_eq_bind, Option.bind_some] at h
    split at h
    · cases h
      exact hn rfl
    · split at h
      · cases h
        exact hn rfl
      · cases h
        exact hn rfl
  · rw [hcall] at h
    simp only [Reply.state, Option.bind_eq_bind, Option.bind_some] at h
    split at h
    · next hfin =>
      cases h
      exact ⟨k, q, rfl, rfl, rfl, rfl, rfl, by rw [if_pos hfin]⟩
    · next hmore =>
      split at h
      · cases h
        exact absurd rfl hn
      · cases h
        exact ⟨k, q, rfl, rfl, rfl, rfl, rfl, by rw [if_neg hmore, List.append_nil]; rfl⟩

/-- The bytes behind a frame stay as they are. -/
theorem handle_frame_left {c c' : Connection α} {iob : IoBuffer} {b : Bytes} {j : Nat}
    (hb : b.length < 2 ^ 31) (hj : c.ws_frame.payload_len.toNat ≤ b.length - j) (hle : j ≤ b.length)
    (h : c.handle_frame .succeeding ((IoBuffer.create_by_reference b).advance j) =
      some (true, iob, c')) :
    iob.size = b.length - j - c.ws_frame.payload_len.toNat ∧
      (iob.raw.getD []).length = b.length ∧
      (iob.raw.getD []).drop (j + c.ws_frame.payload_len.toNat) =
        b.drop (j + c.ws_frame.payload_len.toNat) ∧
      c'.state = c.state ∧ c'.cache = c.cache ∧ c'.ws_frame = c.ws_frame.reset := by
  have hwf := IoBuffer.wf_create_by_reference hb
  have hsize := IoBuffer.size_create_by_reference b
  have hfits := IoBuffer.fits_advance hwf.fits (n := j) (by omega)
  have hraw : ((IoBuffer.create_by_reference b).advance j).raw.getD [] = b :=
    IoBuffer.raw_create_by_reference b
  have hrpos : ((IoBuffer.create_by_reference b).advance j).rpos = j := by
    show (IoBuffer.create_by_reference b).rpos + j = j
    rw [IoBuffer.rpos_create_by_reference, Nat.zero_add]
  simp only [handle_frame, Option.bind_eq_bind, Option.bind_eq_some_iff] at h
  obtain ⟨block, hmask, d, hdispatch, h⟩ := h
  obtain ⟨hlen, hdrop⟩ : block.length = b.length ∧
      block.drop (j + c.ws_frame.payload_len.toNat) = b.drop (j + c.ws_frame.payload_len.toNat) := by
    rw [hraw, hrpos] at hmask
    split at hmask
    · exact FrameHeader.mask_payload_drop hmask
    · cases hmask
      exact ⟨rfl, rfl⟩
  obtain ⟨hstate, -, -, -⟩ := dispatch_cases hdispatch
  have hcache : d.2.cache = c.cache := by
    obtain ⟨closed, t, calls, hd⟩ := dispatch_eq hdispatch
    rw [hd]
  -- the memory of the segment, masked
  obtain ⟨m, hm⟩ : ∃ m, m = { (IoBuffer.create_by_reference b).advance j with
      raw := ((IoBuffer.create_by_reference b).advance j).raw.map fun _ => block } := ⟨_, rfl⟩
  rw [← hm] at h
  have hmraw : m.raw.getD [] = block := by
    rw [hm]
    rcases hr : ((IoBuffer.create_by_reference b).advance j).raw with _ | old
    · rw [hr, Option.getD_none] at hraw
      rw [← hraw] at hlen
      exact (List.eq_nil_of_length_eq_zero hlen).symm
    · rfl
  have hmsize : m.size = b.length - j := by
    rw [hm, ← hsize]
    rfl
  have hmfits : m.Fits := by
    refine ⟨?_, ?_, ?_, ?_⟩
    · rw [hmraw, hlen, ← hraw, hfits.block_length, hm]
    · rw [hm]
      intro hsome
      exact hfits.block_pos (by simpa using hsome)
    · rw [hm]
      exact hfits.window
    · rw [hm]
      exact hfits.capacity_lt
  have hshift : (m.shift c.ws_frame.payload_len.toNat).2 =
      m.advance c.ws_frame.payload_len.toNat :=
    IoBuffer.shift_advance hmfits (by omega) (by omega)
  split at h
  · cases h
  · rw [hshift] at h
    cases h
    refine ⟨?_, ?_, ?_, hstate, hcache, rfl⟩
    · rw [IoBuffer.advance_size, hmsize]
    · show (m.raw.getD []).length = b.length
      rw [hmraw, hlen]
    · show (m.raw.getD []).drop _ = _
      rw [hmraw, hdrop]

theorem handle_websocket_left {c c' : Connection α} {b block : Bytes} {n : Int}
    (hb : b.length < 2 ^ 31) (hok : c.ws_frame.Ok)
    (h : c.handle_websocket_frame .succeeding b = some (n, block, c')) (hn : n ≠ -1) :
    ∃ k : Nat, n = k ∧ k ≤ b.length ∧ block.length = b.length ∧ block.drop k = b.drop k ∧
      c'.state = c.state ∧ c'.cache = c.cache ∧ c'.ws_frame.Ok ∧
      ((c.ws_frame.frame_end b = none ∧ c'.ws_frame.awaited.frame_end (b.drop k) = none) ∨
        (c.ws_frame.frame_end b = some k ∧ c'.ws_frame.awaited = FrameHeader.fresh)) := by
  obtain ⟨ready, hdr, j, hstep, hj, hready, hwaits⟩ := FrameHeader.receive_left hb hok
  have hsize := IoBuffer.size_create_by_reference b
  simp only [handle_websocket_frame, hstep, Option.bind_eq_bind, Option.bind_some,
    Option.bind_eq_some_iff, Prod.exists] at h
  obtain ⟨ok, iob, c₁, hframe, h⟩ := h
  cases ready with
  | false =>
    -- the frame is still to come
    obtain ⟨hok', hleft⟩ := hwaits rfl
    simp only [Bool.false_eq_true, if_false, Option.some.injEq, Prod.mk.injEq] at hframe
    obtain ⟨rfl, rfl, rfl⟩ := hframe
    have hraw : ((IoBuffer.create_by_reference b).advance j).raw.getD [] = b :=
      IoBuffer.raw_create_by_reference b
    simp only [Bool.not_true, Bool.false_eq_true, if_false, hraw, IoBuffer.advance_size, hsize] at h
    split at h
    · cases h
      exact absurd rfl hn
    · cases h
      refine ⟨j, by omega, hj, rfl, rfl, rfl, rfl, hok', Or.inl ⟨?_, hleft⟩⟩
      unfold FrameHeader.frame_end
      rw [hstep]
  | true =>
    have hpayload := hready rfl
    simp only [if_true] at hframe
    cases ok with
    | false =>
      simp only [Bool.not_false, if_true, Option.some.injEq, Prod.mk.injEq] at h
      exact absurd h.1.symm hn
    | true =>
      obtain ⟨hisize, hlen, hdrop, hstate, hcache, hreset⟩ :=
        handle_frame_left (c := { c with ws_frame := hdr }) hb hpayload hj hframe
      simp only [Bool.not_true, Bool.false_eq_true, if_false] at h
      split at h
      · cases h
        exact absurd rfl hn
      · cases h
        refine ⟨j + hdr.payload_len.toNat, ?_, by omega, hlen, hdrop, hstate, hcache, ?_,
          Or.inr ⟨?_, ?_⟩⟩
        · rw [show iob.size = b.length - j - hdr.payload_len.toNat from hisize]
          omega
        · show c₁.ws_frame.Ok
          rw [hreset]
          exact fun _ _ => rfl
        · unfold FrameHeader.frame_end
          rw [hstep]
          simp only [IoBuffer.advance_size, hsize]
          congr 1
          omega
        · show c₁.ws_frame.awaited = _
          rw [hreset]
          rfl

/-! ## Section 6: What `on_read` leaves -/

/-- The cache is not there yet, or is a buffer of its own. -/
def CacheFits (c : Connection α) : Prop :=
  ∀ iob, c.cache = some iob → iob.Fits ∧ iob.alloced = true

/-- A handler on the bytes `b` that takes the first `k`. -/
def Takes (b : Bytes) (n : Int) (block : Bytes) (k : Nat) : Prop :=
  n = k ∧ k ≤ b.length ∧ block.length = b.length ∧ block.drop k = b.drop k

/-- The bytes that the handler does not take are in the cache afterwards. -/
theorem read_cached_left {c c' : Connection α} {cache : IoBuffer} {b : Bytes} {n : Int}
    (hfits : cache.Fits) (hsmall : (cache.content ++ b).length < 2 ^ 31)
    (h : c.read_cached .succeeding K cache b = some (n, c')) (hn : n ≠ -1)
    (htakes : ∀ cache' m block c'', handle .succeeding K { c with cache := cache' }
      (cache.content ++ b) = some (m, block, c'') → m ≠ -1 →
        ∃ k, Takes (cache.content ++ b) m block k) :
    ∃ cache₀ cache' block c₁, handle .succeeding K { c with cache := cache₀ } (cache.content ++ b) =
        some (n, block, c₁) ∧ c' = { c₁ with cache := some cache' } ∧ cache'.Fits ∧
      cache'.alloced = true ∧ cache'.content = (cache.content ++ b).drop n.toNat := by
  simp only [read_cached, Option.bind_eq_bind, Option.bind_eq_some_iff, Prod.exists] at h
  obtain ⟨ok, w, hwrite, h⟩ := h
  split at h
  · cases h
    exact absurd rfl hn
  · next hok =>
    obtain rfl : ok = true := by simpa using hok
    have hb : 0 < b.length := by
      apply List.length_pos_iff.mpr
      rintro rfl
      unfold IoBuffer.write at hwrite
      split at hwrite
      · cases hwrite
      · cases hwrite
    rw [List.length_append] at hsmall
    obtain ⟨hwfits, hwalloced, hwcontent⟩ := IoBuffer.write_sound hfits (by omega) hwrite
    simp only [Option.bind_eq_some_iff, Prod.exists] at h
    obtain ⟨m, block, c₁, hhandle, raw, hstore, h⟩ := h
    split at h
    · cases h
      exact absurd rfl hn
    · next hm =>
      rw [hwcontent] at hhandle
      obtain ⟨k, rfl, hk, hlen, hdrop⟩ := htakes _ _ _ _ hhandle hm
      rw [Option.some.injEq, Prod.mk.injEq] at h
      obtain ⟨rfl, hc'⟩ := h
      have hcl := hwfits.content_length
      rw [hwcontent] at hcl
      rw [List.length_append] at hcl hk hlen
      have hblock := hwfits.block_length
      have hwin := hwfits.window
      -- the cache with what the handler left in its memory
      obtain ⟨m, hmdef⟩ : ∃ m, m = { w with raw := some raw } := ⟨_, rfl⟩
      have hraw : raw = (w.raw.getD []).take w.rpos ++ block ++
          (w.raw.getD []).drop (w.rpos + block.length) := by
        unfold store at hstore
        split at hstore
        · exact (Option.some.inj hstore).symm
        · cases hstore
      have hmfits : m.Fits := by
        rw [hmdef]
        refine ⟨(store_length hstore).trans hblock, fun _ => ?_, hwin, hwfits.capacity_lt⟩
        show 0 < w.raw_size
        omega
      have hmcontent : m.content = block := by
        rw [hmdef]
        show (raw.drop w.rpos).take w.size = block
        have hfront : ((w.raw.getD []).take w.rpos).length = w.rpos := by
          rw [List.length_take]
          omega
        rw [hraw, List.append_assoc, List.drop_left' hfront, List.take_append_of_le_length (by omega),
          List.take_of_length_le (by omega)]
      have hmsize : m.size = w.size := by rw [hmdef]
      have hshift : (m.shift k).2 = m.advance k := IoBuffer.shift_advance hmfits (by omega) (by omega)
      rw [← hmdef, hshift] at hc'
      refine ⟨_, m.advance k, block, c₁, hhandle, hc'.symm,
        IoBuffer.fits_advance hmfits (by omega), ?_, ?_⟩
      · rw [hmdef]
        exact hwalloced
      · rw [IoBuffer.content_advance, hmcontent, hdrop, Int.toNat_natCast]

theorem read_direct_left {c c' : Connection α} {cache : IoBuffer} {b : Bytes} {n : Int}
    (hfits : cache.Fits) (halloced : cache.alloced = true) (hempty : cache.size = 0)
    (hsmall : b.length < 2 ^ 31) (hcache : c.cache = some cache)
    (h : c.read_direct .succeeding K cache b = some (n, c')) (hn : n ≠ -1)
    (htakes : ∀ m block c'', handle .succeeding K c b = some (m, block, c'') → m ≠ -1 →
      c''.cache = c.cache ∧ ∃ k, Takes b m block k) :
    ∃ cache' block c₁, handle .succeeding K c b = some (n, block, c₁) ∧
      c' = { c₁ with cache := some cache' } ∧ cache'.Fits ∧ cache'.alloced = true ∧
      cache'.content = b.drop n.toNat := by
  simp only [read_direct, Option.bind_eq_bind, Option.bind_eq_some_iff, Prod.exists] at h
  obtain ⟨m, block, c₁, hhandle, h⟩ := h
  split at h
  · next hless =>
    obtain ⟨-, k, rfl, hk, hlen, hdrop⟩ := htakes _ _ _ hhandle hless.1
    simp only [Option.bind_eq_some_iff, Prod.exists] at h
    obtain ⟨ok, w, hwrite, h⟩ := h
    cases h
    rw [Int.toNat_natCast, hdrop] at hwrite
    have hrest : b.drop k ≠ [] := by
      intro hnil
      have := congrArg List.length hnil
      rw [List.length_drop, List.length_nil] at this
      omega
    rw [IoBuffer.write_not_refused hrest hwrite] at hwrite
    obtain ⟨hwfits, hwalloced, hwcontent⟩ :=
      IoBuffer.write_sound hfits (by rw [List.length_drop]; omega) hwrite
    refine ⟨w, block, c₁, hhandle, rfl, hwfits, hwalloced, ?_⟩
    rw [hwcontent, IoBuffer.content_of_size_zero hempty, List.nil_append, Int.toNat_natCast]
  · next hall =>
    cases h
    obtain ⟨hsame, k, rfl, hk, hlen, hdrop⟩ := htakes _ _ _ hhandle hn
    refine ⟨cache, block, c', hhandle, ?_, hfits, halloced, ?_⟩
    · rw [← hcache, ← hsame]
    · -- everything was taken
      have hk' : k = b.length := by
        by_contra hne
        exact hall ⟨hn, by omega⟩
      rw [IoBuffer.content_of_size_zero hempty, Int.toNat_natCast, hk', List.drop_length]

/-- Two connections that a handler does not tell apart. -/
structure Agrees (c c' : Connection α) : Prop where
  state : c'.state = c.state
  pending_packet : c'.pending_packet = c.pending_packet
  ws_frame : c'.ws_frame = c.ws_frame
  calls : c'.calls = c.calls

/-- **What `on_read` leaves.** The cache holds what the handler does not take
    of the bytes cached and received. -/
theorem on_read_left {c c' : Connection α} {b : Bytes} {n : Int} (hcache : c.CacheFits)
    (hsmall : (c.pending ++ b).length < 2 ^ 31) (h : c.on_read .succeeding K b = some (n, c'))
    (hn : n ≠ -1)
    (htakes : ∀ c₁ m block c₂, Agrees c c₁ →
      handle .succeeding K c₁ (c.pending ++ b) = some (m, block, c₂) → m ≠ -1 →
        c₂.cache = c₁.cache ∧ ∃ k, Takes (c.pending ++ b) m block k) :
    ∃ c₁ block c₂, Agrees c c₁ ∧
      handle .succeeding K c₁ (c.pending ++ b) = some (n, block, c₂) ∧ Agrees c₂ c' ∧
      c'.CacheFits ∧ c'.pending = (c.pending ++ b).drop n.toNat := by
  -- the cache is created when there is none
  obtain ⟨cache, hcreated, hfits, halloced, hpending⟩ : ∃ cache,
      (∀ t, create_cache .succeeding { c with transp := t } = some (some cache)) ∧
      cache.Fits ∧ cache.alloced = true ∧ c.pending = cache.content := by
    rcases hc : c.cache with _ | cache
    · refine ⟨IoBuffer.construct true, ?_, (IoBuffer.wf_construct true).fits, rfl, ?_⟩
      · intro t
        simp only [create_cache]
        rfl
      · simp [pending, hc, IoBuffer.content, IoBuffer.construct]
    · obtain ⟨hfits, halloced⟩ := hcache cache hc
      refine ⟨cache, ?_, hfits, halloced, by simp [pending, hc]⟩
      intro t
      simp only [create_cache]
  have hdone : ∀ (c₂ : Connection α) {cache' : IoBuffer}, cache'.Fits → cache'.alloced = true →
      cache'.content = (c.pending ++ b).drop n.toNat →
      Agrees c₂ { c₂ with cache := some cache' } ∧
        ({ c₂ with cache := some cache' } : Connection α).CacheFits ∧
        ({ c₂ with cache := some cache' } : Connection α).pending =
          (c.pending ++ b).drop n.toNat := by
    intro c₂ cache' hfits' halloced' hcontent
    refine ⟨⟨rfl, rfl, rfl, rfl⟩, ?_, hcontent⟩
    intro iob hiob
    cases hiob
    exact ⟨hfits', halloced'⟩
  simp only [on_read, read_block, hcreated, Option.bind_eq_bind, Option.bind_some,
    Option.bind_eq_some_iff, Prod.exists] at h
  obtain ⟨m, c₁, hblock, h⟩ := h
  split at h
  · next hfail =>
    cases h
    exact absurd hfail hn
  · cases h
    split at hblock
    · rw [hpending] at hsmall htakes hdone ⊢
      obtain ⟨cache₀, cache', block, c₂, hhandle, rfl, hfits', halloced', hcontent⟩ :=
        read_cached_left hfits hsmall hblock hn fun cache' m block c'' hh hm =>
          (htakes _ _ _ _ (by exact ⟨rfl, rfl, rfl, rfl⟩) hh hm).2
      obtain ⟨hsame, hcache', hleft⟩ := hdone c₂ hfits' halloced' hcontent
      exact ⟨_, block, c₂, by exact ⟨rfl, rfl, rfl, rfl⟩, hhandle, hsame, hcache', hleft⟩
    · next hsize =>
      have hzero : cache.size = 0 := by omega
      rw [hpending, IoBuffer.content_of_size_zero hzero, List.nil_append] at hsmall htakes hdone ⊢
      obtain ⟨cache', block, c₂, hhandle, rfl, hfits', halloced', hcontent⟩ :=
        read_direct_left hfits halloced hzero hsmall rfl hblock hn fun m block c'' hh hm =>
          htakes _ _ _ _ (by exact ⟨rfl, rfl, rfl, rfl⟩) hh hm
      obtain ⟨hsame, hcache', hleft⟩ := hdone c₂ hfits' halloced' hcontent
      exact ⟨_, block, c₂, by exact ⟨rfl, rfl, rfl, rfl⟩, hhandle, hsame, hcache', hleft⟩

/-! ## Section 7: Runs -/

variable {fields : α}

/-- A connection that begins to receive packets or frames. -/
def Begun (fields : α) (c : Connection α) : Prop :=
  c.CacheFits ∧ (c.state = state_started ∧ c.pending_packet = some (Packet.construct fields) ∨
    c.state = state_upgraded ∧ c.ws_frame = FrameHeader.fresh)

/-- What holds between the calls of `on_read`. -/
structure Sound (c : Connection α) : Prop where
  reading : c.state = state_started ∨ c.state = state_upgraded
  cache : c.CacheFits
  started : c.state = state_started → ∃ p, c.pending_packet = some p ∧ p.Ongoing
  upgraded : c.state = state_upgraded → c.ws_frame.Ok

theorem Begun.sound {c : Connection α} (h : Begun fields c) : c.Sound := by
  obtain ⟨hcache, hbegin⟩ := h
  refine ⟨hbegin.imp And.left And.left, hcache, ?_, ?_⟩
  · intro hs
    rcases hbegin with ⟨-, hp⟩ | ⟨hs', -⟩
    · exact ⟨_, hp, rfl, rfl⟩
    · rw [hs] at hs'
      cases hs'
  · intro hs
    rcases hbegin with ⟨hs', -⟩ | ⟨-, hw⟩
    · rw [hs] at hs'
      cases hs'
    · rw [hw]
      exact fun _ _ => rfl

variable (fields) in
theorem ask_next_fields {c : Connection α} {p : Packet α} (hstate : c.state = state_started)
    (hp : c.pending_packet = some p) (hfin : p.parse_status = PARSE_FINISHED) :
    (c.ask_next fields).state = state_started ∧ (c.ask_next fields).cache = c.cache ∧
      (c.ask_next fields).pending_packet = some (Packet.construct fields) := by
  have hread : c.async_read_http_packet fields =
      ({ c with pending_packet := some (Packet.construct fields) } : Connection α).async_read := by
    unfold async_read_http_packet
    rw [if_neg (fun hne => hne hstate), hp, if_neg (by simp [hfin])]
  unfold ask_next
  simp only [hread]
  split
  · exact ⟨hstate, rfl, rfl⟩
  · exact ⟨hstate, rfl, rfl⟩

theorem serve_step_cases {c c' : Connection α} {b : Bytes}
    (h : c.serve_step K fields b = some c') :
    ∃ n c₁, c.on_read .succeeding K b = some (n, c₁) ∧ n ≠ -1 ∧
      c' = if c.state = state_started ∧ c.calls.length < c₁.calls.length then c₁.ask_next fields
        else c₁ := by
  simp only [serve_step, serve, Option.bind_eq_some_iff, Option.map_eq_some_iff] at h
  obtain ⟨r, ⟨⟨n, c₁⟩, hread, hr⟩, h⟩ := h
  have hfst : r.1 = n := by
    rw [← hr]
    split
    · rfl
    · rfl
  split at h
  · cases h
  · next hne =>
    rw [hfst] at hne
    cases h
    refine ⟨n, c₁, hread, hne, ?_⟩
    rw [← hr]
    split
    · rfl
    · rfl

/-- A call in `state_started`. -/
theorem serve_packet_left {c c' : Connection α} {b : Bytes} (h : c.Sound)
    (hstate : c.state = state_started) (hsmall : (c.pending ++ b).length < 2 ^ 31)
    (he : c.serve_step K fields b = some c') :
    c'.Sound ∧ (c'.Drained K ↔ ¬ c.CompletesTwo K fields b) := by
  obtain ⟨p, hp, hongoing⟩ := h.started hstate
  obtain ⟨n, c₃, hread, hn, rfl⟩ := serve_step_cases he
  -- the handler
  have hhttp : ∀ {c₁ c₂ : Connection α} {m : Int} {block : Bytes}, Agrees c c₁ →
      handle .succeeding K c₁ (c.pending ++ b) = some (m, block, c₂) → m ≠ -1 →
      block = c.pending ++ b ∧ ∃ (k : Nat) (p' : Packet α), m = k ∧
        p.parse K (c.pending ++ b) = .took k p' ∧ c₂.state = c.state ∧ c₂.cache = c₁.cache ∧
        c₂.pending_packet = some p' ∧
        c₂.calls = c.calls ++ if p'.parse_status = PARSE_FINISHED then [.packet_cb p'] else [] := by
    intro c₁ c₂ m block hsame hhandle hm
    unfold handle at hhandle
    rw [hsame.state, hstate] at hhandle
    simp only at hhandle
    obtain ⟨⟨m', c₂'⟩, hpacket, hres⟩ := Option.map_eq_some_iff.mp hhandle
    cases hres
    obtain ⟨k, p', rfl, hparse, hs, hc, hpend, hcalls⟩ :=
      handle_http_left (hsame.pending_packet.trans hp) hpacket hm
    exact ⟨rfl, k, p', rfl, hparse, hs.trans hsame.state, hc, hpend, by rw [hcalls, hsame.calls]⟩
  obtain ⟨c₁, block, c₂, hsame, hhandle, hsame', hcache', hleft⟩ :=
    on_read_left h.cache hsmall hread hn fun c₁ m block c₂ hsame hhandle hm => by
      obtain ⟨rfl, k, p', rfl, hparse, -, hcache, -⟩ := hhttp hsame hhandle hm
      exact ⟨hcache, k, rfl, (Packet.parse_left hongoing hparse).1, rfl, rfl⟩
  obtain ⟨-, k, p', rfl, hparse, hs, -, hpend, hcalls⟩ := hhttp hsame hhandle hn
  obtain ⟨-, hongoing', hnone⟩ := Packet.parse_left hongoing hparse
  rw [Int.toNat_natCast] at hleft
  have hs₃ : c₃.state = state_started := by rw [hsame'.state, hs, hstate]
  have hp₃ : c₃.pending_packet = some p' := by rw [hsame'.pending_packet, hpend]
  have hcalls₃ : c₃.calls = _ := hsame'.calls.trans hcalls
  by_cases hfin : p'.parse_status = PARSE_FINISHED
  · -- the callback asks for the next packet
    rw [if_pos hfin] at hcalls₃
    have hcb : c.state = state_started ∧ c.calls.length < c₃.calls.length :=
      ⟨hstate, by rw [hcalls₃, List.length_append]; exact Nat.lt_succ_self _⟩
    rw [if_pos hcb]
    obtain ⟨hs', hc', hp'⟩ := ask_next_fields fields hs₃ hp₃ hfin
    have hpending : (c₃.ask_next fields).pending = (c.pending ++ b).drop k := by
      unfold pending at hleft ⊢
      rw [hc', hleft]
    refine ⟨⟨Or.inl hs', ?_, fun _ => ⟨_, hp', rfl, rfl⟩, fun hu => ?_⟩, ?_⟩
    · intro iob hiob
      exact hcache' iob (hc' ▸ hiob)
    · rw [hs'] at hu
      cases hu
    · have hend : p.message_end K (c.pending ++ b) = some k := by
        unfold Packet.message_end
        rw [hparse]
        exact if_pos hfin
      unfold Drained CompletesTwo
      rw [hs', hstate, hpending]
      constructor
      · rintro hdrained ⟨q, m, hq, hm, hsecond⟩
        rw [hp] at hq
        cases hq
        rw [hend] at hm
        cases hm
        exact hsecond (hdrained _ hp')
      · intro hno q hq
        rw [hp'] at hq
        cases hq
        by_contra hsecond
        exact hno ⟨p, k, hp, hend, hsecond⟩
  · -- the packet is not complete yet
    rw [if_neg hfin, List.append_nil] at hcalls₃
    have hcb : ¬ (c.state = state_started ∧ c.calls.length < c₃.calls.length) := by
      rw [hcalls₃]
      exact fun hlt => Nat.lt_irrefl _ hlt.2
    rw [if_neg hcb]
    refine ⟨⟨Or.inl hs₃, hcache', fun _ => ⟨p', hp₃, hongoing'⟩, fun hu => ?_⟩, ?_⟩
    · rw [hs₃] at hu
      cases hu
    · unfold Drained CompletesTwo
      rw [hs₃, hstate, hleft]
      constructor
      · rintro - ⟨q, m, hq, hm, -⟩
        rw [hp] at hq
        cases hq
        unfold Packet.message_end at hm
        rw [hparse] at hm
        simp only [if_neg hfin] at hm
        cases hm
      · intro _ q hq
        rw [hp₃] at hq
        cases hq
        exact hnone hfin

/-- A call in `state_upgraded`. -/
theorem serve_frame_left {c c' : Connection α} {b : Bytes} (h : c.Sound)
    (hstate : c.state = state_upgraded) (hsmall : (c.pending ++ b).length < 2 ^ 31)
    (he : c.serve_step K fields b = some c') :
    c'.Sound ∧ (c'.Drained K ↔ ¬ c.CompletesTwo K fields b) := by
  obtain ⟨n, c₃, hread, hn, rfl⟩ := serve_step_cases he
  rw [if_neg (by rw [hstate]; nofun)]
  -- the handler
  have hframe : ∀ {c₁ c₂ : Connection α} {m : Int} {block : Bytes}, Agrees c c₁ →
      handle .succeeding K c₁ (c.pending ++ b) = some (m, block, c₂) →
      handle_websocket_frame .succeeding c₁ (c.pending ++ b) = some (m, block, c₂) ∧
        c₁.ws_frame.Ok := by
    intro c₁ c₂ m block hsame hhandle
    unfold handle at hhandle
    rw [hsame.state, hstate] at hhandle
    exact ⟨hhandle, by rw [hsame.ws_frame]; exact h.upgraded hstate⟩
  obtain ⟨c₁, block, c₂, hsame, hhandle, hsame', hcache', hleft⟩ :=
    on_read_left h.cache hsmall hread hn fun c₁ m block c₂ hsame hhandle hm => by
      obtain ⟨hhandle, hok⟩ := hframe hsame hhandle
      obtain ⟨k, rfl, hk, hlen, hdrop, -, hcache, -⟩ := handle_websocket_left hsmall hok hhandle hm
      exact ⟨hcache, k, rfl, hk, hlen, hdrop⟩
  obtain ⟨hhandle, hok⟩ := hframe hsame hhandle
  obtain ⟨k, rfl, -, -, -, hs, -, hok', hend⟩ := handle_websocket_left hsmall hok hhandle hn
  rw [Int.toNat_natCast] at hleft
  have hs₃ : c₃.state = state_upgraded := by rw [hsame'.state, hs, hsame.state, hstate]
  refine ⟨⟨Or.inr hs₃, hcache', fun hst => ?_, fun _ => ?_⟩, ?_⟩
  · rw [hs₃] at hst
    cases hst
  · rw [hsame'.ws_frame]
    exact hok'
  · unfold Drained CompletesTwo
    rw [hs₃, hstate]
    simp only [hleft, hsame'.ws_frame]
    rw [hsame.ws_frame] at hend
    rcases hend with ⟨hnone, hdrained⟩ | ⟨hsome, hfresh⟩
    · -- the frame is not complete yet
      rw [hnone]
      exact ⟨fun _ ⟨_, hm, _⟩ => (nomatch hm), fun _ => hdrained⟩
    · rw [hsome, hfresh]
      constructor
      · rintro hdrained ⟨m, hm, hsecond⟩
        cases hm
        exact hsecond hdrained
      · intro hno
        by_contra hsecond
        exact hno ⟨k, rfl, hsecond⟩

/-- **One call.** -/
theorem serve_step_left {c c' : Connection α} {b : Bytes} (h : c.Sound)
    (hsmall : (c.pending ++ b).length < 2 ^ 31) (he : c.serve_step K fields b = some c') :
    c'.Sound ∧ (c'.Drained K ↔ ¬ c.CompletesTwo K fields b) := by
  rcases h.reading with hs | hs
  · exact serve_packet_left h hs hsmall he
  · exact serve_frame_left h hs hsmall he

/-- The bytes cached and received are counted by an `int32_t`. -/
def Counted (c : Connection α) (b : Bytes) : Prop := (c.pending ++ b).length < 2 ^ 31

theorem reachable_sound {c₀ c : Connection α} (hbegun : Begun fields c₀)
    (h : Reachable (serve_step K fields) Counted c₀ c) : c.Sound :=
  h.invariant hbegun.sound fun _ _ _ hsound hok hstep => (serve_step_left hsound hok hstep).1

/-- **When nothing complete is left.** After a call of `on_read` in any run,
    the cache does not complete the next message or frame exactly if the bytes
    cached and received did not hold two. -/
theorem drained_iff {c₀ c c' : Connection α} {b : Bytes} (hbegun : Begun fields c₀)
    (h : Reachable (serve_step K fields) Counted c₀ c) (hb : Counted c b)
    (hstep : c.serve_step K fields b = some c') :
    c'.Drained K ↔ ¬ c.CompletesTwo K fields b :=
  (serve_step_left (reachable_sound hbegun h) hb hstep).2

/-- A server's connection that waits for its first request. -/
def serving : Connection RequestFields :=
  ⟨state_started, none, some Request.construct, FrameHeader.fresh, [], false, ⟨true, true, []⟩, []⟩

theorem serving_begun : Begun ⟨Uri.construct, .METHOD_UNKNOWN⟩ serving :=
  ⟨nofun, Or.inl ⟨rfl, rfl⟩⟩

/-- A request in two segments. -/
theorem drained_iff_one_request :
    ∃ c₁ ∈ serving.serve_step Request.kind ⟨Uri.construct, .METHOD_UNKNOWN⟩ (ascii "GET / HT"),
      ∃ c₂ ∈ c₁.serve_step Request.kind ⟨Uri.construct, .METHOD_UNKNOWN⟩ (ascii "TP/1.1\r\n\r\n"),
        c₂.Drained Request.kind ↔ ¬ c₁.CompletesTwo Request.kind ⟨Uri.construct, .METHOD_UNKNOWN⟩
          (ascii "TP/1.1\r\n\r\n") := by
  have hrun : ∃ c₁ ∈ serving.serve_step Request.kind ⟨Uri.construct, .METHOD_UNKNOWN⟩
      (ascii "GET / HT"), (c₁.pending ++ ascii "TP/1.1\r\n\r\n").length < 2 ^ 31 ∧
        (c₁.serve_step Request.kind ⟨Uri.construct, .METHOD_UNKNOWN⟩
          (ascii "TP/1.1\r\n\r\n")).isSome = true := by
    decide
  obtain ⟨c₁, h₁, hsmall, h₂⟩ := hrun
  obtain ⟨c₂, h₂⟩ := Option.isSome_iff_exists.mp h₂
  refine ⟨c₁, h₁, c₂, h₂, ?_⟩
  exact drained_iff serving_begun (.step .init (show _ < 2 ^ 31 by decide) h₁) hsmall h₂

/-- Two requests in one segment, and two frames. -/
theorem not_drained_two_messages :
    (∃ c ∈ serving.serve_step Request.kind ⟨Uri.construct, .METHOD_UNKNOWN⟩
        (ascii "GET / HTTP/1.1\r\n\r\nGET / HTTP/1.1\r\n\r\n"), ¬ c.Drained Request.kind) ∧
      ∃ c ∈ (upgraded []).serve_step Request.kind ⟨Uri.construct, .METHOD_UNKNOWN⟩
        [0x81, 0x01, 0x68, 0x81, 0x01, 0x69], ¬ c.Drained Request.kind := by
  decide

end Connection

end Pump
