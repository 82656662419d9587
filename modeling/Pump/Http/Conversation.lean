import Pump.Lts
import Pump.Http.Cache
import Pump.Http.Response

/-! # Message after message

    A connection on which one message comes after the other: its owner asks
    for the next packet with `__async_read_http_packet`, and the peer sends a
    message when it has been asked for. The bytes of a message arrive in any
    segments. -/

namespace Pump

open ConnectionState ParseStatus

/-! ## Section 1: A message in segments -/

namespace Packet

variable {α : Type} {K : Kind α}

/-- One call on the bytes `s` completes a new packet as `p`. There is no
    chunked body, and no header line takes its value from another one. -/
structure Whole (K : Kind α) (fields : α) (s : Bytes) (p : Packet α) : Prop where
  parsed : (construct fields).parse K s = .took s.length p
  finished : p.parse_status = PARSE_FINISHED
  not_chunked : p.NotChunked
  carry_free : Header.CarryFree [] ((construct fields).header_lines K s)

/-- The packet waits for the bytes `s`, which complete it as `final`. -/
structure Expects (K : Kind α) (p : Packet α) (s : Bytes) (final : Packet α) : Prop where
  ongoing : p.Ongoing
  unfinished : p.parse_status ≠ PARSE_FINISHED
  completes : ∃ value value', Carrying K (p, value) s ∧
    parse_carrying K (p, value) s = .took s.length (final, value')

theorem Whole.ne_nil {fields : α} {s : Bytes} {p : Packet α} (h : Whole K fields s p) : s ≠ [] := by
  rintro rfl
  have hparsed := h.parsed
  unfold parse at hparsed
  rw [parse_from_line (Or.inl rfl), show find_http_line_end [] = none from rfl] at hparsed
  cases hparsed
  have hfin := h.finished
  cases hfin

instance decidableWhole (K : Kind α) (fields : α) (s : Bytes) : Decidable (∃ p, Whole K fields s p) :=
  match hparse : (construct fields).parse K s with
  | .took n p =>
    decidable_of_iff (n = s.length ∧ p.parse_status = PARSE_FINISHED ∧ p.NotChunked ∧
        Header.CarryFree [] ((construct fields).header_lines K s)) (by
      constructor
      · rintro ⟨rfl, hfin, hn, hfree⟩
        exact ⟨p, hparse, hfin, hn, hfree⟩
      · rintro ⟨p', hp'⟩
        have htook := hparse.symm.trans hp'.parsed
        cases htook
        exact ⟨rfl, hp'.finished, hp'.not_chunked, hp'.carry_free⟩)
  | .failed p => isFalse (by
      rintro ⟨p', hp'⟩
      rw [hp'.parsed] at hparse
      cases hparse)
  | .aborted => isFalse (by
      rintro ⟨p', hp'⟩
      rw [hp'.parsed] at hparse
      cases hparse)

theorem Whole.expects {fields : α} {s : Bytes} {p : Packet α} (h : Whole K fields s p) :
    Expects K (construct fields) s p := by
  have hparsed : (construct fields).parse_from K [] s = .took s.length p := h.parsed
  refine ⟨⟨rfl, rfl⟩, by simp [construct], [],
    Header.carried [] ((construct fields).header_lines K s),
    ⟨resumable_construct fields, ?_, h.carry_free⟩, ?_⟩
  · show ((construct fields).parse_from K [] s).All NotChunked
    rw [hparsed]
    exact h.not_chunked
  · unfold parse_carrying
    rw [hparsed]
    rfl

/-- A finished packet takes nothing. -/
theorem parse_carrying_finished {s : Packet α × Bytes} (h : s.1.parse_status = PARSE_FINISHED)
    (b : Bytes) : ∃ value, parse_carrying K s b = .took 0 (s.1, value) := by
  unfold parse_carrying
  rw [parse_from_late (Or.inr h), parse_body_finished (by rw [h]; decide)]
  exact ⟨_, rfl⟩

/-- **A call on a part** of what the packet waits for. -/
theorem Expects.part {p final : Packet α} {x y : Bytes} (h : Expects K p (x ++ y) final)
    (hy : y ≠ []) :
    ∃ n p', p.parse K x = .took n p' ∧ n ≤ x.length ∧ Expects K p' (x.drop n ++ y) final := by
  obtain ⟨hongoing, -, value, value', hcarry, hall⟩ := h
  have hparse := carrying_parse hcarry
  have hresumes := carrying_resumes hcarry
  unfold ResumesAt at hresumes
  cases hx : parse_carrying K (p, value) x with
  | aborted =>
    rw [hx, hall] at hresumes
    cases hresumes
  | failed s' =>
    rw [hx, hall] at hresumes
    cases hresumes
  | took n s' =>
    rw [hx] at hresumes hparse
    rw [hall] at hresumes
    obtain ⟨m, hrest, hsum⟩ := Reply.after_took hresumes.symm
    obtain ⟨hn, hongoing', -⟩ := parse_left hongoing hparse
    have hlen : (x.drop n ++ y).length = m := by
      rw [List.length_append, List.length_drop]
      rw [List.length_append] at hsum
      omega
    refine ⟨n, s'.1, hparse, hn, hongoing', ?_, s'.2, value', carrying_took hcarry hx, ?_⟩
    · intro hfin
      obtain ⟨v, hzero⟩ := parse_carrying_finished (K := K) hfin (x.drop n ++ y)
      rw [hzero] at hrest
      cases hrest
      rw [List.length_append] at hlen
      exact hy (List.length_eq_zero_iff.mp (by omega))
    · rw [hlen]
      exact hrest

/-- A call on all of it. -/
theorem Expects.whole {p final : Packet α} {x : Bytes} (h : Expects K p x final) :
    p.parse K x = .took x.length final := by
  obtain ⟨-, -, value, value', hcarry, hall⟩ := h
  have hparse := carrying_parse (y := []) (by simpa using hcarry)
  rw [hparse, hall]
  rfl

end Packet

/-! ## Section 2: `on_read` -/

namespace Connection

variable {α : Type} {K : Kind α}

/-- The connection with a call of `parse` behind it. A read is armed when the
    packet is not complete. -/
def parsed (c : Connection α) (p : Packet α) : Connection α :=
  { c with
    pending_packet := some p
    calls := c.calls ++ if p.parse_status = PARSE_FINISHED then [.packet_cb p] else []
    transp := { c.transp with read_pending := decide (p.parse_status ≠ PARSE_FINISHED) } }

/-- The handler of a connection with its transport started. -/
theorem handle_parsed {c : Connection α} {p p' : Packet α} {b : Bytes} {k : Nat}
    (hstate : c.state = state_started) (hpacket : c.pending_packet = some p)
    (hstarted : c.transp.started = true) (hfree : c.transp.read_pending = false)
    (hparse : p.parse K b = .took k p') :
    c.handle .succeeding K b = some ((k : Int), b, c.parsed p') := by
  have hhttp : c.handle_http_packet K b = some ((k : Int), c.parsed p') := by
    unfold handle_http_packet
    simp only [hpacket, hparse, Reply.state, Option.bind_eq_bind, Option.bind_some]
    by_cases hfin : p'.parse_status = PARSE_FINISHED
    · rw [if_pos hfin]
      simp only [parsed, hfin, if_true, ne_eq, not_true_eq_false, decide_false]
      rw [← hfree]
    · rw [if_neg hfin]
      have hread : c.transp.async_read = (true, { c.transp with read_pending := true }) := by
        simp [Transport.async_read, hstarted, hfree]
      simp [async_read, hread, parsed, hfin]
  unfold handle
  rw [hstate]
  simp only [hhttp, Option.map_some]

/-- **`on_read`** of a connection that waits for a packet. -/
theorem on_read_parsed {c : Connection α} {p p' : Packet α} {b : Bytes} {k : Nat}
    {r : Int × Connection α} (hstate : c.state = state_started) (hcache : c.CacheFits)
    (hpacket : c.pending_packet = some p) (hstarted : c.transp.started = true) (hb : b ≠ [])
    (hcount : c.Counted b) (hk : k ≤ (c.pending ++ b).length)
    (hparse : p.parse K (c.pending ++ b) = .took k p')
    (h : c.on_read .succeeding K b = some r) :
    r.1 = k ∧ r.2.CacheFits ∧ r.2.pending = (c.pending ++ b).drop k ∧
      ∃ cache, r.2 = { c.parsed p' with cache := some cache } := by
  -- the cache is created when there is none
  obtain ⟨cache, hcreated, hfits, halloced, hpending⟩ : ∃ cache,
      (∀ t, create_cache .succeeding { c with transp := t } = some (some cache)) ∧
      cache.Fits ∧ cache.alloced = true ∧ c.pending = cache.content := by
    rcases hc : c.cache with _ | cache
    · refine ⟨IoBuffer.construct true, ?_, (IoBuffer.wf_construct true).fits, rfl, ?_⟩
      · intro t
        simp only [create_cache]
        rfl
      · simp [pending, hc, IoBuffer.content, IoBuffer.construct]
    · obtain ⟨hfits, halloced⟩ := hcache cache hc
      refine ⟨cache, ?_, hfits, halloced, by simp [pending, hc]⟩
      intro t
      simp only [create_cache]
  -- whatever is in the cache, the handler does the same
  have hhandle : ∀ cache' : Option IoBuffer, ∀ d : Connection α,
      d = { c with transp := { c.transp with read_pending := false }, cache := cache' } →
      d.handle .succeeding K (c.pending ++ b) = some ((k : Int), c.pending ++ b, d.parsed p') := by
    rintro cache' d rfl
    exact handle_parsed hstate hpacket hstarted rfl hparse
  have hdone : ∀ (d : Connection α) (cache' cache'' : Option IoBuffer),
      d = { c with transp := { c.transp with read_pending := false }, cache := cache' } →
      ({ d.parsed p' with cache := cache'' } : Connection α) =
        { c.parsed p' with cache := cache'' } := by
    rintro d cache' cache'' rfl
    rfl
  unfold Counted at hcount
  simp only [on_read, read_block, hcreated, Option.bind_eq_bind, Option.bind_some,
    Option.bind_eq_some_iff, Prod.exists] at h
  obtain ⟨m, c₁, hblock, h⟩ := h
  rw [hpending] at hcount hk hparse hhandle ⊢
  split at hblock
  · -- the handler works in the memory of the cache
    have hm : m ≠ -1 := by
      simp only [read_cached, Option.bind_eq_bind, Option.bind_eq_some_iff, Prod.exists] at hblock
      obtain ⟨ok, w, hwrite, hblock⟩ := hblock
      rw [IoBuffer.write_not_refused hb hwrite] at hblock
      rw [List.length_append] at hcount
      obtain ⟨-, -, hcontent⟩ := IoBuffer.write_sound hfits (by omega)
        (IoBuffer.write_not_refused hb hwrite ▸ hwrite)
      rw [hcontent, hhandle _ _ rfl] at hblock
      simp only [Bool.not_true, Bool.false_eq_true, if_false, Option.bind_some,
        Option.bind_eq_some_iff] at hblock
      obtain ⟨raw, -, hblock⟩ := hblock
      rw [if_neg (by omega)] at hblock
      cases hblock
      omega
    obtain ⟨cache₀, cache', block, c₂, hh, rfl, hfits', halloced', hcontent⟩ :=
      read_cached_left hfits hcount hblock hm fun cache'' m' block' c'' hh _ => by
        rw [hhandle _ _ rfl] at hh
        cases hh
        exact ⟨k, rfl, hk, rfl, rfl⟩
    rw [hhandle _ _ rfl] at hh
    cases hh
    rw [if_neg (by omega)] at h
    cases h
    refine ⟨rfl, ?_, hcontent, cache', hdone _ _ _ rfl⟩
    intro iob hiob
    cases hiob
    exact ⟨hfits', halloced'⟩
  · next hsize =>
    have hzero : cache.size = 0 := by omega
    rw [IoBuffer.content_of_size_zero hzero, List.nil_append] at hcount hk hhandle ⊢
    have hm : m ≠ -1 := by
      simp only [read_direct, Option.bind_eq_bind, Option.bind_eq_some_iff, Prod.exists] at hblock
      obtain ⟨m', block, c₂, hh, hblock⟩ := hblock
      rw [hhandle _ _ rfl] at hh
      cases hh
      split at hblock
      · obtain ⟨w, -, hblock⟩ := Option.bind_eq_some_iff.mp hblock
        cases hblock
        omega
      · cases hblock
        omega
    obtain ⟨cache', block, c₂, hh, rfl, hfits', halloced', hcontent⟩ :=
      read_direct_left hfits halloced hzero hcount rfl hblock hm fun m' block' c'' hh _ => by
        rw [hhandle _ _ rfl] at hh
        cases hh
        exact ⟨rfl, k, rfl, hk, rfl, rfl⟩
    rw [hhandle _ _ rfl] at hh
    cases hh
    rw [if_neg (by omega)] at h
    cases h
    refine ⟨rfl, ?_, hcontent, cache', hdone _ _ _ rfl⟩
    intro iob hiob
    cases hiob
    exact ⟨hfits', halloced'⟩

end Connection

/-! ## Section 3: Messages and reads -/

/-- A connection and the bytes on their way to it. For the history, `asked`
    is how many packets were asked for, and `told` are the packets that the
    messages of the peer make up. -/
structure Conversation (α : Type) where
  conn : Connection α
  arriving : Bytes
  asked : Nat
  told : List (Packet α)
  deriving DecidableEq

namespace Conversation

variable {α : Type}

inductive Label where
  /-- The owner asks for the next packet. -/
  | ask
  /-- The peer sends a message. -/
  | tell (b : Bytes)
  /-- The transport reads the first `n` bytes. -/
  | receive (n : Nat)

/-- A connection behind `start_http`. -/
def opened (ws_key : Bytes) : Conversation α :=
  { conn := ⟨state_started, none, none, FrameHeader.fresh, ws_key, false, ⟨true, false, []⟩, []⟩
    arriving := []
    asked := 0
    told := [] }

variable (K : Kind α) (fields : α)

/-- A step that does not fail: the packet may be asked for, and `on_read`
    does not come upon an error. -/
def step (s : Conversation α) : Label → Option (Conversation α)
  | .ask =>
    let r := s.conn.async_read_http_packet fields
    if r.1 then some { s with conn := r.2, asked := s.asked + 1 } else none
  | .tell b =>
    match (Packet.construct fields).parse K b with
    | .took _ p => some { s with arriving := s.arriving ++ b, told := s.told ++ [p] }
    | _ => none
  | .receive n =>
    if s.conn.transp.read_pending ∧ 0 < n ∧ n ≤ s.arriving.length then
      (s.conn.on_read .succeeding K (s.arriving.take n)).bind fun r =>
        if r.1 = -1 then none else some { s with conn := r.2, arriving := s.arriving.drop n }
    else none

/-- A condition on the runs: the peer sends whole messages and waits until it
    is asked, and sizes fit. -/
def Answers (s : Conversation α) : Label → Prop
  | .ask => True
  | .tell b => s.told.length < s.asked ∧ ∃ p, Packet.Whole K fields b p
  | .receive n => s.conn.Sized (s.arriving.take n)

instance (c : Connection α) (b : Bytes) : Decidable (c.Sized b) :=
  inferInstanceAs (Decidable ((c.pending ++ b).length < 2 ^ 31 ∧
    ∀ cache ∈ c.cache, cache.raw_size + b.length < 2 ^ 31))

instance (s : Conversation α) (l : Label) : Decidable (Answers K fields s l) := by
  cases l <;> unfold Answers <;> infer_instance

/-- How far the messages are. -/
inductive Stage (s : Conversation α) : Prop
  | rest (asked : s.asked = s.told.length) (calls : s.conn.calls = s.told.map .packet_cb)
      (arriving : s.arriving = []) (pending : s.conn.pending = [])
      (free : s.conn.transp.read_pending = false)
      (packet : ∀ p, s.conn.pending_packet = some p → p.parse_status = PARSE_FINISHED) : Stage s
  | waiting (asked : s.asked = s.told.length + 1) (calls : s.conn.calls = s.told.map .packet_cb)
      (arriving : s.arriving = []) (pending : s.conn.pending = [])
      (armed : s.conn.transp.read_pending = true)
      (packet : s.conn.pending_packet = some (Packet.construct fields)) : Stage s
  | coming (before : List (Packet α)) (p final : Packet α) (told : s.told = before ++ [final])
      (asked : s.asked = s.told.length) (calls : s.conn.calls = before.map .packet_cb)
      (arriving : s.arriving ≠ []) (armed : s.conn.transp.read_pending = true)
      (packet : s.conn.pending_packet = some p) (finished : final.parse_status = PARSE_FINISHED)
      (expects : Packet.Expects K p (s.conn.pending ++ s.arriving) final) : Stage s

/-- **The invariant.** -/
structure Inv (s : Conversation α) : Prop where
  state : s.conn.state = state_started
  started : s.conn.transp.started = true
  cache : s.conn.CacheFits
  frame : s.conn.ws_frame.Ok
  stage : Stage K fields s

variable {K fields} {s s' : Conversation α}

theorem inv_opened (ws_key : Bytes) : Inv K fields (opened ws_key : Conversation α) := by
  constructor
  case state => rfl
  case started => rfl
  case cache => exact fun iob hiob => by cases hiob
  case frame => exact fun hu => by cases hu
  case stage =>
    exact .rest rfl rfl rfl rfl rfl fun p hp => by cases hp

theorem ask_next_packet {c : Connection α} (hstate : c.state = state_started)
    (hstarted : c.transp.started = true) (hfree : c.transp.read_pending = false)
    (hpacket : ∀ p, c.pending_packet = some p → p.parse_status = PARSE_FINISHED) :
    c.async_read_http_packet fields = (true, { c with
      pending_packet := some (Packet.construct fields)
      transp := { c.transp with read_pending := true } }) := by
  have hidle : ¬(c.pending_packet.map fun p => decide (p.parse_status ≠ PARSE_FINISHED)) =
      some true := by
    intro h
    obtain ⟨p, hp, hne⟩ := Option.map_eq_some_iff.mp h
    exact of_decide_eq_true hne (hpacket p hp)
  unfold Connection.async_read_http_packet
  rw [if_neg fun hne => hne hstate, if_neg hidle]
  simp [Connection.async_read, Transport.async_read, hstarted, hfree]

/-- A packet that waits for bytes is in the way of the next one. -/
theorem ask_refused (fields : α) {c : Connection α} {p : Packet α} (hpacket : c.pending_packet = some p)
    (hp : p.parse_status ≠ PARSE_FINISHED) : (c.async_read_http_packet fields).1 = false := by
  unfold Connection.async_read_http_packet
  rw [hpacket, Option.map_some, decide_eq_true hp, if_pos rfl]
  split
  · rfl
  · rfl

theorem Inv.ask (h : Inv K fields s) (hstep : step K fields s .ask = some s') :
    Inv K fields s' := by
  simp only [Conversation.step] at hstep
  cases h.stage with
  | rest asked calls arriving pending free packet =>
    rw [ask_next_packet h.state h.started free packet, if_pos rfl] at hstep
    cases hstep
    refine ⟨h.state, h.started, h.cache, h.frame, ?_⟩
    exact .waiting (congrArg (· + 1) asked) calls arriving pending rfl rfl
  | waiting asked calls arriving pending armed packet =>
    rw [ask_refused fields packet (by simp [Packet.construct])] at hstep
    cases hstep
  | coming before p final told asked calls arriving armed packet finished expects =>
    rw [ask_refused fields packet expects.unfinished] at hstep
    cases hstep

theorem Inv.tell {b : Bytes} (h : Inv K fields s) (hok : Answers K fields s (.tell b))
    (hstep : step K fields s (.tell b) = some s') : Inv K fields s' := by
  obtain ⟨htold, p, hwhole⟩ := hok
  simp only [Conversation.step] at hstep
  rw [hwhole.parsed] at hstep
  cases hstep
  cases h.stage with
  | rest asked calls arriving pending free packet => omega
  | waiting asked calls arriving pending armed packet =>
    refine ⟨h.state, h.started, h.cache, h.frame, ?_⟩
    refine .coming s.told (Packet.construct fields) p rfl ?_ calls ?_ armed packet
      hwhole.finished ?_
    · rw [List.length_append]
      exact asked
    · rw [arriving]
      exact hwhole.ne_nil
    · rw [arriving, pending]
      exact hwhole.expects
  | coming before p final told asked calls arriving armed packet finished expects => omega

theorem step_tell {b : Bytes} (hstep : step K fields s (.tell b) = some s') :
    s'.conn = s.conn ∧ s'.asked = s.asked ∧ ∃ p, s'.told = s.told ++ [p] := by
  simp only [step] at hstep
  split at hstep
  · next p _ =>
    cases hstep
    exact ⟨rfl, rfl, p, rfl⟩
  · cases hstep

theorem step_receive {n : Nat} (hstep : step K fields s (.receive n) = some s') :
    s'.told = s.told ∧ s'.asked = s.asked := by
  simp only [step] at hstep
  split at hstep
  case isFalse => cases hstep
  case isTrue =>
  obtain ⟨r, -, hr⟩ := Option.bind_eq_some_iff.mp hstep
  split at hr
  · cases hr
  · cases hr
    exact ⟨rfl, rfl⟩

/-- A segment with more to come leaves the packet waiting; the last one
    completes it. -/
theorem Inv.receive {n : Nat} (h : Inv K fields s) (hok : Answers K fields s (.receive n))
    (hstep : step K fields s (.receive n) = some s') : Inv K fields s' := by
  simp only [Conversation.step] at hstep
  split at hstep
  case isFalse => cases hstep
  case isTrue hen =>
  obtain ⟨harmed, hpos, hn⟩ := hen
  obtain ⟨r, hread, hr⟩ := Option.bind_eq_some_iff.mp hstep
  split at hr
  case isTrue => cases hr
  case isFalse hne =>
  cases hr
  cases h.stage with
  | rest asked calls arriving pending free packet =>
    rw [free] at harmed
    cases harmed
  | waiting asked calls arriving pending armed packet =>
    rw [arriving, List.length_nil] at hn
    omega
  | coming before p final told asked calls arriving armed packet finished expects =>
    have hb : s.arriving.take n ≠ [] := by
      intro hnil
      have := congrArg List.length hnil
      rw [List.length_take, List.length_nil] at this
      omega
    have hsplit : s.conn.pending ++ s.arriving =
        (s.conn.pending ++ s.arriving.take n) ++ s.arriving.drop n := by
      rw [List.append_assoc, List.take_append_drop]
    rw [hsplit] at expects
    by_cases hmore : s.arriving.drop n = []
    · rw [hmore, List.append_nil] at expects
      obtain ⟨-, hcache, hleft, cache, hconn⟩ := Connection.on_read_parsed h.state h.cache packet
        h.started hb hok.1 (Nat.le_refl _) expects.whole hread
      rw [List.drop_length] at hleft
      rw [hconn] at hcache hleft ⊢
      refine ⟨h.state, h.started, hcache, h.frame, ?_⟩
      refine .rest asked ?_ hmore hleft ?_ ?_
      · simp [Connection.parsed, finished, calls, told]
      · simp [Connection.parsed, finished]
      · rintro p' hp'
        cases hp'
        exact finished
    · obtain ⟨k, p', hparse, hk, expects'⟩ := expects.part hmore
      obtain ⟨-, hcache, hleft, cache, hconn⟩ := Connection.on_read_parsed h.state h.cache packet
        h.started hb hok.1 hk hparse hread
      rw [hconn] at hcache hleft ⊢
      refine ⟨h.state, h.started, hcache, h.frame, ?_⟩
      refine .coming before p' final told asked ?_ hmore ?_ rfl finished ?_
      · simp [Connection.parsed, expects'.unfinished, calls]
      · simp [Connection.parsed, expects'.unfinished]
      · rw [hleft]
        exact expects'

theorem Inv.step (s : Conversation α) (l : Label) (s' : Conversation α) (h : Inv K fields s)
    (hok : Answers K fields s l) (hstep : step K fields s l = some s') : Inv K fields s' := by
  cases l with
  | ask => exact h.ask hstep
  | tell b => exact h.tell hok hstep
  | receive n => exact h.receive hok hstep

/-- **What a segment hands over**: nothing, or the last message. -/
theorem Inv.receive_calls {n : Nat} (h : Inv K fields s) (hok : Answers K fields s (.receive n))
    (hstep : Conversation.step K fields s (.receive n) = some s') :
    s.asked = s.told.length ∧ s.conn.calls.length < s.told.length ∧
      (s'.conn.calls = s.conn.calls ∨ ∃ p, s'.conn.calls = s.conn.calls ++ [.packet_cb p] ∧
        s.told.getLast? = some p ∧ s'.conn.calls.length = s'.told.length) := by
  have h' := h.receive hok hstep
  obtain ⟨htold, hasked⟩ := step_receive hstep
  have hread : s.conn.transp.read_pending = true ∧ s.arriving ≠ [] := by
    simp only [Conversation.step] at hstep
    split at hstep
    case isFalse => cases hstep
    case isTrue hen =>
    refine ⟨hen.1, ?_⟩
    rintro hnil
    rw [hnil, List.length_nil] at hen
    omega
  cases h.stage with
  | rest asked calls arriving pending free packet =>
    cases free.symm.trans hread.1
  | waiting asked calls arriving pending armed packet =>
    exact absurd arriving hread.2
  | coming before p final told asked calls arriving armed packet finished expects =>
    refine ⟨asked, by simp [calls, told], ?_⟩
    cases h'.stage with
    | rest asked' calls' arriving' pending' free' packet' =>
      refine .inr ⟨final, ?_, by simp [told], by rw [calls', List.length_map]⟩
      rw [calls', calls, htold, told, List.map_append]
      rfl
    | waiting asked' =>
      rw [hasked, htold] at asked'
      omega
    | coming before' p' final' told' asked' calls' =>
      refine .inl ?_
      have hbefore : before' = before := by
        have heq := told'.symm.trans (htold.trans told)
        exact (List.append_inj' heq rfl).1
      rw [calls', calls, hbefore]

theorem Inv.asks (h : Inv K fields s) (hcalls : s.conn.calls.length = s.asked) :
    (Conversation.step K fields s .ask).isSome = true := by
  cases h.stage with
  | rest asked calls arriving pending free packet =>
    unfold Conversation.step
    rw [ask_next_packet h.state h.started free packet]
    rfl
  | waiting asked calls arriving pending armed packet =>
    rw [calls, List.length_map] at hcalls
    omega
  | coming before p final told asked calls arriving armed packet finished expects =>
    rw [calls, asked, told, List.length_map, List.length_append] at hcalls
    simp at hcalls

/-- The stage is one of the packets and bytes only. -/
theorem Stage.of_conn {c : Connection α} (h : Stage K fields s) (hcalls : c.calls = s.conn.calls)
    (hpending : c.pending = s.conn.pending)
    (hread : c.transp.read_pending = s.conn.transp.read_pending)
    (hpacket : c.pending_packet = s.conn.pending_packet) :
    Stage K fields { s with conn := c } := by
  cases h with
  | rest asked calls arriving pending free packet =>
    rw [← hcalls] at calls
    rw [← hpending] at pending
    rw [← hread] at free
    rw [← hpacket] at packet
    exact .rest asked calls arriving pending free packet
  | waiting asked calls arriving pending armed packet =>
    rw [← hcalls] at calls
    rw [← hpending] at pending
    rw [← hread] at armed
    rw [← hpacket] at packet
    exact .waiting asked calls arriving pending armed packet
  | coming before p final told asked calls arriving armed packet finished expects =>
    rw [← hcalls] at calls
    rw [← hpending] at expects
    rw [← hread] at armed
    rw [← hpacket] at packet
    exact .coming before p final told asked calls arriving armed packet finished expects

theorem Stage.in_order (h : Stage K fields s) : s.conn.calls <+: s.told.map .packet_cb := by
  cases h with
  | rest asked calls arriving pending free packet =>
    rw [calls]
  | waiting asked calls arriving pending armed packet =>
    rw [calls]
  | coming before p final told asked calls arriving armed packet finished expects =>
    rw [calls, told, List.map_append]
    exact List.prefix_append _ _

/-- The messages are all handed over exactly when no bytes are on their way. -/
theorem Stage.complete_iff (h : Stage K fields s) :
    s.arriving = [] ↔ s.conn.calls.length = s.told.length := by
  cases h with
  | rest asked calls arriving pending free packet =>
    rw [calls, List.length_map]
    exact iff_of_true arriving rfl
  | waiting asked calls arriving pending armed packet =>
    rw [calls, List.length_map]
    exact iff_of_true arriving rfl
  | coming before p final told asked calls arriving armed packet finished expects =>
    refine iff_of_false arriving ?_
    simp [calls, told]

end Conversation

end Pump
