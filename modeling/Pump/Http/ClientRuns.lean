import Pump.Http.Client

/-! # Runs of a client

    Requests and upgrades over connections that answer, go down and call back
    in any order. -/

namespace Pump

open ConnectionState

namespace Client

variable {s s' : Client}

/-! ## Section 1: The steps of the connections -/

/-- A connection moves on, with callbacks that it has made. -/
def moved (s : Client) (id : Nat) (k : ClientConn) (new : List (Nat × Option Response)) : Client :=
  { s.set_link id k with flying := s.flying ++ new }

theorem packets_of_moved_ne {id id' : Nat} {new : List (Nat × Option Response)} (s : Client)
    (k : ClientConn) (hnew : ∀ x ∈ new, x.1 = id) (hne : id' ≠ id) :
    packets_of id' (s.moved id k new).flying = packets_of id' s.flying := by
  have hnil : packets_of id' new = [] := packets_of_others fun x hx => by
    rw [hnew x hx]
    exact hne.symm
  show packets_of id' (s.flying ++ new) = _
  rw [packets_of_append, hnil, List.append_nil]

/-- Another connection than the one in use does not matter. -/
theorem Turn.moved_ne {id : Nat} {k : ClientConn} {new : List (Nat × Option Response)}
    (h : s.Turn) (hnew : ∀ x ∈ new, x.1 = id) (hne : ∀ id', s.conn = some id' → id' ≠ id) :
    (s.moved id k new).Turn := by
  have hlink : ∀ id', s.conn = some id' → (s.moved id k new).links id' = s.links id' :=
    fun id' hid' => set_link_ne s k (hne id' hid')
  have hpackets : ∀ id', s.conn = some id' →
      packets_of id' (s.moved id k new).flying = packets_of id' s.flying :=
    fun id' hid' => packets_of_moved_ne s k hnew (hne id' hid')
  cases h with
  | idle phase free =>
    refine .idle phase fun id' hid' => ?_
    rw [hlink id' hid', hpackets id' hid']
    exact free id' hid'
  | setup ws call id' phase number ready =>
    refine .setup ws call id' phase number ⟨ready.conn, ?_, ?_, ?_, ?_⟩
    · rw [hlink id' ready.conn]
      exact ready.listening
    · rw [hpackets id' ready.conn]
      exact ready.packets
    · rw [hlink id' ready.conn]
      exact ready.last
    · rw [hlink id' ready.conn]
      exact ready.aims
  | waiting ws call id' phase number pending =>
    exact .waiting ws call id' phase number (pending.congr pending.conn (hlink id' pending.conn) rfl
      rfl (hpackets id' pending.conn) rfl rfl)

/-- A connection that goes down, or is down and calls back. -/
theorem Turn.moved_down {id : Nat} {k : ClientConn} {new : List (Nat × Option Response)}
    (h : s.Turn) (hlater : (s.links id).Later k) (hdown : k.is_valid = false)
    (hstage : (s.links id).Tended → k.Tended)
    (hrequests : k.requests = (s.links id).requests)
    (htold : k.conv.told = (s.links id).conv.told)
    (harriving : k.conv.arriving = (s.links id).conv.arriving)
    (hasked : k.conv.asked = (s.links id).conv.asked)
    (hcalls : k.conv.conn.calls = (s.links id).conv.conn.calls)
    (hnew : ∀ x ∈ new, x = (id, none)) : (s.moved id k new).Turn := by
  by_cases hconn : s.conn = some id
  case neg =>
    refine h.moved_ne (fun x hx => by rw [hnew x hx]) ?_
    rintro id' hid' rfl
    exact hconn hid'
  case pos =>
  have hlink : (s.moved id k new).links id = k := set_link_same s id k
  have hpackets : packets_of id (s.moved id k new).flying = packets_of id s.flying := by
    have hnil : packets_of id new = [] := by
      unfold packets_of
      rw [List.filterMap_eq_nil_iff]
      intro x hx
      rw [hnew x hx]
      exact if_pos rfl
    show packets_of id (s.flying ++ new) = _
    rw [packets_of_append, hnil, List.append_nil]
  have hcomplete : ∀ p, (s.links id).Complete p → k.Complete p := by
    intro p hp
    refine ⟨?_, ?_, ?_⟩
    · rw [htold, hrequests]
      exact hp.answered
    · rw [hcalls, htold]
      exact hp.handed
    · rw [htold]
      exact hp.last
  cases h with
  | idle phase free =>
    refine .idle phase fun id' hid' hvalid => ?_
    cases hconn.symm.trans hid'
    rw [hlink, hdown] at hvalid
    cases hvalid
  | setup ws call id' phase number ready =>
    cases hconn.symm.trans ready.conn
    have hlisten := ready.listening
    refine .setup ws call id phase number ⟨hconn, ?_, ?_, ?_, ?_⟩
    · rw [hlink]
      refine ⟨hstage hlisten.tended, ?_, ?_, ?_⟩
      · rw [htold, hrequests]
        exact hlisten.answered
      · rw [harriving]
        exact hlisten.still
      · rw [hasked, htold]
        exact hlisten.asked
    · rw [hpackets]
      exact ready.packets
    · rw [hlink]
      exact hlater.aims ready.last
    · rw [hlink]
      exact hlater.aims ready.aims
  | waiting ws call id' phase number pending =>
    cases hconn.symm.trans pending.conn
    refine .waiting ws call id phase number ?_
    constructor
    case conn => exact hconn
    case tended =>
      rw [hlink]
      exact hstage pending.tended
    case waits => exact pending.waits
    case last =>
      rw [hlink]
      exact hlater.aims pending.last
    case sent =>
      rw [hlink, hrequests]
      exact pending.sent
    case asked =>
      rw [hlink, hasked, hrequests]
      exact pending.asked
    case packets =>
      rw [hlink, hpackets]
      exact pending.packets.imp (fun h => h) fun hp => hp.imp fun p hp => ⟨hp.1, hcomplete p hp.2⟩
    case answer =>
      intro hnotified p hp
      rw [hlink, hpackets]
      exact (pending.answer hnotified p hp).imp (fun h => h) (hcomplete p)
    case error =>
      rw [hlink]
      exact fun _ _ => hdown
    case awake =>
      rw [hlink, hpackets, hcalls, hrequests]
      exact pending.awake

/-- **`lose`** -/
theorem Inv.lose {id : Nat} (h : s.Inv) (hid : id < s.created) :
    Inv (s.set_link id (s.links id).stop) := by
  have hlater := ClientConn.later_stop (s.links id)
  have hsafe := h.safe.set_link hid hlater fun _ hc => .inl hc
  have hturn : (s.moved id (s.links id).stop []).Turn :=
    h.turn.moved_down hlater rfl ClientConn.Tended.stop rfl rfl rfl rfl rfl (by simp)
  unfold moved at hturn
  rw [List.append_nil] at hturn
  exact ⟨hsafe, hturn⟩

/-- **`fail`** -/
theorem Inv.fail {id : Nat} (h : s.Inv) (hid : id < s.created)
    (hdown : (s.links id).is_valid = false) :
    Inv (s.moved id { s.links id with conv := { (s.links id).conv with
      conn := { (s.links id).conv.conn with state := state_error } } } [(id, none)]) := by
  have hlater : (s.links id).Later { s.links id with conv := { (s.links id).conv with
      conn := { (s.links id).conv.conn with state := state_error } } } :=
    ⟨rfl, rfl, List.prefix_refl _, List.prefix_refl _, fun hvalid => hvalid⟩
  constructor
  case safe =>
    refine h.safe.update hid hlater (fun _ hc => .inl hc) ?_
    intro x hx
    cases List.mem_singleton.mp hx
    exact ⟨rfl, fun _ => hdown⟩
  case turn =>
    refine h.turn.moved_down hlater hdown ?_ rfl rfl rfl rfl rfl (fun x hx => List.mem_singleton.mp hx)
    intro htended
    refine ⟨htended.stage.of_conn rfl rfl rfl rfl, fun hvalid => ?_⟩
    exact absurd (hvalid.symm.trans hdown) (by decide)

theorem mem_callbacks {id : Nat} {calls : List (Call ResponseFields)} {x : Nat × Option Response}
    (hx : x ∈ callbacks id calls) : x.1 = id ∧ x.2 ≠ none := by
  obtain ⟨c, -, hc⟩ := List.mem_filterMap.mp hx
  cases c with
  | packet_cb p =>
    cases hc
    exact ⟨rfl, Option.some_ne_none p⟩
  | frame_cb b fin => cases hc

theorem network_eq {id : Nat} {conv : Conversation ResponseFields}
    (new : List (Call ResponseFields))
    (hcalls : conv.conn.calls = (s.links id).conv.conn.calls ++ new) :
    s.network id conv = s.moved id { s.links id with conv := conv } (callbacks id new) := by
  unfold network moved
  simp only
  rw [hcalls, List.drop_left]

/-- A wait that goes on while its connection moves on. -/
theorem Pending.moved {call : ClientCall} {id : Nat} {conv : Conversation ResponseFields}
    {new : List (Nat × Option Response)} (h : s.Pending call id)
    (hlater : (s.links id).Later { s.links id with conv := conv })
    (hinv : Conversation.Inv Response.kind ⟨0⟩ conv)
    (hasked : conv.asked = (s.links id).conv.asked) (hquiet : s.notified = false)
    (hpackets : packets_of id (s.flying ++ new) = [] ∨ ∃ p, packets_of id (s.flying ++ new) = [p] ∧
      ClientConn.Complete { s.links id with conv := conv } p)
    (hawake : conv.conn.calls.length = (s.links id).requests.length →
      packets_of id (s.flying ++ new) ≠ []) :
    (s.moved id { s.links id with conv := conv } new).Pending call id := by
  have hlink : (s.moved id { s.links id with conv := conv } new).links id =
      { s.links id with conv := conv } := set_link_same s id _
  constructor
  case conn => exact h.conn
  case tended =>
    rw [hlink]
    exact ⟨hinv.stage, fun _ => hinv⟩
  case waits => exact h.waits
  case last =>
    rw [hlink]
    exact hlater.aims h.last
  case sent =>
    rw [hlink]
    exact h.sent
  case asked =>
    rw [hlink]
    exact hasked.trans h.asked
  case packets =>
    rw [hlink]
    exact hpackets
  case answer => exact fun hnotified => by cases hquiet.symm.trans hnotified
  case error => exact fun hnotified => by cases hquiet.symm.trans hnotified
  case awake =>
    rw [hlink]
    exact fun hlen => .inl (hawake hlen)

/-- **`tell`** -/
theorem Inv.tell {id : Nat} {b : Bytes} {conv : Conversation ResponseFields} (h : s.Inv)
    (hok : Orderly s (.tell id b)) (hid : id < s.created)
    (hvalid : (s.links id).is_valid = true)
    (hstep : (s.links id).conv.step Response.kind ⟨0⟩ (.tell b) = some conv) :
    Inv (s.network id conv) := by
  obtain ⟨hopen, hwhole⟩ := hok
  obtain ⟨hconv, hasked, p, htold⟩ := Conversation.step_tell hstep
  have hlater : (s.links id).Later { s.links id with conv := conv } :=
    ⟨rfl, rfl, List.prefix_refl _, by rw [htold]; exact List.prefix_append _ _, fun _ => hvalid⟩
  have hnetwork : s.network id conv = s.moved id { s.links id with conv := conv } [] :=
    network_eq [] (by rw [hconv, List.append_nil])
  rw [hnetwork]
  constructor
  case safe => exact h.safe.update hid hlater (fun _ hc => .inl hc) (by simp)
  case turn =>
    by_cases hconn : s.conn = some id
    case neg =>
      refine h.turn.moved_ne (by simp) ?_
      rintro id' hid' rfl
      exact hconn hid'
    case pos =>
    cases h.turn with
    | idle phase free =>
      have hanswered := (free id hconn hvalid).1.answered
      omega
    | setup ws call id' phase number ready =>
      cases hconn.symm.trans ready.conn
      have hanswered := ready.listening.answered
      omega
    | waiting ws call id' phase number pending =>
      cases hconn.symm.trans pending.conn
      have hinv' := (pending.tended.inv hvalid).tell
        ⟨by rw [pending.asked]; exact hopen, hwhole⟩ hstep
      have hnot : ∀ p, ¬(s.links id).Complete p := fun p hp => by
        have hanswered := hp.answered
        omega
      have hquiet := pending.quiet hvalid hnot
      have hpackets : packets_of id (s.flying ++ []) = [] := by
        rw [List.append_nil]
        exact pending.packets.resolve_right fun hp => hnot _ hp.choose_spec.2
      refine .waiting ws call id phase number
        (pending.moved hlater hinv' hasked hquiet (.inl hpackets) fun hlen => ?_)
      have hle := pending.tended.stage.in_order.length_le
      rw [hconv] at hlen
      rw [List.length_map] at hle
      omega

/-- **`receive`** -/
theorem Inv.receive {id n : Nat} {conv : Conversation ResponseFields} (h : s.Inv)
    (hok : Orderly s (.receive id n)) (hid : id < s.created)
    (hvalid : (s.links id).is_valid = true)
    (hstep : (s.links id).conv.step Response.kind ⟨0⟩ (.receive n) = some conv) :
    Inv (s.network id conv) := by
  obtain ⟨htold, hasked⟩ := Conversation.step_receive hstep
  have hlater : (s.links id).Later { s.links id with conv := conv } :=
    ⟨rfl, rfl, List.prefix_refl _, by rw [htold], fun _ => hvalid⟩
  constructor
  case safe =>
    refine h.safe.update hid hlater (fun _ hc => .inl hc) fun x hx => ?_
    obtain ⟨hfst, hsome⟩ := mem_callbacks hx
    exact ⟨hfst, fun hnone => absurd hnone hsome⟩
  case turn =>
    by_cases hconn : s.conn = some id
    case neg =>
      refine h.turn.moved_ne (fun x hx => (mem_callbacks hx).1) ?_
      rintro id' hid' rfl
      exact hconn hid'
    case pos =>
    cases h.turn with
    | idle phase free => exact ((free id hconn hvalid).1.no_receive hvalid hok hstep).elim
    | setup ws call id' phase number ready =>
      cases hconn.symm.trans ready.conn
      exact (ready.listening.settled.no_receive hvalid hok hstep).elim
    | waiting ws call id' phase number pending =>
      cases hconn.symm.trans pending.conn
      have hinv := pending.tended.inv hvalid
      have hinv' := hinv.receive hok hstep
      obtain ⟨hall, hlt, hcalls⟩ := hinv.receive_calls hok hstep
      have hnot : ∀ p, ¬(s.links id).Complete p := fun p hp => by
        have hhanded := hp.handed
        omega
      have hquiet := pending.quiet hvalid hnot
      have hnone : packets_of id s.flying = [] :=
        pending.packets.resolve_right fun hp => hnot _ hp.choose_spec.2
      have hopen : (s.links id).requests.length = conv.told.length := by
        rw [htold, ← hall]
        exact pending.asked.symm
      -- the packets on their way, and that they are the answer
      obtain ⟨new, hnetwork, hpackets, hawake⟩ : ∃ new,
          s.network id conv = s.moved id { s.links id with conv := conv } new ∧
          (packets_of id (s.flying ++ new) = [] ∨ ∃ p, packets_of id (s.flying ++ new) = [p] ∧
            ClientConn.Complete { s.links id with conv := conv } p) ∧
          (conv.conn.calls.length = (s.links id).requests.length →
            packets_of id (s.flying ++ new) ≠ []) := by
        rcases hcalls with hsame | ⟨p, hmore, hlast, hlen⟩
        · refine ⟨[], network_eq [] (by rw [hsame, List.append_nil]), .inl ?_, ?_⟩
          · rw [List.append_nil]
            exact hnone
          · intro hlen
            rw [hsame, hopen, htold] at hlen
            omega
        · have hone : packets_of id (s.flying ++ [(id, some p)]) = [p] := by
            rw [packets_of_append, hnone, List.nil_append]
            simp [packets_of]
          refine ⟨[(id, some p)], network_eq [.packet_cb p] hmore,
            .inr ⟨p, hone, hopen.symm, hlen, by rw [htold]; exact hlast⟩, ?_⟩
          rw [hone]
          exact fun _ => List.cons_ne_nil _ _
      rw [hnetwork]
      exact .waiting ws call id phase number
        (pending.moved hlater hinv' hasked hquiet hpackets hawake)

/-- **`deliver`** -/
theorem Inv.deliver {i id : Nat} {resp : Option Response} (h : s.Inv)
    (hfree : ∀ ws call, s.phase ≠ .setup ws call) (hx : s.flying[i]? = some (id, resp)) :
    Inv ({ s with flying := s.flying.eraseIdx i }.notify_response id resp) := by
  have hmem : (id, resp) ∈ s.flying := List.mem_of_getElem? hx
  have hsafe : Safe { s with flying := s.flying.eraseIdx i } :=
    ⟨h.safe.created, h.safe.sent, fun x hx => h.safe.known x (List.mem_of_mem_eraseIdx hx),
      fun id hx => h.safe.down id (List.mem_of_mem_eraseIdx hx), h.safe.returned, h.safe.opened,
      h.safe.numbered⟩
  have hsafe' : ∀ r b, Safe { s with flying := s.flying.eraseIdx i, resp := r, notified := b } :=
    fun r b => ⟨hsafe.created, hsafe.sent, hsafe.known, hsafe.down, hsafe.returned, hsafe.opened,
      hsafe.numbered⟩
  have hnotify : ({ s with flying := s.flying.eraseIdx i } : Client).notify_response id resp =
        { s with flying := s.flying.eraseIdx i } ∨
      (({ s with flying := s.flying.eraseIdx i } : Client).notify_response id resp =
        { s with flying := s.flying.eraseIdx i, resp := resp, notified := true } ∧
        s.conn = some id) := by
    unfold notify_response
    split
    · next hen => exact .inr ⟨rfl, hen.2⟩
    · exact .inl rfl
  constructor
  case safe =>
    rcases hnotify with heq | ⟨heq, -⟩
    · rw [heq]
      exact hsafe
    · rw [heq]
      exact hsafe' _ _
  case turn =>
    obtain ⟨before, after, hpackets, herase⟩ := packets_of_eraseIdx id hx
    cases h.turn with
    | idle phase free =>
      have hfree' : ∀ id', s.conn = some id' → (s.links id').is_valid = true →
          (s.links id').Settled ∧ packets_of id' (s.flying.eraseIdx i) = [] ∧
            (s.links id').Aims s.last_uri := by
        intro id' hid' hvalid
        obtain ⟨hset, hnil, hlast⟩ := free id' hid' hvalid
        obtain ⟨before', after', hpackets', herase'⟩ := packets_of_eraseIdx id' hx
        rw [hpackets'] at hnil
        rw [List.append_eq_nil_iff, List.append_eq_nil_iff] at hnil
        refine ⟨hset, ?_, hlast⟩
        rw [herase', hnil.1.1, hnil.2]
        rfl
      rcases hnotify with heq | ⟨heq, -⟩
      · rw [heq]
        exact .idle phase hfree'
      · rw [heq]
        exact .idle phase hfree'
    | setup ws call id' phase number ready => exact absurd phase (hfree ws call)
    | waiting ws call id' phase number pending =>
      by_cases hid : id' = id
      case neg =>
        -- a callback of an old connection
        have hsame : packets_of id' (s.flying.eraseIdx i) = packets_of id' s.flying := by
          obtain ⟨before', after', hpackets', herase'⟩ := packets_of_eraseIdx id' hx
          have hother : packets_of id' [(id, resp)] = [] :=
            packets_of_others fun x hx => by
              cases List.mem_singleton.mp hx
              exact fun he => hid he.symm
          rw [hpackets', herase', hother, List.append_nil]
        rcases hnotify with heq | ⟨-, hconn⟩
        · rw [heq]
          exact .waiting ws call id' phase number
            (pending.congr pending.conn rfl rfl rfl hsame rfl rfl)
        · cases pending.conn.symm.trans hconn
          exact absurd rfl hid
      case pos =>
        subst hid
        have heq : ({ s with flying := s.flying.eraseIdx i } : Client).notify_response id' resp =
            { s with flying := s.flying.eraseIdx i, resp := resp, notified := true } := by
          unfold notify_response
          exact if_pos ⟨pending.waits, pending.conn⟩
        rw [heq]
        refine .waiting ws call id' phase number ?_
        -- an error has a connection that is down, a packet is the last one
        have hleft : (packets_of id' (s.flying.eraseIdx i) = [] ∨
              ∃ p, packets_of id' (s.flying.eraseIdx i) = [p] ∧ (s.links id').Complete p) ∧
            ∀ p, resp = some p →
              packets_of id' (s.flying.eraseIdx i) = [] ∧ (s.links id').Complete p := by
          cases resp with
          | none =>
            have hnil : packets_of id' [(id', none)] = [] := by simp [packets_of]
            rw [hnil, List.append_nil, ← herase] at hpackets
            rw [← hpackets]
            exact ⟨pending.packets, fun p hp => by cases hp⟩
          | some p =>
            have hone : packets_of id' [(id', some p)] = [p] := by simp [packets_of]
            rw [hone] at hpackets
            rcases pending.packets with hnil | ⟨p', hp', hcomplete⟩
            · rw [hnil] at hpackets
              simp at hpackets
            · rw [hp'] at hpackets
              obtain ⟨hbefore, hp, hafter⟩ : before = [] ∧ p' = p ∧ after = [] := by
                rcases before with _ | ⟨x, before⟩
                · simpa using hpackets
                · simp at hpackets
              rw [herase, hbefore, hafter]
              refine ⟨.inl rfl, fun q hq => ?_⟩
              cases hq
              rw [← hp]
              exact ⟨rfl, hcomplete⟩
        constructor
        case conn => exact pending.conn
        case tended => exact pending.tended
        case waits => exact pending.waits
        case last => exact pending.last
        case sent => exact pending.sent
        case asked => exact pending.asked
        case packets => exact hleft.1
        case answer => exact fun _ => hleft.2
        case error =>
          rintro - rfl
          exact h.safe.down id' hmem
        case awake => exact fun _ => .inr rfl

/-! ## Section 2: Runs -/

theorem network_step_some {id : Nat} {l : Conversation.Label}
    (hstep : s.network_step id l = some s') : id < s.created ∧ (s.links id).is_valid = true ∧
      ∃ conv, (s.links id).conv.step Response.kind ⟨0⟩ l = some conv ∧ s' = s.network id conv := by
  unfold network_step at hstep
  split at hstep
  · next hen =>
    obtain ⟨conv, hconv, rfl⟩ := Option.map_eq_some_iff.mp hstep
    exact ⟨hen.1, hen.2, conv, hconv, rfl⟩
  · cases hstep

theorem Inv.step (s : Client) (l : Label) (s' : Client) (h : s.Inv) (hok : Orderly s l)
    (hstep : step s l = some s') : s'.Inv := by
  cases l with
  | call ws u d =>
    simp only [Client.step] at hstep
    split at hstep
    case isFalse => cases hstep
    case isTrue hidle =>
    cases hstep
    cases h.turn with
    | idle phase free => exact .begin_call h.safe free
    | setup ws' call id phase => cases hidle.symm.trans phase
    | waiting ws' call id phase => cases hidle.symm.trans phase
  | send ok =>
    simp only [Client.step] at hstep
    cases h.turn with
    | idle phase free =>
      rw [phase] at hstep
      cases hstep
    | setup ws call id phase number ready =>
      rw [phase, ready.conn] at hstep
      simp only at hstep
      split at hstep
      · cases hstep
      · cases hstep
        exact .send h.safe number ready
    | waiting ws call id phase =>
      rw [phase] at hstep
      cases hstep
  | wake ws_key =>
    simp only [Client.step] at hstep
    cases h.turn with
    | idle phase free =>
      rw [phase] at hstep
      cases hstep
    | setup ws call id phase =>
      rw [phase] at hstep
      cases hstep
    | waiting ws call id phase number pending =>
      rw [phase, pending.conn] at hstep
      simp only at hstep
      split at hstep
      · next hnotified =>
        cases hstep
        exact .woken h.safe number pending hnotified
      · cases hstep
  | timeout =>
    simp only [Client.step] at hstep
    cases h.turn with
    | idle phase free =>
      rw [phase] at hstep
      cases hstep
    | setup ws call id phase =>
      rw [phase] at hstep
      cases hstep
    | waiting ws call id phase number pending =>
      rw [phase] at hstep
      cases hstep
      exact .timed_out h.safe number
  | close =>
    simp only [Client.step] at hstep
    split at hstep
    case isFalse => cases hstep
    case isTrue hidle =>
    cases hstep
    exact ⟨h.safe.destroy, .idle ((destroy_phase s).trans hidle) (free_of_no_conn (destroy_conn s))⟩
  | tell id b =>
    obtain ⟨hid, hvalid, conv, hconv, rfl⟩ := network_step_some hstep
    exact h.tell hok hid hvalid hconv
  | receive id n =>
    obtain ⟨hid, hvalid, conv, hconv, rfl⟩ := network_step_some hstep
    exact h.receive hok hid hvalid hconv
  | lose id =>
    simp only [Client.step] at hstep
    split at hstep
    case isFalse => cases hstep
    case isTrue hen =>
    cases hstep
    exact h.lose hen.1
  | fail id =>
    simp only [Client.step] at hstep
    split at hstep
    case isFalse => cases hstep
    case isTrue hen =>
    cases hstep
    exact h.fail hen.1 (Bool.eq_false_iff.mpr hen.2.1)
  | deliver i =>
    simp only [Client.step] at hstep
    split at hstep
    · cases hstep
    · next phase x id resp hx hsetup =>
      cases hstep
      exact h.deliver (fun ws call hphase => hsetup ws call hphase) hx
    · cases hstep

/-- **What the calls get.** -/
structure Served (s : Client) : Prop where
  numbered : ∀ (i : Nat) x, s.done[i]? = some x → x.1.number = i
  /-- A response answers the request of its own call, on a connection to where
      the uri says. -/
  returned : ∀ call p, (call, .response (some p)) ∈ s.done →
    ∃ id, (s.links id).Answered call p ∧ (s.links id).Aims call.uri
  /-- So does the response that an upgraded connection had. -/
  opened : ∀ call id, (call, .websocket (some id)) ∈ s.done → (s.links id).Aims call.uri ∧
    ∃ p, (s.links id).Answered call p ∧ handle_websocket_upgrade_response p = true
  /-- A wait whose answer has arrived is notified or will be. -/
  woken : ∀ ws call, s.phase = .waiting ws call → ∃ id, s.conn = some id ∧
    (s.links id).requests.getLast? = some call ∧
    ((s.links id).conv.told.length = (s.links id).requests.length →
      (s.links id).conv.arriving = [] → s.notified = true ∨ ∃ p, (id, some p) ∈ s.flying)

theorem mem_of_packets {id : Nat} {l : List (Nat × Option Response)} (h : packets_of id l ≠ []) :
    ∃ p, (id, some p) ∈ l := by
  obtain ⟨p, hp⟩ := List.exists_mem_of_ne_nil _ h
  obtain ⟨x, hx, hsome⟩ := List.mem_filterMap.mp hp
  split at hsome
  · next heq =>
    refine ⟨p, ?_⟩
    rw [← heq, ← hsome]
    exact hx
  · cases hsome

theorem Inv.served (h : s.Inv) : s.Served := by
  constructor
  case numbered => exact h.safe.numbered
  case returned =>
    intro call p hp
    obtain ⟨id, hid, hanswered⟩ := h.safe.returned call p hp
    exact ⟨id, hanswered, h.safe.sent id hid call hanswered.mem⟩
  case opened =>
    intro call id hp
    obtain ⟨hid, p, hanswered, hhandle⟩ := h.safe.opened call id hp
    exact ⟨h.safe.sent id hid call hanswered.mem, p, hanswered, hhandle⟩
  case woken =>
    intro ws call hphase
    cases h.turn with
    | idle phase free => cases hphase.symm.trans phase
    | setup ws' call' id phase => cases hphase.symm.trans phase
    | waiting ws' call' id phase number pending =>
      cases hphase.symm.trans phase
      refine ⟨id, pending.conn, pending.sent, fun hopen harriving => ?_⟩
      have hhanded := pending.tended.stage.complete_iff.mp harriving
      rcases pending.awake (hhanded.trans hopen) with hpackets | hnotified
      · exact .inr (mem_of_packets hpackets)
      · exact .inl hnotified

instance (s : Client) (l : Label) : Decidable (Orderly s l) := by
  cases l <;> unfold Orderly <;> infer_instance

/-- Dialing and sending succeed, no transport goes down and no time is up. -/
def Smooth (s : Client) (l : Label) : Prop :=
  Orderly s l ∧
    match l with
    | .call ws u d => supported ws u = true ∧ d = .ready
    | .send ok => ok = true
    | .timeout | .lose _ => False
    | _ => True

instance (s : Client) (l : Label) : Decidable (Smooth s l) := by
  cases l <;> unfold Smooth <;> infer_instance

/-- The calls so far got a response, and the one at work has a connection that
    is up. -/
structure Fine (s : Client) : Prop where
  inv : s.Inv
  up : s.phase ≠ .idle → ∀ id, s.conn = some id → (s.links id).is_valid = true
  done : ∀ x ∈ s.done, x.2 ≠ .response none

theorem listen_up {id : Nat} (hok : (s.listen id).1 = true) :
    (s.listen id).2.conn = s.conn ∧ ((s.listen id).2.links id).is_valid = true := by
  cases hread : (s.links id).async_read_http_packet.1 with
  | false =>
    unfold listen at hok
    simp only [hread] at hok
    cases hok
  | true =>
    have hlisten : s.listen id = (true, s.set_link id (s.links id).async_read_http_packet.2) := by
      unfold listen
      simp only [hread, if_true]
    rw [hlisten]
    refine ⟨rfl, ?_⟩
    simp only [set_link_same]
    exact ClientConn.async_read_http_packet_up hread

theorem connect_up (s : Client) (u : Uri) : (s.connect u .ready).1 = true ∧
    ∀ id, (s.connect u .ready).2.conn = some id →
      ((s.connect u .ready).2.links id).is_valid = true := by
  have hlink : (s.create u .ready).links s.created = new_link u .ready := Function.update_self ..
  have hok : ((s.create u .ready).listen s.created).1 = true := by
    unfold listen
    rw [hlink]
    rfl
  obtain ⟨hconn, hup⟩ := listen_up hok
  have hconnect : s.connect u .ready =
      (true, { ((s.create u .ready).listen s.created).2 with last_uri := u }) := by
    unfold connect
    exact if_pos hok
  rw [hconnect]
  refine ⟨rfl, fun id hid => ?_⟩
  have hid : ((s.create u .ready).listen s.created).2.conn = some id := hid
  rw [hconn] at hid
  cases hid
  exact hup

theorem async_read_http_response_up (s : Client) (u : Uri) :
    (s.async_read_http_response u .ready).1 = true ∧
    ∀ id, (s.async_read_http_response u .ready).2.conn = some id →
      ((s.async_read_http_response u .ready).2.links id).is_valid = true := by
  unfold async_read_http_response
  simp only
  generalize (if u.host ≠ s.last_uri.host ∨ u.tp ≠ s.last_uri.tp then s.destroy_connection
    else s) = t
  split
  · next hreuse =>
    refine ⟨hreuse, ?_⟩
    unfold reuse at hreuse ⊢
    split at hreuse
    · cases hreuse
    · next id hid =>
      split at hreuse
      · next hvalid =>
        obtain ⟨hconn, hup⟩ := listen_up hreuse
        intro id' hid'
        rw [if_pos hvalid] at hid' ⊢
        rw [hconn, hid] at hid'
        cases hid'
        exact hup
      · cases hreuse
  · exact connect_up _ u

theorem network_up {id id' : Nat} {conv : Conversation ResponseFields}
    (h : (s.links id').is_valid = true) (hconv : id' = id → conv.conn.transp.started = true) :
    ((s.network id conv).links id').is_valid = true := by
  by_cases he : id' = id
  · subst he
    show ((s.set_link id' _).links id').is_valid = true
    rw [set_link_same]
    exact hconv rfl
  · show ((s.set_link id _).links id').is_valid = true
    rw [set_link_ne s _ he]
    exact h

/-- A wait that is over leaves one outcome. -/
theorem woken_done (s : Client) (ws : Bool) (call : ClientCall) (id : Nat) (ws_key : Bytes) :
    (s.woken ws call id ws_key).phase = .idle ∧
      ∃ o, (s.woken ws call id ws_key).done = s.done ++ [(call, o)] ∧
        (o = .response none → s.resp = none) := by
  unfold woken
  cases ws with
  | true =>
    refine ⟨?_, ?_⟩
    · unfold upgrade
      simp only [if_true]
      split
      · rfl
      split
      · rfl
      · rfl
    · unfold upgrade
      simp only [if_true]
      split
      · exact ⟨.websocket none, congrArg (· ++ _) (destroy_done _), fun ho => by cases ho⟩
      split
      · exact ⟨.websocket (some id), rfl, fun ho => by cases ho⟩
      · exact ⟨.websocket none, congrArg (· ++ _) (destroy_done _), fun ho => by cases ho⟩
  | false => exact ⟨rfl, .response s.resp, rfl, fun ho => Outcome.response.inj ho⟩

theorem Fine.step (s : Client) (l : Label) (s' : Client) (h : s.Fine) (hok : Smooth s l)
    (hstep : step s l = some s') : s'.Fine := by
  have hinv' := Inv.step s l s' h.inv hok.1 hstep
  obtain ⟨horderly, hsmooth⟩ := hok
  suffices hleft : (s'.phase ≠ .idle → ∀ id, s'.conn = some id → (s'.links id).is_valid = true) ∧
      ∀ x ∈ s'.done, x.2 ≠ .response none from ⟨hinv', hleft.1, hleft.2⟩
  cases l with
  | call ws u d =>
    obtain ⟨hsupported, rfl⟩ := hsmooth
    simp only [Client.step] at hstep
    split at hstep
    case isFalse => cases hstep
    case isTrue hidle =>
    cases hstep
    obtain ⟨hok, hup⟩ := async_read_http_response_up s u
    have hdone : (s.async_read_http_response u .ready).2.done = s.done := by
      cases h.inv.turn with
      | idle phase free => exact (async_read_http_response_heard u .ready h.inv.safe free).done
      | setup ws' call id phase => cases hidle.symm.trans phase
      | waiting ws' call id phase => cases hidle.symm.trans phase
    have hbegin : s.begin_call ws u .ready =
        { (s.async_read_http_response u .ready).2 with
          phase := .setup ws ⟨s.done.length, u⟩ } := by
      unfold Client.begin_call
      simp only [hsupported, hok, Bool.not_true, Bool.false_eq_true, if_false, if_true]
    rw [hbegin]
    refine ⟨fun _ id hid => hup id hid, fun x hx => h.done x ?_⟩
    rw [← hdone]
    exact hx
  | send ok =>
    cases hsmooth
    simp only [Client.step] at hstep
    split at hstep
    · next ws call id hphase hconn =>
      split at hstep
      · cases hstep
      · cases hstep
        refine ⟨fun _ id' hid' => ?_, h.done⟩
        cases hconn.symm.trans hid'
        show ((s.set_link id _).links id).is_valid = true
        rw [set_link_same]
        exact h.up (by rw [hphase]; exact ClientPhase.noConfusion) id hconn
    · cases hstep
  | wake ws_key =>
    simp only [Client.step] at hstep
    split at hstep
    · next ws call id hphase hconn =>
      split at hstep
      · next hnotified =>
        cases hstep
        obtain ⟨hphase', o, hdone', ho⟩ := woken_done s ws call id ws_key
        refine ⟨fun hne => absurd hphase' hne, fun x hx => ?_⟩
        rw [hdone'] at hx
        rcases List.mem_append.mp hx with hold | hx
        · exact h.done x hold
        · cases List.mem_singleton.mp hx
          intro hnone
          have hresp := ho hnone
          cases h.inv.turn with
          | idle phase free => cases hphase.symm.trans phase
          | setup ws' call' id' phase => cases hphase.symm.trans phase
          | waiting ws' call' id' phase number pending =>
            cases hconn.symm.trans pending.conn
            have hvalid := h.up (by rw [hphase]; exact ClientPhase.noConfusion) id hconn
            cases hvalid.symm.trans (pending.error hnotified hresp)
      · cases hstep
    · cases hstep
  | timeout => exact hsmooth.elim
  | close =>
    simp only [Client.step] at hstep
    split at hstep
    case isFalse => cases hstep
    case isTrue hidle =>
    cases hstep
    rw [destroy_phase, destroy_done]
    exact ⟨fun hne => absurd hidle hne, h.done⟩
  | tell id b =>
    obtain ⟨hid, hvalid, conv, hconv, rfl⟩ := network_step_some hstep
    refine ⟨fun hne id' hid' => network_up (h.up hne id' hid') ?_, h.done⟩
    rintro -
    rw [(Conversation.step_tell hconv).1]
    exact hvalid
  | receive id n =>
    obtain ⟨hid, hvalid, conv, hconv, rfl⟩ := network_step_some hstep
    refine ⟨fun hne id' hid' => network_up (h.up hne id' hid') ?_, h.done⟩
    rintro rfl
    have htended : (s.links id').Tended := by
      have hconn : s.conn = some id' := hid'
      cases h.inv.turn with
      | idle phase free => exact (free id' hconn hvalid).1.tended
      | setup ws call id phase number ready =>
        cases hconn.symm.trans ready.conn
        exact ready.listening.tended
      | waiting ws call id phase number pending =>
        cases hconn.symm.trans pending.conn
        exact pending.tended
    exact ((htended.inv hvalid).receive horderly hconv).started
  | lose id => exact hsmooth.elim
  | fail id =>
    simp only [Client.step] at hstep
    split at hstep
    case isFalse => cases hstep
    case isTrue hen =>
    cases hstep
    refine ⟨fun hne id' hid' => ?_, h.done⟩
    have hvalid := h.up hne id' hid'
    have he : id' ≠ id := by
      rintro rfl
      exact hen.2.1 hvalid
    show ((s.set_link id _).links id').is_valid = true
    rw [set_link_ne s _ he]
    exact hvalid
  | deliver i =>
    simp only [Client.step] at hstep
    split at hstep
    · cases hstep
    · cases hstep
      unfold notify_response
      split
      · exact ⟨h.up, h.done⟩
      · exact ⟨h.up, h.done⟩
    · cases hstep

end Client

end Pump
