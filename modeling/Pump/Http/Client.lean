import Pump.Http.Conversation
import Pump.Http.Upgrade

/-! # client

    `proto/http/client.cpp`: requests and websocket upgrades of one thread,
    while its connections answer, go down and call back.

    A call holds `resp_mx_` but for its wait, and a callback of a connection
    takes it: `on_response` and `on_error` come through between two calls and
    during a wait. The wait ends when it is notified or with its time; it
    does not wake up by itself. -/

namespace Pump

open ConnectionState

/-! ## Section 1: Model -/

namespace Uri

def uri_https : Bytes := ascii "https"

def uri_ws : Bytes := ascii "ws"

def uri_wss : Bytes := ascii "wss"

/-- The separator `[:]`. -/
def port_sep : Separator := ⟨fun c => c = 58, false⟩

/-- `to_address`: host and port, with the port cut to 16 bits. -/
def to_address (u : Uri) : Option (Bytes × UInt16) :=
  match split_string u.host port_sep with
  | [] => none
  | [host] => some (host, if u.tp = uri_https ∨ u.tp = uri_wss then 443 else 80)
  | host :: port :: _ => some (host, UInt16.ofInt (atol port))

/-- Whether the client dials with `sync_tls_dialer`. -/
def secure (u : Uri) : Bool := decide (u.tp = uri_wss ∨ u.tp = uri_https)

end Uri

/-- A call of the client and the uri it is for. -/
structure ClientCall where
  number : Nat
  uri : Uri
  deriving DecidableEq

/-- A connection that the client made: what it dialed, and the requests it has
    sent on it. -/
structure ClientConn where
  address : Option (Bytes × UInt16)
  tls : Bool
  conv : Conversation ResponseFields
  requests : List ClientCall
  deriving DecidableEq

namespace ClientConn

def is_valid (k : ClientConn) : Bool := k.conv.conn.transp.started

def stop (k : ClientConn) : ClientConn :=
  { k with conv := { k.conv with conn := k.conv.conn.stop } }

def async_read_http_packet (k : ClientConn) : Bool × ClientConn :=
  let r := k.conv.conn.async_read_http_packet ⟨0⟩
  (r.1, { k with conv := { k.conv with
    conn := r.2
    asked := if r.1 then k.conv.asked + 1 else k.conv.asked } })

end ClientConn

/-- How dialing and `start_http` go: there is no transport, it does not
    start, it goes down at once, or it stays. -/
inductive Dialing where
  | refused
  | unstarted
  | lost
  | ready
  deriving DecidableEq

inductive ClientPhase where
  | idle
  /-- Behind `__async_read_http_response`, with the mutex. -/
  | setup (ws : Bool) (call : ClientCall)
  /-- In `wait_for`. -/
  | waiting (ws : Bool) (call : ClientCall)
  deriving DecidableEq

/-- What `do_request` or `open_websocket` returns; a connection is known by
    its number. -/
inductive Outcome where
  | response (resp : Option Response)
  | websocket (conn : Option Nat)
  deriving DecidableEq

/-- `http::client`. `links` are all connections that it made, `created` of
    them; `flying` are the callbacks that wait for the mutex. -/
structure Client where
  conn : Option Nat
  last_uri : Uri
  wait_for_response : Bool
  resp : Option Response
  notified : Bool
  phase : ClientPhase
  links : Nat → ClientConn
  created : Nat
  flying : List (Nat × Option Response)
  done : List (ClientCall × Outcome)

namespace Client

/-- The links that do not exist are down. -/
def construct : Client :=
  { conn := none
    last_uri := Uri.construct
    wait_for_response := false
    resp := none
    notified := false
    phase := .idle
    links := fun _ => (⟨none, false, Conversation.opened [], []⟩ : ClientConn).stop
    created := 0
    flying := []
    done := [] }

def set_link (s : Client) (id : Nat) (k : ClientConn) : Client :=
  { s with links := Function.update s.links id k }

/-- `__destroy_connection`. -/
def destroy_connection (s : Client) : Client :=
  match s.conn with
  | none => s
  | some id => { s.set_link id (s.links id).stop with conn := none }

/-- `conn_->__async_read_http_packet()` and what follows when it fails. -/
def listen (s : Client) (id : Nat) : Bool × Client :=
  let r := (s.links id).async_read_http_packet
  if r.1 then (true, s.set_link id r.2)
  else (false, { s.set_link id r.2.stop with conn := none })

/-- The connection over a transport for `u`, behind `start_http`. -/
def new_link (u : Uri) (d : Dialing) : ClientConn :=
  let k : ClientConn := ⟨u.to_address, u.secure, Conversation.opened [], []⟩
  match d with
  | .ready => k
  | .lost => k.stop
  | _ =>
    let k := k.stop
    { k with conv := { k.conv with conn := { k.conv.conn with state := state_error } } }

def create (s : Client) (u : Uri) (d : Dialing) : Client :=
  { s with
    conn := some s.created
    links := Function.update s.links s.created (new_link u d)
    created := s.created + 1 }

/-- The part of `__async_read_http_response` that makes a new connection. -/
def connect (s : Client) (u : Uri) (d : Dialing) : Bool × Client :=
  match d with
  | .refused => (false, s)
  | .unstarted => (false, s.create u .unstarted)
  | d =>
    let r := (s.create u d).listen s.created
    if r.1 then (true, { r.2 with last_uri := u }) else r

/-- `if (conn_ && conn_->is_valid())` of `__async_read_http_response`. -/
def reuse (s : Client) : Bool × Client :=
  match s.conn with
  | none => (false, s)
  | some id => if (s.links id).is_valid then s.listen id else (false, s)

/-- `__async_read_http_response`. -/
def async_read_http_response (s : Client) (u : Uri) (d : Dialing) : Bool × Client :=
  let s := if u.host ≠ s.last_uri.host ∨ u.tp ≠ s.last_uri.tp then s.destroy_connection else s
  let r := s.reuse
  if r.1 then r else r.2.connect u d

/-- `__notify_response`. -/
def notify_response (s : Client) (id : Nat) (resp : Option Response) : Client :=
  if s.wait_for_response ∧ s.conn = some id then { s with resp := resp, notified := true } else s

/-- A call that gets nothing. -/
def nothing (ws : Bool) : Outcome := if ws then .websocket none else .response none

def finish (s : Client) (call : ClientCall) (o : Outcome) : Client :=
  { s with phase := .idle, done := s.done ++ [(call, o)] }

/-- The types that `do_request` and `open_websocket` take. -/
def supported (ws : Bool) (u : Uri) : Bool :=
  if ws then u.tp = Uri.uri_ws || u.tp = Uri.uri_wss
  else u.tp = Uri.uri_http || u.tp = Uri.uri_https

/-- `do_request` or `open_websocket` up to the send. -/
def begin_call (s : Client) (ws : Bool) (u : Uri) (d : Dialing) : Client :=
  let call : ClientCall := ⟨s.done.length, u⟩
  if !supported ws u then s.finish call (nothing ws)
  else
    let r := s.async_read_http_response u d
    if r.1 then { r.2 with phase := .setup ws call } else r.2.finish call (nothing ws)

/-- The send of the request; with it, the wait begins. -/
def send (s : Client) (ws : Bool) (call : ClientCall) (id : Nat) (ok : Bool) : Client :=
  if ok then
    { s.set_link id { s.links id with requests := (s.links id).requests ++ [call] } with
      wait_for_response := true
      notified := false
      phase := .waiting ws call }
  else s.finish call (nothing ws)

/-- The end of `open_websocket` behind the wait. -/
def upgrade (s : Client) (call : ClientCall) (id : Nat) (ws_key : Bytes) : Client :=
  match s.resp with
  | none => s.destroy_connection.finish call (.websocket none)
  | some rsp =>
    if handle_websocket_upgrade_response rsp then
      let k := s.links id
      { s.set_link id { k with conv := { k.conv with conn := { k.conv.conn with ws_key := ws_key } } }
        with conn := none }.finish call (.websocket (some id))
    else s.destroy_connection.finish call (.websocket none)

/-- Behind `wait_for` without a timeout. -/
def woken (s : Client) (ws : Bool) (call : ClientCall) (id : Nat) (ws_key : Bytes) : Client :=
  let s := { s with wait_for_response := false }
  if ws then s.upgrade call id ws_key
  else { s with resp := none }.finish call (.response s.resp)

/-- Behind `wait_for` with a timeout. -/
def timed_out (s : Client) (ws : Bool) (call : ClientCall) : Client :=
  let s := s.destroy_connection
  if ws then s.finish call (.websocket none)
  else { s with wait_for_response := false }.finish call (.response none)

inductive Label where
  | call (ws : Bool) (u : Uri) (d : Dialing)
  | send (ok : Bool)
  | wake (ws_key : Bytes)
  | timeout
  | close
  /-- The peer of a connection sends a message. -/
  | tell (id : Nat) (b : Bytes)
  /-- The transport of a connection reads bytes. -/
  | receive (id n : Nat)
  /-- The transport of a connection goes down. -/
  | lose (id : Nat)
  /-- `on_disconnected` or `on_stopped` of a connection. -/
  | fail (id : Nat)
  /-- A callback gets the mutex. -/
  | deliver (i : Nat)

/-- The packets that are handed over are on their way to `on_response`. -/
def callbacks (id : Nat) (calls : List (Call ResponseFields)) : List (Nat × Option Response) :=
  calls.filterMap fun
    | .packet_cb p => some (id, some p)
    | .frame_cb _ _ => none

/-- What a step over the network makes of a connection. -/
def network (s : Client) (id : Nat) (conv : Conversation ResponseFields) : Client :=
  let k := s.links id
  { s.set_link id { k with conv := conv } with
    flying := s.flying ++ callbacks id (conv.conn.calls.drop k.conv.conn.calls.length) }

/-- A transport reads while it is started. -/
def network_step (s : Client) (id : Nat) (l : Conversation.Label) : Option Client :=
  if id < s.created ∧ (s.links id).is_valid then
    ((s.links id).conv.step Response.kind ⟨0⟩ l).map (s.network id)
  else none

def step (s : Client) : Label → Option Client
  | .call ws u d => if s.phase = .idle then some (s.begin_call ws u d) else none
  | .send ok =>
    match s.phase, s.conn with
    | .setup ws call, some id =>
      if ok && !(s.links id).is_valid then none else some (s.send ws call id ok)
    | _, _ => none
  | .wake ws_key =>
    match s.phase, s.conn with
    | .waiting ws call, some id => if s.notified then some (s.woken ws call id ws_key) else none
    | _, _ => none
  | .timeout =>
    match s.phase with
    | .waiting ws call => some (s.timed_out ws call)
    | _ => none
  | .close => if s.phase = .idle then some s.destroy_connection else none
  | .tell id b => s.network_step id (.tell b)
  | .receive id n => s.network_step id (.receive n)
  | .lose id =>
    if id < s.created ∧ (s.links id).is_valid then some (s.set_link id (s.links id).stop) else none
  | .fail id =>
    let k := s.links id
    if id < s.created ∧ ¬k.is_valid ∧ k.conv.conn.state = state_started then
      some { s.set_link id { k with conv := { k.conv with conn := { k.conv.conn with
          state := state_error } } } with flying := s.flying ++ [(id, none)] }
    else none
  | .deliver i =>
    match s.phase, s.flying[i]? with
    | .setup _ _, _ => none
    | _, some (id, resp) => some ({ s with flying := s.flying.eraseIdx i }.notify_response id resp)
    | _, none => none

/-- A condition on the runs: the peer answers a request that was sent with a
    whole message, and sizes fit. -/
def Orderly (s : Client) : Label → Prop
  | .tell id b => (s.links id).conv.told.length < (s.links id).requests.length ∧
      ∃ p, Packet.Whole Response.kind ⟨0⟩ b p
  | .receive id n => (s.links id).conv.conn.Sized ((s.links id).conv.arriving.take n)
  | _ => True

end Client

/-! ## Section 2: Connections -/

/-- Host and type decide where a connection goes. -/
theorem Uri.to_address_congr {u v : Uri} (hhost : u.host = v.host) (htp : u.tp = v.tp) :
    u.to_address = v.to_address ∧ u.secure = v.secure := by
  unfold to_address secure
  rw [hhost, htp]
  exact ⟨rfl, rfl⟩

namespace ClientConn

/-- The connection goes where the uri says. -/
structure Aims (k : ClientConn) (u : Uri) : Prop where
  address : k.address = u.to_address
  tls : k.tls = u.secure

theorem Aims.congr {k : ClientConn} {u v : Uri} (h : k.Aims u) (hhost : v.host = u.host)
    (htp : v.tp = u.tp) : k.Aims v := by
  obtain ⟨haddress, hsecure⟩ := Uri.to_address_congr hhost htp
  exact ⟨h.address.trans haddress.symm, h.tls.trans hsecure.symm⟩

/-- The peer answered the request of the call with `p`. -/
def Answered (k : ClientConn) (call : ClientCall) (p : Response) : Prop :=
  ∃ i : Nat, k.requests[i]? = some call ∧ k.conv.told[i]? = some p

/-- A connection later on. -/
structure Later (k k' : ClientConn) : Prop where
  address : k'.address = k.address
  tls : k'.tls = k.tls
  requests : k.requests <+: k'.requests
  told : k.conv.told <+: k'.conv.told
  valid : k'.is_valid = true → k.is_valid = true

theorem Later.refl (k : ClientConn) : k.Later k :=
  ⟨rfl, rfl, List.prefix_refl _, List.prefix_refl _, fun h => h⟩

theorem Later.trans {k k' k'' : ClientConn} (h : k.Later k') (h' : k'.Later k'') : k.Later k'' :=
  ⟨h'.address.trans h.address, h'.tls.trans h.tls, h.requests.trans h'.requests,
    h.told.trans h'.told, fun hvalid => h.valid (h'.valid hvalid)⟩

theorem Later.aims {k k' : ClientConn} {u : Uri} (h : k.Later k') (haims : k.Aims u) :
    k'.Aims u :=
  ⟨h.address.trans haims.address, h.tls.trans haims.tls⟩

theorem getElem?_of_prefix {β : Type} {l l' : List β} {i : Nat} {x : β} (h : l <+: l')
    (hx : l[i]? = some x) : l'[i]? = some x := by
  obtain ⟨hi, rfl⟩ := List.getElem?_eq_some_iff.mp hx
  exact List.prefix_iff_getElem?.mp h i hi

theorem Later.answered {k k' : ClientConn} {call : ClientCall} {p : Response} (h : k.Later k')
    (hp : k.Answered call p) : k'.Answered call p := by
  obtain ⟨i, hcall, htold⟩ := hp
  exact ⟨i, getElem?_of_prefix h.requests hcall, getElem?_of_prefix h.told htold⟩

theorem Answered.mem {k : ClientConn} {call : ClientCall} {p : Response}
    (h : k.Answered call p) : call ∈ k.requests := by
  obtain ⟨i, hcall, -⟩ := h
  exact List.mem_of_getElem? hcall

/-- What is sent last is answered last. -/
theorem answered_last {k : ClientConn} {call : ClientCall} {p : Response}
    (hlen : k.conv.told.length = k.requests.length) (hcall : k.requests.getLast? = some call)
    (hp : k.conv.told.getLast? = some p) : k.Answered call p := by
  rw [List.getLast?_eq_getElem?] at hcall hp
  rw [hlen] at hp
  exact ⟨_, hcall, hp⟩

/-- The messages are on their way as they should be, also when the transport
    went down. -/
structure Tended (k : ClientConn) : Prop where
  stage : Conversation.Stage Response.kind ⟨0⟩ k.conv
  inv : k.is_valid = true → Conversation.Inv Response.kind ⟨0⟩ k.conv

/-- No request is open. -/
structure Settled (k : ClientConn) : Prop where
  tended : k.Tended
  answered : k.conv.told.length = k.requests.length
  still : k.conv.arriving = []

/-- The next packet is asked for and its request is not sent. -/
structure Listening (k : ClientConn) : Prop where
  tended : k.Tended
  answered : k.conv.told.length = k.requests.length
  still : k.conv.arriving = []
  asked : k.conv.asked = k.conv.told.length + 1

/-- The last answer was handed over. -/
structure Complete (k : ClientConn) (p : Response) : Prop where
  answered : k.conv.told.length = k.requests.length
  handed : k.conv.conn.calls.length = k.conv.told.length
  last : k.conv.told.getLast? = some p

theorem Tended.stop {k : ClientConn} (h : k.Tended) : k.stop.Tended :=
  ⟨h.stage.of_conn rfl rfl rfl rfl, fun hvalid => by cases hvalid⟩

theorem later_stop (k : ClientConn) : k.Later k.stop :=
  ⟨rfl, rfl, List.prefix_refl _, List.prefix_refl _, fun h => by cases h⟩

theorem opened_settled (u : Uri) : (Client.new_link u .ready).Settled :=
  ⟨⟨(Conversation.inv_opened []).stage, fun _ => Conversation.inv_opened []⟩, rfl, rfl⟩

/-- A transport that is down reads nothing. -/
theorem async_read_http_packet_down {k : ClientConn} (h : k.is_valid = false) :
    k.async_read_http_packet.1 = false := by
  have hstarted : k.conv.conn.transp.started = false := h
  unfold async_read_http_packet Connection.async_read_http_packet
  simp only
  split
  · rfl
  split
  · rfl
  · simp [Connection.async_read, Transport.async_read, hstarted]

theorem async_read_http_packet_up {k : ClientConn} (h : k.async_read_http_packet.1 = true) :
    k.async_read_http_packet.2.is_valid = true := by
  unfold async_read_http_packet Connection.async_read_http_packet is_valid at *
  simp only at h ⊢
  split at h
  · cases h
  split at h
  · cases h
  · next hstate hparsing =>
    rw [if_neg hstate, if_neg hparsing]
    simp only [Connection.async_read, Transport.async_read] at h ⊢
    split at h
    · cases h
    split at h
    · cases h
    · next hstarted hpending =>
      rw [if_neg hstarted, if_neg hpending]
      simpa using hstarted

theorem async_read_http_packet_later (k : ClientConn) : k.Later k.async_read_http_packet.2 := by
  refine ⟨rfl, rfl, List.prefix_refl _, List.prefix_refl _, ?_⟩
  intro h
  by_contra hdown
  have hstarted : k.conv.conn.transp.started = false := Bool.eq_false_iff.mpr hdown
  unfold async_read_http_packet Connection.async_read_http_packet is_valid at h
  simp only at h
  split at h
  · rw [hstarted] at h
    cases h
  split at h
  · rw [hstarted] at h
    cases h
  · simp [Connection.async_read, Transport.async_read, hstarted] at h

theorem async_read_http_packet_tended {k : ClientConn} (h : k.Settled)
    (hok : k.async_read_http_packet.1 = true) : k.async_read_http_packet.2.Listening := by
  have hvalid : k.is_valid = true := by
    by_contra hdown
    rw [async_read_http_packet_down (Bool.eq_false_iff.mpr hdown)] at hok
    cases hok
  have hinv := h.tended.inv hvalid
  have hask : Conversation.step Response.kind ⟨0⟩ k.conv .ask =
      some k.async_read_http_packet.2.conv := by
    have hok' : (k.conv.conn.async_read_http_packet ⟨0⟩).1 = true := hok
    simp [Conversation.step, async_read_http_packet, hok']
  have hinv' := hinv.ask hask
  refine ⟨⟨hinv'.stage, fun _ => hinv'⟩, h.answered, h.still, ?_⟩
  have hasked : k.async_read_http_packet.2.conv.asked = k.conv.asked + 1 := by
    have hok' : (k.conv.conn.async_read_http_packet ⟨0⟩).1 = true := hok
    simp [async_read_http_packet, hok']
  rw [hasked]
  cases hinv.stage with
  | rest asked calls arriving pending free packet => exact congrArg (· + 1) asked
  | waiting asked calls arriving pending armed packet =>
    have hno := Conversation.ask_refused ⟨0⟩ packet (by simp [Packet.construct])
    exact absurd (hok.symm.trans hno) (by decide)
  | coming before p final told asked calls arriving armed packet finished expects =>
    have hno := Conversation.ask_refused ⟨0⟩ packet expects.unfinished
    exact absurd (hok.symm.trans hno) (by decide)

theorem Listening.settled {k : ClientConn} (h : k.Listening) : k.Settled :=
  ⟨h.tended, h.answered, h.still⟩

theorem Complete.settled {k : ClientConn} {p : Response} (h : k.Complete p) (htended : k.Tended) :
    k.Settled :=
  ⟨htended, h.answered, htended.stage.complete_iff.mpr h.handed⟩

/-- A connection without an open request has nothing to hand over. -/
theorem Settled.no_receive {k : ClientConn} {n : Nat}
    {conv : Conversation ResponseFields} (h : k.Settled) (hvalid : k.is_valid = true)
    (hsized : k.conv.conn.Sized (k.conv.arriving.take n))
    (hstep : k.conv.step Response.kind ⟨0⟩ (.receive n) = some conv) : False := by
  obtain ⟨-, hlt, -⟩ := (h.tended.inv hvalid).receive_calls hsized hstep
  have hall := h.tended.stage.complete_iff.mp h.still
  omega

end ClientConn

/-! ## Section 3: The invariant -/

namespace Client

/-- The packets of a connection on their way to `on_response`. -/
def packets_of (id : Nat) (flying : List (Nat × Option Response)) : List Response :=
  flying.filterMap fun x => if x.1 = id then x.2 else none

theorem packets_of_append (id : Nat) (l l' : List (Nat × Option Response)) :
    packets_of id (l ++ l') = packets_of id l ++ packets_of id l' := List.filterMap_append

theorem packets_of_others {id : Nat} {l : List (Nat × Option Response)} (h : ∀ x ∈ l, x.1 ≠ id) :
    packets_of id l = [] := by
  unfold packets_of
  rw [List.filterMap_eq_nil_iff]
  intro x hx
  rw [if_neg (h x hx)]

/-- What the delivery of a callback takes from the packets. -/
theorem packets_of_eraseIdx (id : Nat) {i : Nat} {l : List (Nat × Option Response)}
    {x : Nat × Option Response} (hx : l[i]? = some x) :
    ∃ before after, packets_of id l = before ++ packets_of id [x] ++ after ∧
      packets_of id (l.eraseIdx i) = before ++ after := by
  obtain ⟨hi, rfl⟩ := List.getElem?_eq_some_iff.mp hx
  refine ⟨packets_of id (l.take i), packets_of id (l.drop (i + 1)), ?_, ?_⟩
  · rw [← packets_of_append, ← packets_of_append, List.append_assoc, List.singleton_append,
      List.cons_getElem_drop_succ, List.take_append_drop]
  · rw [← packets_of_append, ← List.eraseIdx_eq_take_drop_succ]

/-- What holds at any time. -/
structure Safe (s : Client) : Prop where
  created : ∀ id, s.conn = some id → id < s.created
  sent : ∀ id < s.created, ∀ call ∈ (s.links id).requests, (s.links id).Aims call.uri
  known : ∀ x ∈ s.flying, x.1 < s.created
  down : ∀ id, (id, none) ∈ s.flying → (s.links id).is_valid = false
  returned : ∀ call p, (call, .response (some p)) ∈ s.done →
    ∃ id < s.created, (s.links id).Answered call p
  opened : ∀ call id, (call, .websocket (some id)) ∈ s.done → id < s.created ∧
    ∃ p, (s.links id).Answered call p ∧ handle_websocket_upgrade_response p = true
  numbered : ∀ (i : Nat) x, s.done[i]? = some x → x.1.number = i

/-- A connection that is kept between two calls can be used again. -/
def Free (s : Client) : Prop :=
  ∀ id, s.conn = some id → (s.links id).is_valid = true →
    (s.links id).Settled ∧ packets_of id s.flying = [] ∧ (s.links id).Aims s.last_uri

/-- Behind `__async_read_http_response`. -/
structure Ready (s : Client) (id : Nat) (u : Uri) : Prop where
  conn : s.conn = some id
  listening : (s.links id).Listening
  packets : packets_of id s.flying = []
  last : (s.links id).Aims s.last_uri
  aims : (s.links id).Aims u

/-- During a wait. -/
structure Pending (s : Client) (call : ClientCall) (id : Nat) : Prop where
  conn : s.conn = some id
  tended : (s.links id).Tended
  waits : s.wait_for_response = true
  last : (s.links id).Aims s.last_uri
  sent : (s.links id).requests.getLast? = some call
  asked : (s.links id).conv.asked = (s.links id).requests.length
  packets : packets_of id s.flying = [] ∨
    ∃ p, packets_of id s.flying = [p] ∧ (s.links id).Complete p
  answer : s.notified = true → ∀ p, s.resp = some p →
    packets_of id s.flying = [] ∧ (s.links id).Complete p
  error : s.notified = true → s.resp = none → (s.links id).is_valid = false
  awake : (s.links id).conv.conn.calls.length = (s.links id).requests.length →
    packets_of id s.flying ≠ [] ∨ s.notified = true

inductive Turn (s : Client) : Prop
  | idle (phase : s.phase = .idle) (free : s.Free)
  | setup (ws : Bool) (call : ClientCall) (id : Nat) (phase : s.phase = .setup ws call)
      (number : call.number = s.done.length) (ready : s.Ready id call.uri)
  | waiting (ws : Bool) (call : ClientCall) (id : Nat) (phase : s.phase = .waiting ws call)
      (number : call.number = s.done.length) (pending : s.Pending call id)

structure Inv (s : Client) : Prop where
  safe : s.Safe
  turn : s.Turn

variable {s s' : Client}

@[simp] theorem set_link_same (s : Client) (id : Nat) (k : ClientConn) :
    (s.set_link id k).links id = k := Function.update_self ..

theorem set_link_ne {id id' : Nat} (s : Client) (k : ClientConn) (h : id' ≠ id) :
    (s.set_link id k).links id' = s.links id' := Function.update_of_ne h ..

/-- **A connection moves on**, with callbacks that it has made. -/
theorem Safe.update {id : Nat} {k : ClientConn} {new : List (Nat × Option Response)} (h : s.Safe)
    (hid : id < s.created) (hlater : (s.links id).Later k)
    (hsent : ∀ call ∈ k.requests, call ∈ (s.links id).requests ∨ k.Aims call.uri)
    (hnew : ∀ x ∈ new, x.1 = id ∧ (x.2 = none → k.is_valid = false)) :
    Safe { s.set_link id k with flying := s.flying ++ new } := by
  have hlinks : ∀ id', (s.links id').Later ((s.set_link id k).links id') := by
    intro id'
    by_cases he : id' = id
    · rw [he, set_link_same]
      exact hlater
    · rw [set_link_ne s k he]
      exact ClientConn.Later.refl _
  constructor
  case created => exact h.created
  case sent =>
    intro id' hid' call hcall
    by_cases he : id' = id
    · subst he
      simp only [set_link_same] at hcall ⊢
      rcases hsent call hcall with hold | haims
      · exact hlater.aims (h.sent id' hid' call hold)
      · exact haims
    · simp only [set_link_ne s k he] at hcall ⊢
      exact h.sent id' hid' call hcall
  case known =>
    intro x hx
    rcases List.mem_append.mp hx with hold | hx
    · exact h.known x hold
    · rw [(hnew x hx).1]
      exact hid
  case down =>
    intro id' hx
    rcases List.mem_append.mp hx with hold | hx
    · by_contra hvalid
      have hback := (hlinks id').valid (Bool.not_eq_false _ ▸ hvalid)
      rw [h.down id' hold] at hback
      cases hback
    · obtain ⟨rfl, hdown⟩ := hnew _ hx
      simp only [set_link_same]
      exact hdown rfl
  case returned =>
    intro call p hp
    obtain ⟨id', hid', hanswered⟩ := h.returned call p hp
    exact ⟨id', hid', (hlinks id').answered hanswered⟩
  case opened =>
    intro call id' hp
    obtain ⟨hid', p, hanswered, hhandle⟩ := h.opened call id' hp
    exact ⟨hid', p, (hlinks id').answered hanswered, hhandle⟩
  case numbered => exact h.numbered

theorem Safe.set_link {id : Nat} {k : ClientConn} (h : s.Safe) (hid : id < s.created)
    (hlater : (s.links id).Later k)
    (hsent : ∀ call ∈ k.requests, call ∈ (s.links id).requests ∨ k.Aims call.uri) :
    Safe (s.set_link id k) := by
  have hsafe : Safe { s.set_link id k with flying := s.flying ++ [] } :=
    h.update hid hlater hsent (by simp)
  rw [List.append_nil] at hsafe
  exact hsafe

/-- What a call returns. -/
theorem Safe.finish {call : ClientCall} {o : Outcome} (h : s.Safe)
    (hnumber : call.number = s.done.length)
    (hresponse : ∀ p, o = .response (some p) → ∃ id < s.created, (s.links id).Answered call p)
    (hwebsocket : ∀ id, o = .websocket (some id) → id < s.created ∧
      ∃ p, (s.links id).Answered call p ∧ handle_websocket_upgrade_response p = true) :
    (s.finish call o).Safe := by
  constructor
  case created => exact h.created
  case sent => exact h.sent
  case known => exact h.known
  case down => exact h.down
  case returned =>
    intro c p hp
    rcases List.mem_append.mp hp with hold | hp
    · exact h.returned c p hold
    · cases List.mem_singleton.mp hp
      exact hresponse p rfl
  case opened =>
    intro c id hp
    rcases List.mem_append.mp hp with hold | hp
    · exact h.opened c id hold
    · cases List.mem_singleton.mp hp
      exact hwebsocket id rfl
  case numbered =>
    intro i x hx
    have hx' : (s.done ++ [(call, o)])[i]? = some x := hx
    rcases Nat.lt_trichotomy i s.done.length with hlt | heq | hgt
    · rw [List.getElem?_append_left hlt] at hx'
      exact h.numbered i x hx'
    · rw [heq, List.getElem?_concat_length] at hx'
      cases hx'
      exact hnumber.trans heq.symm
    · rw [List.getElem?_append_right (by omega), List.getElem?_eq_none (by simp; omega)] at hx'
      cases hx'

theorem Safe.finish_nothing {call : ClientCall} (h : s.Safe) (ws : Bool)
    (hnumber : call.number = s.done.length) : (s.finish call (nothing ws)).Safe := by
  refine h.finish hnumber ?_ ?_
  · intro p hp
    cases ws <;> cases hp
  · intro id hid
    cases ws <;> cases hid

/-! ## Section 4: The steps of a call -/

theorem Safe.no_conn (h : s.Safe) : Safe { s with conn := none } :=
  ⟨fun id hid => (by cases hid), h.sent, h.known, h.down, h.returned, h.opened, h.numbered⟩

theorem Safe.destroy (h : s.Safe) : s.destroy_connection.Safe := by
  unfold destroy_connection
  split
  · exact h
  · next id hid =>
    exact (h.set_link (h.created id hid) (ClientConn.later_stop _) fun _ hc => .inl hc).no_conn

@[simp] theorem destroy_conn (s : Client) : s.destroy_connection.conn = none := by
  unfold destroy_connection
  split
  · assumption
  · rfl

@[simp] theorem destroy_done (s : Client) : s.destroy_connection.done = s.done := by
  unfold destroy_connection
  split
  · rfl
  · rfl

@[simp] theorem destroy_phase (s : Client) : s.destroy_connection.phase = s.phase := by
  unfold destroy_connection
  split
  · rfl
  · rfl

theorem free_of_no_conn (h : s.conn = none) : s.Free := by
  intro id hid
  rw [h] at hid
  cases hid

@[simp] theorem listen_done (s : Client) (id : Nat) : (s.listen id).2.done = s.done := by
  unfold listen
  simp only
  split
  · rfl
  · rfl

/-- What a part of a call leaves, by its result. -/
structure Heard (s : Client) (u : Uri) (r : Bool × Client) : Prop where
  safe : r.2.Safe
  done : r.2.done = s.done
  ready : r.1 = true → ∃ id, r.2.Ready id u
  free : r.1 = false → r.2.Free

/-- A connection that is up and settled can be listened on; the uri of the
    last new connection is then set to one it goes to. -/
theorem listen_heard {id : Nat} {u : Uri} (h : s.Safe) (hconn : s.conn = some id)
    (haims : (s.links id).Aims u)
    (hsettled : (s.links id).is_valid = true →
      (s.links id).Settled ∧ packets_of id s.flying = [])
    (last : Uri) (hlast : (s.links id).Aims last) :
    Heard s u ((s.listen id).1, { (s.listen id).2 with last_uri := last }) := by
  have hid := h.created id hconn
  have hlater := ClientConn.async_read_http_packet_later (s.links id)
  have hdone := listen_done s id
  cases hok : (s.links id).async_read_http_packet.1 with
  | true =>
    have hlisten : s.listen id = (true, s.set_link id (s.links id).async_read_http_packet.2) := by
      unfold listen
      simp only [hok, if_true]
    have hvalid : (s.links id).is_valid = true := by
      by_contra hdown
      rw [ClientConn.async_read_http_packet_down (Bool.eq_false_iff.mpr hdown)] at hok
      cases hok
    obtain ⟨hset, hpackets⟩ := hsettled hvalid
    rw [hlisten] at hdone ⊢
    have hsafe := h.set_link hid hlater fun _ hc => .inl hc
    refine ⟨⟨hsafe.created, hsafe.sent, hsafe.known, hsafe.down, hsafe.returned, hsafe.opened,
      hsafe.numbered⟩, hdone, ?_, fun hr => by cases hr⟩
    intro _
    refine ⟨id, hconn, ?_, hpackets, ?_, ?_⟩
    · simp only [set_link_same]
      exact ClientConn.async_read_http_packet_tended hset hok
    · simp only [set_link_same]
      exact hlater.aims hlast
    · simp only [set_link_same]
      exact hlater.aims haims
  | false =>
    have hlisten : s.listen id = (false,
        { s.set_link id (s.links id).async_read_http_packet.2.stop with conn := none }) := by
      unfold listen
      simp only [hok]
      rfl
    rw [hlisten] at hdone ⊢
    have hstop := ClientConn.later_stop (s.links id).async_read_http_packet.2
    have hsafe := (h.set_link hid (hlater.trans hstop) fun _ hc => .inl hc).no_conn
    exact ⟨⟨hsafe.created, hsafe.sent, hsafe.known, hsafe.down, hsafe.returned, hsafe.opened,
      hsafe.numbered⟩, hdone, fun hr => (by cases hr), fun _ => free_of_no_conn rfl⟩

/-- The connection in use is the one asked for, unless there is none. -/
theorem reuse_heard {u : Uri} (h : s.Safe) (hfree : s.Free)
    (hu : s.conn ≠ none → u.host = s.last_uri.host ∧ u.tp = s.last_uri.tp) :
    Heard s u s.reuse := by
  unfold reuse
  split
  · next hnone =>
    exact ⟨h, rfl, fun hr => (by cases hr), fun _ => free_of_no_conn hnone⟩
  · next id hid =>
    split
    · next hvalid =>
      obtain ⟨hset, hpackets, hlast⟩ := hfree id hid hvalid
      obtain ⟨hhost, htp⟩ := hu (by rw [hid]; exact Option.some_ne_none id)
      have hheard := listen_heard h hid (hlast.congr hhost htp) (fun _ => ⟨hset, hpackets⟩)
        s.last_uri hlast
      have hsame : (s.listen id).2.last_uri = s.last_uri := by
        unfold listen
        simp only
        split
        · rfl
        · rfl
      rw [← hsame] at hheard
      exact hheard
    · next hdown =>
      refine ⟨h, rfl, fun hr => (by cases hr), fun _ => ?_⟩
      intro id' hid' hvalid
      rw [hid] at hid'
      cases hid'
      exact absurd hvalid hdown

/-- A new connection has its own number. -/
theorem Safe.create (h : s.Safe) (u : Uri) (d : Dialing) : (s.create u d).Safe := by
  have hold : ∀ id < s.created, (s.create u d).links id = s.links id := fun id hid =>
    Function.update_of_ne (Nat.ne_of_lt hid) ..
  constructor
  case created =>
    intro id hid
    cases hid
    exact Nat.lt_succ_self _
  case sent =>
    intro id hid call hcall
    rcases Nat.lt_or_eq_of_le (Nat.le_of_lt_succ hid) with hlt | rfl
    · rw [hold id hlt] at hcall ⊢
      exact h.sent id hlt call hcall
    · have hnew : (s.create u d).links s.created = new_link u d := Function.update_self ..
      rw [hnew] at hcall
      cases d <;> cases hcall
  case known => exact fun x hx => Nat.lt_succ_of_lt (h.known x hx)
  case down =>
    intro id hx
    rw [hold id (h.known _ hx)]
    exact h.down id hx
  case returned =>
    intro call p hp
    obtain ⟨id, hid, hanswered⟩ := h.returned call p hp
    exact ⟨id, Nat.lt_succ_of_lt hid, by rw [hold id hid]; exact hanswered⟩
  case opened =>
    intro call id hp
    obtain ⟨hid, p, hanswered, hhandle⟩ := h.opened call id hp
    exact ⟨Nat.lt_succ_of_lt hid, p, by rw [hold id hid]; exact hanswered, hhandle⟩
  case numbered => exact h.numbered

theorem new_link_aims (u : Uri) (d : Dialing) : (new_link u d).Aims u := by
  cases d <;> exact ⟨rfl, rfl⟩

theorem connect_heard (u : Uri) (d : Dialing) (h : s.Safe) (hfree : s.Free) :
    Heard s u (s.connect u d) := by
  have hlink : ∀ d, (s.create u d).links s.created = new_link u d := fun d =>
    Function.update_self ..
  -- a transport that does not stay up is never settled
  have hnew : ∀ d, ((s.create u d).links s.created).is_valid = true →
      ((s.create u d).links s.created).Settled ∧
        packets_of s.created (s.create u d).flying = [] := by
    intro d hvalid
    rw [hlink] at hvalid ⊢
    refine ⟨?_, packets_of_others fun x hx => Nat.ne_of_lt (h.known x hx)⟩
    cases d with
    | ready => exact ClientConn.opened_settled u
    | refused => cases hvalid
    | unstarted => cases hvalid
    | lost => cases hvalid
  have hlisten : ∀ d, Heard s u (let r := (s.create u d).listen s.created
      if r.1 then (true, { r.2 with last_uri := u }) else r) := by
    intro d
    have haims : ((s.create u d).links s.created).Aims u := by
      rw [hlink]
      exact new_link_aims u d
    have hheard := listen_heard (h.create u d) rfl haims (hnew d) u haims
    cases hok : ((s.create u d).listen s.created).1 with
    | true =>
      rw [hok] at hheard
      simp only [hok, if_true]
      exact ⟨hheard.safe, hheard.done, hheard.ready, hheard.free⟩
    | false =>
      simp only [hok, Bool.false_eq_true, if_false]
      have hsafe := hheard.safe
      refine ⟨⟨hsafe.created, hsafe.sent, hsafe.known, hsafe.down, hsafe.returned, hsafe.opened,
        hsafe.numbered⟩, hheard.done, ?_, ?_⟩
      · intro hr
        rw [hok] at hr
        cases hr
      · refine fun _ => free_of_no_conn ?_
        unfold listen at hok ⊢
        simp only at hok ⊢
        split at hok
        · cases hok
        · next hno =>
          rw [if_neg hno]
  cases d with
  | refused => exact ⟨h, rfl, fun hr => (by cases hr), fun _ => hfree⟩
  | unstarted =>
    refine ⟨h.create u _, rfl, fun hr => (by cases hr), fun _ => ?_⟩
    intro id hid hvalid
    cases hid
    have hvalid' : ((s.create u .unstarted).links s.created).is_valid = true := hvalid
    rw [hlink] at hvalid'
    cases hvalid'
  | lost => exact hlisten .lost
  | ready => exact hlisten .ready

theorem async_read_http_response_heard (u : Uri) (d : Dialing) (h : s.Safe) (hfree : s.Free) :
    Heard s u (s.async_read_http_response u d) := by
  unfold async_read_http_response
  obtain ⟨t, ht, hsafe, hfree', hdone, hu⟩ : ∃ t, (if u.host ≠ s.last_uri.host ∨
      u.tp ≠ s.last_uri.tp then s.destroy_connection else s) = t ∧ t.Safe ∧ t.Free ∧
      t.done = s.done ∧ (t.conn ≠ none → u.host = t.last_uri.host ∧ u.tp = t.last_uri.tp) := by
    split
    · exact ⟨_, rfl, h.destroy, free_of_no_conn (destroy_conn s), destroy_done s,
        fun hne => absurd (destroy_conn s) hne⟩
    · next hsame =>
      push Not at hsame
      exact ⟨s, rfl, h, hfree, rfl, fun _ => hsame⟩
  rw [ht]
  have hreuse := reuse_heard hsafe hfree' hu
  simp only
  split
  · next hr =>
    exact ⟨hreuse.safe, hreuse.done.trans hdone, hreuse.ready, hreuse.free⟩
  · next hr =>
    have hconnect := connect_heard u d hreuse.safe (hreuse.free (Bool.not_eq_true _ ▸ hr))
    exact ⟨hconnect.safe, hconnect.done.trans (hreuse.done.trans hdone), hconnect.ready,
      hconnect.free⟩

/-- **`call`** -/
theorem Inv.begin_call {ws : Bool} {u : Uri} {d : Dialing} (h : s.Safe) (hfree : s.Free) :
    Inv (s.begin_call ws u d) := by
  unfold Client.begin_call
  simp only
  split
  · exact ⟨h.finish_nothing ws rfl, .idle rfl hfree⟩
  · have hheard := async_read_http_response_heard u d h hfree
    split
    · next hok =>
      obtain ⟨id, hready⟩ := hheard.ready hok
      have hsafe := hheard.safe
      refine ⟨⟨hsafe.created, hsafe.sent, hsafe.known, hsafe.down, hsafe.returned, hsafe.opened,
        hsafe.numbered⟩, ?_⟩
      refine .setup ws ⟨s.done.length, u⟩ id rfl (congrArg List.length hheard.done).symm ?_
      exact ⟨hready.conn, hready.listening, hready.packets, hready.last, hready.aims⟩
    · next hno =>
      refine ⟨hheard.safe.finish_nothing ws (congrArg List.length hheard.done).symm, ?_⟩
      exact .idle rfl (hheard.free (Bool.not_eq_true _ ▸ hno))

/-- **`send`** -/
theorem Inv.send {ws ok : Bool} {call : ClientCall} {id : Nat} (h : s.Safe)
    (hnumber : call.number = s.done.length) (hready : s.Ready id call.uri) :
    Inv (s.send ws call id ok) := by
  have hlisten := hready.listening
  cases ok with
  | false =>
    refine ⟨h.finish_nothing ws hnumber, .idle rfl ?_⟩
    intro id' hid' _
    have hid : s.conn = some id' := hid'
    rw [hready.conn] at hid
    cases hid
    exact ⟨hlisten.settled, hready.packets, hready.last⟩
  | true =>
    have hlater : (s.links id).Later
        { s.links id with requests := (s.links id).requests ++ [call] } :=
      ⟨rfl, rfl, List.prefix_append _ _, List.prefix_refl _, fun hvalid => hvalid⟩
    have hsafe := h.set_link (h.created id hready.conn) hlater (by
      intro c hc
      rcases List.mem_append.mp hc with hold | hc
      · exact .inl hold
      · cases List.mem_singleton.mp hc
        exact .inr ⟨hready.aims.address, hready.aims.tls⟩)
    refine ⟨⟨hsafe.created, hsafe.sent, hsafe.known, hsafe.down, hsafe.returned, hsafe.opened,
      hsafe.numbered⟩, .waiting ws call id rfl hnumber ?_⟩
    constructor
    case conn => exact hready.conn
    case tended =>
      show ((s.set_link id _).links id).Tended
      rw [set_link_same]
      exact ⟨hlisten.tended.stage, hlisten.tended.inv⟩
    case waits => rfl
    case last =>
      show ((s.set_link id _).links id).Aims s.last_uri
      rw [set_link_same]
      exact hlater.aims hready.last
    case sent =>
      show ((s.set_link id _).links id).requests.getLast? = some call
      rw [set_link_same]
      exact List.getLast?_concat
    case asked =>
      show ((s.set_link id _).links id).conv.asked = ((s.set_link id _).links id).requests.length
      rw [set_link_same]
      simp [hlisten.asked, hlisten.answered]
    case packets => exact .inl hready.packets
    case answer => exact fun hno => by cases hno
    case error => exact fun hno => by cases hno
    case awake =>
      show ((s.set_link id _).links id).conv.conn.calls.length =
        ((s.set_link id _).links id).requests.length → _
      rw [set_link_same]
      intro hlen
      have hlen : (s.links id).conv.conn.calls.length =
          ((s.links id).requests ++ [call]).length := hlen
      have hle := hlisten.tended.stage.in_order.length_le
      have hanswered := hlisten.answered
      rw [List.length_append, List.length_singleton] at hlen
      rw [List.length_map] at hle
      omega

/-- A wait is one of its own connection. -/
theorem Pending.congr {call : ClientCall} {id : Nat} (h : s.Pending call id)
    (hconn : s'.conn = some id) (hlink : s'.links id = s.links id)
    (hlast : s'.last_uri = s.last_uri) (hwait : s'.wait_for_response = s.wait_for_response)
    (hpackets : packets_of id s'.flying = packets_of id s.flying)
    (hnotified : s'.notified = s.notified) (hresp : s'.resp = s.resp) : s'.Pending call id := by
  obtain ⟨-, tended, waits, last, sent, asked, packets, answer, error, awake⟩ := h
  rw [← hlink] at tended last sent asked packets answer error awake
  rw [← hpackets] at packets answer awake
  rw [← hnotified] at answer error awake
  rw [← hresp] at answer error
  rw [← hlast] at last
  rw [← hwait] at waits
  exact ⟨hconn, tended, waits, last, sent, asked, packets, answer, error, awake⟩

/-- What the wait of a call has got. -/
theorem Pending.answered {call : ClientCall} {id : Nat} {p : Response} (h : s.Pending call id)
    (hnotified : s.notified = true) (hresp : s.resp = some p) : (s.links id).Answered call p := by
  obtain ⟨-, hcomplete⟩ := h.answer hnotified p hresp
  exact ClientConn.answered_last hcomplete.answered h.sent hcomplete.last

/-- The wait goes on while the connection is up and the answer is not there. -/
theorem Pending.quiet {call : ClientCall} {id : Nat} (h : s.Pending call id)
    (hvalid : (s.links id).is_valid = true) (hnot : ∀ p, ¬(s.links id).Complete p) :
    s.notified = false := by
  by_contra hnotified
  have hnotified : s.notified = true := Bool.not_eq_false _ ▸ hnotified
  cases hresp : s.resp with
  | none => cases hvalid.symm.trans (h.error hnotified hresp)
  | some p => exact hnot p (h.answer hnotified p hresp).2

theorem Pending.free {call : ClientCall} {id : Nat} (h : s.Pending call id)
    (hnotified : s.notified = true) : s.Free := by
  intro id' hid' hvalid
  rw [h.conn] at hid'
  cases hid'
  cases hresp : s.resp with
  | none =>
    rw [h.error hnotified hresp] at hvalid
    cases hvalid
  | some p =>
    obtain ⟨hpackets, hcomplete⟩ := h.answer hnotified p hresp
    exact ⟨hcomplete.settled h.tended, hpackets, h.last⟩

/-- `open_websocket` gives its connection away. -/
theorem Inv.upgrade {call : ClientCall} {id : Nat} {ws_key : Bytes} (h : s.Safe)
    (hnumber : call.number = s.done.length) (hconn : s.conn = some id)
    (hanswered : ∀ p, s.resp = some p → (s.links id).Answered call p) :
    Inv (s.upgrade call id ws_key) := by
  have hdestroyed : Inv (s.destroy_connection.finish call (.websocket none)) :=
    ⟨h.destroy.finish_nothing true (hnumber.trans (congrArg List.length (destroy_done s)).symm),
      .idle rfl (free_of_no_conn (destroy_conn s))⟩
  unfold Client.upgrade
  split
  · exact hdestroyed
  · next rsp hrsp =>
    split
    · next hhandle =>
      have hid := h.created id hconn
      have hlater : (s.links id).Later { s.links id with conv := { (s.links id).conv with
          conn := { (s.links id).conv.conn with ws_key := ws_key } } } :=
        ⟨rfl, rfl, List.prefix_refl _, List.prefix_refl _, fun hvalid => hvalid⟩
      have hsafe := (h.set_link hid hlater fun _ hc => .inl hc).no_conn
      refine ⟨hsafe.finish hnumber (fun p hp => by cases hp) ?_, .idle rfl (free_of_no_conn rfl)⟩
      intro id' hid'
      cases hid'
      refine ⟨hid, rsp, ?_, hhandle⟩
      simp only [set_link_same]
      exact hlater.answered (hanswered rsp hrsp)
    · exact hdestroyed

/-- **`wake`** -/
theorem Inv.woken {ws : Bool} {call : ClientCall} {id : Nat} {ws_key : Bytes} (h : s.Safe)
    (hnumber : call.number = s.done.length) (hpending : s.Pending call id)
    (hnotified : s.notified = true) : Inv (s.woken ws call id ws_key) := by
  have hsafe : Safe { s with wait_for_response := false } :=
    ⟨h.created, h.sent, h.known, h.down, h.returned, h.opened, h.numbered⟩
  unfold Client.woken
  cases ws with
  | true =>
    exact Inv.upgrade hsafe hnumber hpending.conn fun p hp => hpending.answered hnotified hp
  | false =>
    have hsafe' : Safe { s with wait_for_response := false, resp := none } :=
      ⟨h.created, h.sent, h.known, h.down, h.returned, h.opened, h.numbered⟩
    refine ⟨hsafe'.finish hnumber ?_ (fun id' hid' => by cases hid'), .idle rfl ?_⟩
    · intro p hp
      exact ⟨id, h.created id hpending.conn,
        hpending.answered hnotified (Outcome.response.inj hp)⟩
    · exact hpending.free hnotified

/-- **`timeout`** -/
theorem Inv.timed_out {ws : Bool} {call : ClientCall} (h : s.Safe)
    (hnumber : call.number = s.done.length) : Inv (s.timed_out ws call) := by
  have hsafe := h.destroy
  have hnumber' : call.number = s.destroy_connection.done.length :=
    hnumber.trans (congrArg List.length (destroy_done s)).symm
  unfold Client.timed_out
  cases ws with
  | true => exact ⟨hsafe.finish_nothing true hnumber', .idle rfl (free_of_no_conn (destroy_conn s))⟩
  | false =>
    have hsafe' : Safe { s.destroy_connection with wait_for_response := false } :=
      ⟨hsafe.created, hsafe.sent, hsafe.known, hsafe.down, hsafe.returned, hsafe.opened,
        hsafe.numbered⟩
    exact ⟨hsafe'.finish_nothing false hnumber', .idle rfl (free_of_no_conn (destroy_conn s))⟩

end Client

end Pump
