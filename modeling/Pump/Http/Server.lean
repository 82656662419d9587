import Pump.Http.Callbacks
import Pump.Total
import Pump.Transport.Acceptor

/-! # server

    `proto/http/server.cpp`: the connections that a server has in `conns_`,
    while any number of threads run its functions, the callbacks of its
    acceptors and those of the connections' transports. A connection is the
    one of `LiveConnection`; the transport reads for it once for each
    `async_read`, as in `read_mode_once`.

    `start` and `stop` are one step each, and the server is there throughout. -/

namespace Pump

open ConnectionState

/-! ## Section 1: A connection of the server -/

/-- Where a thread is with a connection. -/
inductive ServedPc where
  | away
  -- on_accepted
  | accepted_insert
  | accepted_start
  /-- In `start_http`. -/
  | accepted_starting
  | accepted_erase
  /-- In a callback of the transport, or in `start_websocket`. -/
  | inside
  -- on_http_request
  | request_cb
  | request_next
  | request_stop
  | request_erase
  -- on_http_error
  | error_stop
  | error_erase
  deriving DecidableEq, Repr

/-- A connection that was accepted. `listed` is whether it is in `conns_`,
    `reads` are the calls of `async_read` that the transport has not answered,
    `stopped` is whether `stop` was called, and `requests` are the calls of
    `request_cb` for it. -/
structure Served (ι : Type) where
  conn : LiveConnection ι
  listed : Bool
  reads : Nat
  stopped : Bool
  requests : Nat

/-- The step after which the connection calls `__async_read`. -/
def ConnectionPc.asks : ConnectionPc → Bool
  | .upgrade_assign _ | .read_packet false | .read_frame _ => true
  | _ => false

namespace LiveConnection

variable {ι : Type} [DecidableEq ι]

/-- The next step of a thread. -/
def next (s : LiveConnection ι) (i : ι) (ok : Bool) : LiveConnection ι :=
  (s.action ok (s.pcs i)).2.goto i (s.action ok (s.pcs i)).1

end LiveConnection

namespace Served

variable {ι : Type}

def new : Served ι := ⟨.new, false, 0, false, 0⟩

/-- The callbacks that `on_accepted` gives to the connection. -/
def http_cbs : HttpCallbacks := ⟨true, true⟩

/-- What refers to the connection: the entry in `conns_`, and its own
    callbacks, either of which is bound to it. -/
def references (k : Served ι) : Nat :=
  k.listed.toNat + k.conn.http_cbs.packet_cb.toNat + k.conn.http_cbs.error_cb.toNat

variable [DecidableEq ι]

/-- A function of the connection is entered. -/
def enter (k : Served ι) (l : ConnectionLabel ι) : Option (Served ι) :=
  (k.conn.step l).map fun conn => { k with conn := conn }

/-- Where a thread goes from a step of the connection. -/
def leave (k : Served ι) (i : ι) (conn : LiveConnection ι) : ServedPc :=
  match k.conn.pcs i with
  | .packet_cb => .request_cb
  | .error_cb false _ => .error_stop
  | _ => if conn.pcs i = .idle then .away else .inside

/-- The next step of a thread that is at a connection. -/
def action (sv : Bool) (k : Served ι) (i : ι) (ok : Bool) : ServedPc → ServedPc × Served ι
  | .away => (.away, k)
  | .accepted_insert => (.accepted_start, { k with listed := true })
  | .accepted_start =>
    match k.enter (.start_http i sv true http_cbs) with
    | none => (.accepted_start, k)
    | some k' => (if k'.conn.pcs i = .idle then .accepted_erase else .accepted_starting, k')
  | .accepted_starting =>
    let conn := k.conn.next i ok
    (if conn.pcs i ≠ .idle then .accepted_starting
      else if k.conn.pcs i = .start_transport then .away else .accepted_erase, { k with conn := conn })
  | .accepted_erase => (.away, { k with listed := false })
  | .inside =>
    let conn := k.conn.next i ok
    (k.leave i conn,
      { k with conn := conn, reads := if (k.conn.pcs i).asks && ok then k.reads + 1 else k.reads })
  | .request_cb => (.request_next, { k with requests := k.requests + 1 })
  | .request_next =>
    if k.conn.state = state_upgraded then (.request_erase, k)
    -- __async_read_http_packet
    else if k.conn.state = state_started ∧ ok then (.away, { k with reads := k.reads + 1 })
    else (.request_stop, k)
  | .request_stop => (.request_erase, { k with stopped := true })
  | .request_erase => (.away, { k with listed := false })
  | .error_stop => (.error_erase, { k with stopped := true })
  | .error_erase => (.away, { k with listed := false })

end Served

/-! ## Section 2: The server -/

/-- An acceptor that the server has started: whether `stop` was called, and
    whether it has called back. -/
structure ServerAcceptor where
  kind : AcceptorKind
  stopping : Bool
  stopped : Bool
  deriving DecidableEq, Repr

inductive ServerPc where
  | idle
  | conn (c : Nat) (pc : ServedPc)
  -- on_stopped
  | stopped_conns
  | stopped_cb
  deriving DecidableEq, Repr

/-- `http::server` and the threads `ι`. `acceptors` are all it has started,
    `acceptor` is the one in `acceptor_`; `accepted` of `conns` exist. `stops`
    are the calls of `stopped_cb`. -/
structure Server (ι : Type) where
  sv : Bool
  acceptor : Option Nat
  acceptors : List ServerAcceptor
  conns : Nat → Served ι
  accepted : Nat
  pcs : ι → ServerPc
  stops : Nat

inductive ServerLabel (ι : Type) where
  /-- A call of one of the two `start`; the flags are the checks of its
      parameters and whether the acceptor starts. -/
  | start (k : AcceptorKind) (sv cbs ok : Bool)
  | stop
  /-- An acceptor calls `on_accepted` or `on_stopped`. -/
  | on_accepted (i : ι)
  | on_stopped (i : ι) (a : Nat)
  /-- The transport of a connection calls back. -/
  | on_read (i : ι) (c : Nat) (finished : Bool) (frame : Option UInt8)
  | on_end (i : ι) (c : Nat) (e : ConnectionEnd)
  /-- `start_websocket` of a connection that `request_cb` has given away. -/
  | start_websocket (i : ι) (c : Nat) (cbs : WebsocketCallbacks)
  /-- The next step of a thread. -/
  | step (i : ι) (ok : Bool)

namespace Server

variable {ι : Type}

/-- A new server. -/
def new : Server ι := ⟨false, none, [], fun _ => .new, 0, fun _ => .idle, 0⟩

/-- The check of `acceptor_`: the one with credentials asks for the contrary. -/
def may_start (s : Server ι) : AcceptorKind → Bool
  | .tcp => s.acceptor.isNone
  | .tls => s.acceptor.isSome

def start (s : Server ι) (k : AcceptorKind) (sv cbs ok : Bool) : Server ι :=
  if sv && cbs && s.may_start k then
    if ok then
      { s with
        sv := true
        acceptor := some s.acceptors.length
        acceptors := s.acceptors ++ [⟨k, false, false⟩] }
    else { s with sv := true }
  else s

/-- `acceptor_->stop()`, if there is one. -/
def stop (s : Server ι) : Server ι :=
  match s.acceptor with
  | none => s
  | some a =>
    match s.acceptors[a]? with
    | none => s
    | some acc => { s with acceptors := s.acceptors.set a { acc with stopping := true } }

/-- `stop` of every connection in `conns_`. -/
def stop_listed (s : Server ι) : Server ι :=
  { s with conns := fun c =>
      if (s.conns c).listed then { s.conns c with stopped := true } else s.conns c }

variable [DecidableEq ι]

/-- Thread `i` goes to `pc`. -/
def goto (s : Server ι) (i : ι) (pc : ServerPc) : Server ι :=
  { s with pcs := Function.update s.pcs i pc }

/-- A connection changes, and thread `i` goes on with it. -/
def at_conn (s : Server ι) (i : ι) (c : Nat) (r : ServedPc × Served ι) : Server ι :=
  { s with
    conns := Function.update s.conns c r.2
    pcs := Function.update s.pcs i (if r.1 = .away then .idle else .conn c r.1) }

/-- An idle thread enters a function of a connection. -/
def enter (s : Server ι) (i : ι) (c : Nat) (k : Served ι) (l : ConnectionLabel ι) :
    Option (Server ι) :=
  if s.pcs i = .idle then (k.enter l).map fun k' => s.at_conn i c (.inside, k') else none

def action (s : Server ι) (i : ι) (ok : Bool) : ServerPc → Server ι
  | .idle => s
  | .conn c pc => s.at_conn i c ((s.conns c).action s.sv i ok pc)
  | .stopped_conns => s.stop_listed.goto i .stopped_cb
  | .stopped_cb => ({ s with stops := s.stops + 1 } : Server ι).goto i .idle

def step (s : Server ι) : ServerLabel ι → Option (Server ι)
  | .start k sv cbs ok => some (s.start k sv cbs ok)
  | .stop => some s.stop
  | .on_accepted i =>
    if s.pcs i = .idle ∧ s.acceptors ≠ [] then
      some (({ s with accepted := s.accepted + 1 } : Server ι).at_conn i s.accepted
        (.accepted_insert, s.conns s.accepted))
    else none
  | .on_stopped i a =>
    match s.acceptors[a]? with
    | some acc =>
      if s.pcs i = .idle ∧ acc.stopping ∧ ¬ acc.stopped then
        some (({ s with acceptors := s.acceptors.set a { acc with stopped := true } } :
          Server ι).goto i .stopped_conns)
      else none
    | none => none
  | .on_read i c finished frame =>
    if (s.conns c).reads > 0 then
      s.enter i c { s.conns c with reads := (s.conns c).reads - 1 } (.on_read i finished frame)
    else none
  | .on_end i c e =>
    s.enter i c (s.conns c) (match e with
      | .disconnected => .on_disconnected i
      | .stopped => .on_stopped i)
  | .start_websocket i c cbs =>
    if (s.conns c).requests > 0 then s.enter i c (s.conns c) (.start_websocket i cbs) else none
  | .step i ok => some (s.action i ok (s.pcs i))

end Server

/-! ## Section 3: The steps of a connection that nobody reads from -/

/-- The thread is inside `start_http`. -/
def ConnectionPc.in_start : ConnectionPc → Prop
  | start_state _ | start_assign _ | start_transport | start_error => True
  | _ => False

/-- The thread is in a function that comes of reading or upgrading. -/
def ConnectionPc.beyond : ConnectionPc → Prop
  | upgrade_state _ | upgrade_assign _ | read_load _ _ | read_packet _ | packet_cb | read_frame _
  | frame_cb | close_frame | end_exchange _ true _ | end_closed _ | error_cb true _ => True
  | _ => False

namespace LiveConnection

variable {ι : Type}

theorem end_case_plain (e : ConnectionEnd) (st : ConnectionState) {st' : ConnectionState}
    (h : st' ≠ state_upgraded) :
    ¬ (end_case e st st').in_start ∧ ¬ (end_case e st st').beyond := by
  cases st' with
  | state_upgraded => exact absurd rfl h
  | _ => exact ⟨id, id⟩

/-- What a step inside a callback leaves alone, where nothing was read or
    upgraded; it calls nobody but `error_cb`. -/
structure Plain (s : LiveConnection ι) (pc : ConnectionPc) (r : ConnectionPc × LiveConnection ι) :
    Prop where
  live : r.2.live = s.live
  http_cbs : r.2.http_cbs = s.http_cbs
  state : r.2.state ≠ state_upgraded
  in_start : ¬ r.1.in_start
  beyond : ¬ r.1.beyond
  calls : ((∀ msg, pc ≠ .error_cb false msg) ∧ r.2.calls = s.calls) ∨
    (∃ msg, pc = .error_cb false msg) ∧ r.1 = .idle ∧
      r.2.calls.countP is_error = s.calls.countP is_error + 1

theorem action_plain (s : LiveConnection ι) (ok : Bool) {pc : ConnectionPc}
    (hstate : s.state ≠ state_upgraded) (hstart : ¬ pc.in_start) (hbeyond : ¬ pc.beyond) :
    Plain s pc (s.action ok pc) := by
  cases pc with
  | idle => exact ⟨rfl, rfl, hstate, id, id, Or.inl ⟨by simp, rfl⟩⟩
  | end_load e =>
    cases e with
    | disconnected => exact ⟨rfl, rfl, hstate, id, id, Or.inl ⟨by simp, rfl⟩⟩
    | stopped =>
      have hcase := end_case_plain .stopped s.state hstate
      exact ⟨rfl, rfl, hstate, hcase.1, hcase.2, Or.inl ⟨by simp, rfl⟩⟩
  | end_switch st =>
    have hcase := end_case_plain .disconnected st hstate
    exact ⟨rfl, rfl, hstate, hcase.1, hcase.2, Or.inl ⟨by simp, rfl⟩⟩
  | end_exchange e upgraded st =>
    cases upgraded with
    | true => exact absurd trivial hbeyond
    | false =>
      simp only [action]
      split
      · exact ⟨rfl, rfl, by simp [fail], id, id, Or.inl ⟨by simp, rfl⟩⟩
      · exact ⟨rfl, rfl, hstate, id, id, Or.inl ⟨by simp, rfl⟩⟩
  | error_cb upgraded msg =>
    cases upgraded with
    | true => exact absurd trivial hbeyond
    | false =>
      refine ⟨rfl, rfl, hstate, id, id, Or.inr ⟨⟨msg, rfl⟩, rfl, ?_⟩⟩
      show (s.calls ++ [_]).countP is_error = _
      rw [List.countP_append]
      rfl
  | start_state | start_assign | start_transport | start_error => exact absurd trivial hstart
  | upgrade_state | upgrade_assign | read_load | read_packet | packet_cb | read_frame | frame_cb
  | close_frame | end_closed => exact absurd trivial hbeyond

variable [DecidableEq ι]

theorem next_self (s : LiveConnection ι) (i : ι) (ok : Bool) :
    (s.next i ok).pcs i = (s.action ok (s.pcs i)).1 := by
  show Function.update _ i _ i = _
  rw [Function.update_self]

theorem next_other (s : LiveConnection ι) {i j : ι} (ok : Bool) (h : j ≠ i) :
    (s.next i ok).pcs j = s.pcs j := by
  show Function.update _ i _ j = _
  rw [Function.update_of_ne h, action_pcs]

theorem next_reportInv {s : LiveConnection ι} (h : ReportInv s) (i : ι) (ok : Bool) :
    ReportInv (s.next i ok) := action_reportInv h i ok

/-- The transport is started or not, and nobody has been called. -/
structure Silent (live : Bool) (s : LiveConnection ι) : Prop where
  live : s.live = live
  calls : s.calls = []
  state : s.state ≠ state_upgraded

/-- What `start_http` has done for the thread `i` where it is; nobody else has
    done anything. -/
structure Starting (i : ι) (s : LiveConnection ι) : Prop where
  others : ∀ j, j ≠ i → s.pcs j = .idle
  silent : s.Silent false
  stage : (s.pcs i = .start_state Served.http_cbs ∧ s.state = state_none) ∨
    s.pcs i = .start_assign Served.http_cbs ∨
    (s.pcs i = .start_transport ∨ s.pcs i = .start_error) ∧ s.http_cbs = Served.http_cbs

/-- Behind `start_http`, which has started the transport or not. -/
structure Behind (live : Bool) (s : LiveConnection ι) : Prop where
  pcs : ∀ j, s.pcs j = .idle
  silent : s.Silent live
  http_cbs : s.http_cbs = Served.http_cbs

omit [DecidableEq ι] in
theorem Starting.busy {s : LiveConnection ι} {i : ι} (h : Starting i s) : s.pcs i ≠ .idle := by
  rcases h.stage with ⟨hpc, -⟩ | hpc | ⟨hpc | hpc, -⟩ <;> rw [hpc] <;> nofun

theorem next_eq {s : LiveConnection ι} {i : ι} {pc : ConnectionPc} (ok : Bool)
    (hpc : s.pcs i = pc) : s.next i ok = (s.action ok pc).2.goto i (s.action ok pc).1 := by
  rw [LiveConnection.next, hpc]

/-- A step of `start_http`: it goes on, succeeds or fails. -/
theorem Starting.next {s : LiveConnection ι} {i : ι} (h : Starting i s) (ok : Bool) :
    Starting i (s.next i ok) ∨ (s.pcs i = .start_transport ∧ Behind true (s.next i ok)) ∨
      s.pcs i ≠ .start_transport ∧ Behind false (s.next i ok) := by
  have hothers : ∀ j, j ≠ i → (s.next i ok).pcs j = .idle := by
    intro j hji
    rw [s.next_other ok hji]
    exact h.others j hji
  have hall : (s.next i ok).pcs i = .idle → ∀ j, (s.next i ok).pcs j = .idle := by
    intro hi j
    by_cases hji : j = i
    · rw [hji]
      exact hi
    · exact hothers j hji
  have hself := s.next_self i ok
  obtain ⟨hlive, hcalls, hstate⟩ := h.silent
  rcases h.stage with ⟨hpc, hnone⟩ | hpc | ⟨hpc | hpc, hcbs⟩
  · left
    have hwon : s.action ok (.start_state Served.http_cbs) =
        (.start_assign Served.http_cbs, { s with state := state_started }) := if_pos hnone
    rw [hpc, hwon] at hself
    refine ⟨hothers, ?_, Or.inr (Or.inl hself)⟩
    rw [next_eq ok hpc, hwon]
    exact ⟨hlive, hcalls, nofun⟩
  · left
    rw [hpc] at hself
    refine ⟨hothers, ?_, Or.inr (Or.inr ⟨Or.inl hself, ?_⟩)⟩
    · rw [next_eq ok hpc]
      exact ⟨hlive, hcalls, hstate⟩
    · rw [next_eq ok hpc]
      rfl
  · rw [hpc] at hself
    cases ok with
    | true =>
      refine Or.inr (Or.inl ⟨hpc, hall hself, ?_, ?_⟩)
      · rw [next_eq true hpc]
        exact ⟨rfl, hcalls, hstate⟩
      · rw [next_eq true hpc]
        exact hcbs
    | false =>
      refine Or.inl ⟨hothers, ?_, Or.inr (Or.inr ⟨Or.inr hself, ?_⟩)⟩
      · rw [next_eq false hpc]
        exact ⟨hlive, hcalls, hstate⟩
      · rw [next_eq false hpc]
        exact hcbs
  · rw [hpc] at hself
    refine Or.inr (Or.inr ⟨by rw [hpc]; nofun, hall hself, ?_, ?_⟩)
    · rw [next_eq ok hpc]
      exact ⟨hlive, hcalls, nofun⟩
    · rw [next_eq ok hpc]
      exact hcbs

end LiveConnection

/-! ## Section 4: What the server keeps of a connection -/

theorem ConnectionPc.asks_plain {pc : ConnectionPc} (h : ¬ pc.beyond) : pc.asks = false := by
  cases pc with
  | upgrade_assign | read_packet | read_frame => exact absurd trivial h
  | _ => rfl

/-- The thread is in `on_accepted`. -/
def ServedPc.opening : ServedPc → Prop
  | accepted_insert | accepted_start | accepted_starting | accepted_erase => True
  | _ => False

/-- The thread is in `on_http_request`. -/
def ServedPc.requesting : ServedPc → Prop
  | request_cb | request_next | request_stop | request_erase => True
  | _ => False

/-- The thread is in `on_http_error`. -/
def ServedPc.erring : ServedPc → Prop
  | error_stop | error_erase => True
  | _ => False

namespace Served

variable {ι : Type}

/-- How far `on_accepted` is with the connection, in the thread `i`. -/
def Opened (i : ι) (k : Served ι) : ServedPc → Prop
  | .accepted_insert => k.conn = .new ∧ k.listed = false
  | .accepted_start => k.conn = .new ∧ k.listed = true
  | .accepted_starting => k.conn.Starting i ∧ k.listed = true
  | .accepted_erase => k.conn.Behind false ∧ k.listed = true
  | _ => False

/-- Nothing was read, and no request handed on. -/
def Unread (k : Served ι) : Prop := k.reads = 0 ∧ k.requests = 0

/-- The error callbacks that were called. -/
def errors (k : Served ι) : Nat := k.conn.calls.countP LiveConnection.is_error

/-- A thread is in `on_accepted`, and no other one is at the connection. -/
structure Opening (k : Served ι) (pcs : ι → ServedPc) (i : ι) : Prop where
  unread : k.Unread
  others : ∀ j, j ≠ i → pcs j = .away
  opened : k.Opened i (pcs i)

/-- The connection is in `conns_` while its transport is started and no error
    was reported, and where `on_http_error` has yet to erase it. -/
structure Booked (k : Served ι) (pcs : ι → ServedPc) : Prop where
  erring : ∀ i, (pcs i).erring → k.conn.live = true ∧ k.errors = 1 ∧ k.listed = true
  alone : ∀ i j, (pcs i).erring → (pcs j).erring → i = j
  listed : k.listed = true ↔ (∃ i, (pcs i).erring) ∨ k.conn.live = true ∧ k.errors = 0

/-- `on_accepted` is over. -/
structure Running (k : Served ι) (pcs : ι → ServedPc) : Prop where
  unread : k.Unread
  report : k.conn.ReportInv
  state : k.conn.state ≠ state_upgraded
  plain : ∀ i, ¬ (k.conn.pcs i).beyond
  places : ∀ i, pcs i = .away ∨ pcs i = .inside ∨ (pcs i).erring
  busy : ∀ i, k.conn.pcs i ≠ .idle → pcs i = .inside
  inside : ∀ i, pcs i = .inside → k.conn.live = true ∧ ¬ (k.conn.pcs i).in_start
  booked : k.Booked pcs
  http_cbs : k.conn.http_cbs = http_cbs

/-- **Invariant** of a connection. -/
def Kept (k : Served ι) (pcs : ι → ServedPc) : Prop :=
  (∃ i, k.Opening pcs i) ∨ k.Running pcs

theorem Kept.unread {k : Served ι} {pcs : ι → ServedPc} (h : k.Kept pcs) : k.Unread := by
  rcases h with ⟨i, hopening⟩ | hrun
  · exact hopening.unread
  · exact hrun.unread

/-- Behind `start_http` there is no error to report. -/
theorem behind_report {live : Bool} {conn : LiveConnection ι} (h : conn.Behind live) :
    conn.ReportInv := by
  refine ⟨?_, fun i => ?_, fun _ _ _ hmem => ?_⟩
  · rw [h.silent.calls]
    refine Once.start.keep (fun i hdue => ?_) id
    rw [h.pcs i] at hdue
    exact hdue
  · rw [h.pcs i]
    trivial
  · rw [h.silent.calls] at hmem
    cases hmem

/-- `on_accepted` is over: the connection is served, or erased again. -/
theorem running_of_behind {live : Bool} {k : Served ι} {pcs : ι → ServedPc} (hunread : k.Unread)
    (h : k.conn.Behind live) (hpcs : ∀ i, pcs i = .away) (hlisted : k.listed = live) :
    k.Running pcs := by
  have hno : ∀ i, ¬ (pcs i).erring := by
    intro i herr
    rw [hpcs i] at herr
    exact herr
  refine ⟨hunread, behind_report h, h.silent.state, fun i hbeyond => ?_, fun i => Or.inl (hpcs i),
    fun i hbusy => absurd (h.pcs i) hbusy, fun i hin => ?_, ⟨fun i herr => absurd herr (hno i),
    fun i _ herr => absurd herr (hno i), ?_⟩, h.http_cbs⟩
  · rw [h.pcs i] at hbeyond
    exact hbeyond
  · rw [hpcs i] at hin
    cases hin
  · have hzero : k.errors = 0 := by
      unfold errors
      rw [h.silent.calls]
      rfl
    rw [hlisted, h.silent.live]
    constructor
    · intro hlive
      exact Or.inr ⟨hlive, hzero⟩
    · rintro (⟨i, herr⟩ | ⟨hlive, -⟩)
      · exact absurd herr (hno i)
      · exact hlive

/-- Neither an error nor an entry comes or goes. -/
theorem Booked.keep {k k' : Served ι} {pcs pcs' : ι → ServedPc} (h : k.Booked pcs)
    (herring : ∀ j, (pcs' j).erring ↔ (pcs j).erring) (hlive : k'.conn.live = k.conn.live)
    (herrors : k'.errors = k.errors) (hlisted : k'.listed = k.listed) : k'.Booked pcs' := by
  refine ⟨fun i herr => ?_, fun i j herr herr' => ?_, ?_⟩
  · rw [hlive, herrors, hlisted]
    exact h.erring i ((herring i).mp herr)
  · exact h.alone i j ((herring i).mp herr) ((herring j).mp herr')
  · rw [hlive, herrors, hlisted, h.listed]
    simp only [herring]

variable [DecidableEq ι]

/-- `on_accepted` goes on. -/
theorem Opening.action {k : Served ι} {pcs : ι → ServedPc} {i : ι} (h : k.Opening pcs i) (ok : Bool) :
    (k.action true i ok (pcs i)).2.Kept (Function.update pcs i (k.action true i ok (pcs i)).1) := by
  have hothers : ∀ pc j, j ≠ i → Function.update pcs i pc j = .away := by
    intro pc j hji
    rw [Function.update_of_ne hji]
    exact h.others j hji
  have haway : ∀ j, Function.update pcs i .away j = .away := by
    intro j
    by_cases hji : j = i
    · rw [hji, Function.update_self]
    · exact hothers .away j hji
  have hopened := h.opened
  cases hpc : pcs i with
  | accepted_insert =>
    rw [hpc] at hopened
    refine Or.inl ⟨i, h.unread, hothers _, ?_⟩
    rw [Function.update_self]
    exact ⟨hopened.1, rfl⟩
  | accepted_start =>
    rw [hpc] at hopened
    have henter : k.enter (.start_http i true true http_cbs) =
        some { k with conn := LiveConnection.new.goto i (.start_state http_cbs) } := by
      unfold Served.enter
      rw [hopened.1]
      rfl
    have hself : (LiveConnection.new.goto i (.start_state http_cbs)).pcs i = .start_state http_cbs :=
      Function.update_self _ _ _
    have haction : k.action true i ok .accepted_start = (.accepted_starting,
        { k with conn := LiveConnection.new.goto i (.start_state http_cbs) }) := by
      simp only [Served.action, henter, hself, reduceCtorEq, if_false]
    rw [haction]
    refine Or.inl ⟨i, h.unread, hothers _, ?_⟩
    rw [Function.update_self]
    refine ⟨⟨fun j hji => ?_, ⟨rfl, rfl, nofun⟩, Or.inl ⟨hself, rfl⟩⟩, hopened.2⟩
    exact Function.update_of_ne hji _ _
  | accepted_starting =>
    rw [hpc] at hopened
    obtain ⟨hstarting, hlisted⟩ := hopened
    rcases hstarting.next ok with hnext | ⟨htransport, hbehind⟩ | ⟨htransport, hbehind⟩
    · have haction : k.action true i ok .accepted_starting =
          (.accepted_starting, { k with conn := k.conn.next i ok }) := by
        simp only [Served.action, if_pos hnext.busy]
      rw [haction]
      refine Or.inl ⟨i, h.unread, hothers _, ?_⟩
      rw [Function.update_self]
      exact ⟨hnext, hlisted⟩
    · have haction : k.action true i ok .accepted_starting =
          (.away, { k with conn := k.conn.next i ok }) := by
        simp only [Served.action, hbehind.pcs i, htransport, ne_eq, not_true_eq_false, if_false,
          if_true]
      rw [haction]
      exact Or.inr (running_of_behind h.unread hbehind haway hlisted)
    · have haction : k.action true i ok .accepted_starting =
          (.accepted_erase, { k with conn := k.conn.next i ok }) := by
        simp only [Served.action, hbehind.pcs i, htransport, ne_eq, not_true_eq_false, if_false]
      rw [haction]
      refine Or.inl ⟨i, h.unread, hothers _, ?_⟩
      rw [Function.update_self]
      exact ⟨hbehind, hlisted⟩
  | accepted_erase =>
    rw [hpc] at hopened
    exact Or.inr (running_of_behind h.unread hopened.1 haway rfl)
  | _ =>
    rw [hpc] at hopened
    exact hopened.elim

/-- Where a thread goes from a step in a callback. -/
theorem leave_cases {k : Served ι} {i : ι} (ok : Bool) (hstate : k.conn.state ≠ state_upgraded)
    (hstart : ¬ (k.conn.pcs i).in_start) (hbeyond : ¬ (k.conn.pcs i).beyond) :
    (k.leave i (k.conn.next i ok) = .error_stop ∧ LiveConnection.Due (k.conn.pcs i) ∧
        (k.conn.next i ok).pcs i = .idle ∧
        (k.conn.next i ok).calls.countP LiveConnection.is_error = k.errors + 1) ∨
      (k.leave i (k.conn.next i ok) = (if (k.conn.next i ok).pcs i = .idle then .away else .inside) ∧
        (k.conn.next i ok).calls = k.conn.calls) := by
  have hplain := k.conn.action_plain ok hstate hstart hbeyond
  rcases hplain.calls with ⟨hno, hcalls⟩ | ⟨⟨msg, hpc⟩, hidle, hcount⟩
  · right
    refine ⟨?_, hcalls⟩
    unfold leave
    split
    · next hpc =>
      rw [hpc] at hbeyond
      exact absurd trivial hbeyond
    · next msg hpc => exact absurd hpc (hno msg)
    · rfl
  · left
    refine ⟨?_, ?_, ?_, hcount⟩
    · unfold leave
      rw [hpc]
    · rw [hpc]
      trivial
    · rw [k.conn.next_self]
      exact hidle

/-- The first error is reported. -/
theorem Booked.report {k k' : Served ι} {pcs : ι → ServedPc} {i : ι} (h : k.Booked pcs)
    (hlive : k.conn.live = true) (hzero : k.errors = 0) (hlive' : k'.conn.live = true)
    (hone : k'.errors = 1) (hlisted : k'.listed = k.listed) :
    k'.Booked (Function.update pcs i .error_stop) := by
  have hin : k'.listed = true := hlisted.trans (h.listed.mpr (Or.inr ⟨hlive, hzero⟩))
  have honly : ∀ j, (Function.update pcs i ServedPc.error_stop j).erring → j = i := by
    intro j herr
    by_contra hji
    rw [Function.update_of_ne hji] at herr
    have hbefore := (h.erring j herr).2.1
    omega
  refine ⟨fun _ _ => ⟨hlive', hone, hin⟩, fun j j' herr herr' => ?_, fun _ => Or.inl ⟨i, ?_⟩,
    fun _ => hin⟩
  · rw [honly j herr, honly j' herr']
  · rw [Function.update_self]
    trivial

/-- The connection is erased. -/
theorem Booked.erase {k : Served ι} {pcs : ι → ServedPc} {i : ι} (h : k.Booked pcs)
    (hi : (pcs i).erring) :
    Booked { k with listed := false } (Function.update pcs i .away) := by
  have hno : ∀ j, ¬ (Function.update pcs i ServedPc.away j).erring := by
    intro j herr
    by_cases hji : j = i
    · rw [hji, Function.update_self] at herr
      exact herr
    · rw [Function.update_of_ne hji] at herr
      exact hji (h.alone j i herr hi)
  refine ⟨fun j herr => absurd herr (hno j), fun j _ herr => absurd herr (hno j), nofun, ?_⟩
  rintro (⟨j, herr⟩ | ⟨-, hzero⟩)
  · exact absurd herr (hno j)
  · have hone : k.errors = 1 := (h.erring i hi).2.1
    have hzero' : k.errors = 0 := hzero
    omega

/-- Thread `i` goes to `pc`; the connection may change, but not for the others. -/
theorem Running.goes {k k' : Served ι} {pcs : ι → ServedPc} {i : ι} (h : k.Running pcs)
    (pc : ServedPc) (hunread : k'.Unread) (hreport : k'.conn.ReportInv)
    (hstate : k'.conn.state ≠ state_upgraded) (hplain : ¬ (k'.conn.pcs i).beyond)
    (hothers : ∀ j, j ≠ i → k'.conn.pcs j = k.conn.pcs j) (hlive : k'.conn.live = k.conn.live)
    (hplace : pc = .away ∨ pc = .inside ∨ pc.erring) (hbusy : k'.conn.pcs i ≠ .idle → pc = .inside)
    (hinside : pc = .inside → k.conn.live = true ∧ ¬ (k'.conn.pcs i).in_start)
    (hbooked : k'.Booked (Function.update pcs i pc)) (hcbs : k'.conn.http_cbs = k.conn.http_cbs) :
    k'.Running (Function.update pcs i pc) := by
  refine ⟨hunread, hreport, hstate, fun j => ?_, fun j => ?_, fun j => ?_, fun j => ?_, hbooked,
    hcbs.trans h.http_cbs⟩
  · by_cases hji : j = i
    · rwa [hji]
    · rw [hothers j hji]
      exact h.plain j
  · by_cases hji : j = i
    · rwa [hji, Function.update_self]
    · rw [Function.update_of_ne hji]
      exact h.places j
  · by_cases hji : j = i
    · rwa [hji, Function.update_self]
    · rw [Function.update_of_ne hji, hothers j hji]
      exact h.busy j
  · by_cases hji : j = i
    · rwa [hji, Function.update_self, hlive]
    · rw [Function.update_of_ne hji, hothers j hji, hlive]
      exact h.inside j

/-- A step in a callback of the transport. -/
theorem Running.step_inside {k : Served ι} {pcs : ι → ServedPc} {i : ι} (h : k.Running pcs)
    (hpc : pcs i = .inside) (ok : Bool) :
    (k.action true i ok .inside).2.Running (Function.update pcs i (k.action true i ok .inside).1) := by
  obtain ⟨hlive, hstart⟩ := h.inside i hpc
  have hplain := k.conn.action_plain ok h.state hstart (h.plain i)
  have hunread : (k.action true i ok .inside).2.Unread := by
    refine ⟨?_, h.unread.2⟩
    simp only [Served.action, ConnectionPc.asks_plain (h.plain i)]
    exact h.unread.1
  have hgoes := fun pc => h.goes pc hunread
    (LiveConnection.next_reportInv h.report i ok) hplain.state
    (k.conn.next_self i ok ▸ hplain.beyond) (fun _ hji => k.conn.next_other ok hji) hplain.live
  rcases leave_cases ok h.state hstart (h.plain i) with
    ⟨hleave, hdue, hidle, hcount⟩ | ⟨hleave, hcalls⟩
  · -- the error is reported, and it is the first
    have hzero : k.errors = 0 := (h.report.once.due_ended i hdue).1
    rw [show (k.action true i ok .inside).1 = .error_stop from hleave]
    refine hgoes _ (Or.inr (Or.inr trivial)) (fun hbusy => absurd hidle hbusy) nofun ?_
      hplain.http_cbs
    refine h.booked.report hlive hzero (hplain.live.trans hlive) ?_ rfl
    rw [← Nat.zero_add 1, ← hzero]
    exact hcount
  · have hkeep : ∀ pc : ServedPc, ¬ pc.erring →
        (k.action true i ok .inside).2.Booked (Function.update pcs i pc) := by
      intro pc hpc'
      refine h.booked.keep (fun j => ?_) hplain.live
        (congrArg (List.countP LiveConnection.is_error) hcalls) rfl
      by_cases hji : j = i
      · rw [hji, Function.update_self, hpc]
        exact ⟨fun herr => absurd herr hpc', fun herr => herr.elim⟩
      · rw [Function.update_of_ne hji]
    rw [show (k.action true i ok .inside).1 = _ from hleave]
    split
    · next hidle =>
      exact hgoes _ (Or.inl rfl) (fun hbusy => absurd hidle hbusy) nofun (hkeep _ id) hplain.http_cbs
    · refine hgoes _ (Or.inr (Or.inl rfl)) (fun _ => rfl) (fun _ => ⟨hlive, ?_⟩) (hkeep _ id)
        hplain.http_cbs
      exact k.conn.next_self i ok ▸ hplain.in_start

/-- **Steps.** A thread that is at the connection goes on. -/
theorem Kept.action {k : Served ι} {pcs : ι → ServedPc} {i : ι} (h : k.Kept pcs)
    (hi : pcs i ≠ .away) (ok : Bool) :
    (k.action true i ok (pcs i)).2.Kept (Function.update pcs i (k.action true i ok (pcs i)).1) := by
  rcases h with ⟨j, hopening⟩ | hrun
  · obtain rfl : i = j := by
      by_contra hij
      exact hi (hopening.others i hij)
    exact hopening.action ok
  right
  rcases hrun.places i with hpc | hpc | herr
  · exact absurd hpc hi
  · rw [hpc]
    exact hrun.step_inside hpc ok
  · have hidle : k.conn.pcs i = .idle := by
      by_contra hbusy
      rw [hrun.busy i hbusy] at herr
      exact herr
    cases hpc : pcs i with
    | error_stop =>
      refine hrun.goes .error_erase hrun.unread hrun.report hrun.state (hrun.plain i) (fun _ _ => rfl) rfl
        (Or.inr (Or.inr trivial)) (fun hbusy => absurd hidle hbusy) nofun ?_ rfl
      refine hrun.booked.keep (fun j => ?_) rfl rfl rfl
      by_cases hji : j = i
      · rw [hji, Function.update_self, hpc]
        exact ⟨fun _ => trivial, fun _ => trivial⟩
      · rw [Function.update_of_ne hji]
    | error_erase =>
      exact hrun.goes .away hrun.unread hrun.report hrun.state (hrun.plain i) (fun _ _ => rfl) rfl
        (Or.inl rfl) (fun hbusy => absurd hidle hbusy) nofun (hrun.booked.erase herr) rfl
    | _ =>
      rw [hpc] at herr
      exact herr.elim

omit [DecidableEq ι] in
/-- Before `start_http` has succeeded the transport calls nobody back. -/
theorem Opening.not_live {k : Served ι} {pcs : ι → ServedPc} {i : ι} (h : k.Opening pcs i) :
    k.conn.live = false := by
  have hopened := h.opened
  cases hpc : pcs i with
  | accepted_insert | accepted_start =>
    rw [hpc] at hopened
    rw [hopened.1]
    rfl
  | accepted_starting | accepted_erase =>
    rw [hpc] at hopened
    exact hopened.1.silent.live
  | _ =>
    rw [hpc] at hopened
    exact hopened.elim

/-- The transport ends, in a thread that was elsewhere. -/
theorem Kept.on_end {k k' : Served ι} {pcs : ι → ServedPc} {i : ι} (h : k.Kept pcs)
    (hi : pcs i = .away) (e : ConnectionEnd)
    (henter : k.enter (match e with
      | .disconnected => .on_disconnected i
      | .stopped => .on_stopped i) = some k') : k'.Kept (Function.update pcs i .inside) := by
  obtain ⟨conn, hconn, rfl⟩ := Option.map_eq_some_iff.mp henter
  obtain ⟨hlive, heq⟩ : k.conn.live = true ∧ conn = k.conn.goto i (.end_load e) := by
    cases e with
    | disconnected | stopped =>
      simp only [LiveConnection.step, LiveConnection.enter] at hconn
      split at hconn
      · next hlive =>
        split at hconn
        · exact ⟨hlive, (Option.some.inj hconn).symm⟩
        · cases hconn
      · cases hconn
  rcases h with ⟨j, hopening⟩ | hrun
  · rw [hopening.not_live] at hlive
    cases hlive
  right
  have hreport : conn.ReportInv := LiveConnection.step_reportInv hrun.report hconn
  have hself : conn.pcs i = .end_load e := by
    rw [heq]
    exact Function.update_self _ _ _
  have hothers : ∀ j, j ≠ i → conn.pcs j = k.conn.pcs j := by
    intro j hji
    rw [heq]
    exact Function.update_of_ne hji _ _
  refine hrun.goes .inside hrun.unread hreport ?_ ?_ hothers ?_ (Or.inr (Or.inl rfl)) (fun _ => rfl)
    (fun _ => ⟨hlive, ?_⟩) ?_ ?_
  · rw [heq]
    exact hrun.state
  · rw [hself]
    exact id
  · rw [heq]
    rfl
  · rw [hself]
    exact id
  · refine hrun.booked.keep (fun j => ?_) ?_ ?_ rfl
    · by_cases hji : j = i
      · rw [hji, Function.update_self, hi]
        exact ⟨fun herr => herr.elim, fun herr => herr.elim⟩
      · rw [Function.update_of_ne hji]
    · rw [heq]
      rfl
    · rw [heq]
      rfl
  · rw [heq]
    rfl

omit [DecidableEq ι] in
/-- `stop` of the connection bears on its transport only. -/
theorem Kept.stopped {k : Served ι} {pcs : ι → ServedPc} (h : k.Kept pcs) (stopped : Bool) :
    Kept { k with stopped := stopped } pcs := by
  rcases h with ⟨i, hopening⟩ | hrun
  · refine Or.inl ⟨i, hopening.unread, hopening.others, ?_⟩
    have hopened := hopening.opened
    cases hpc : pcs i with
    | _ =>
      rw [hpc] at hopened
      exact hopened
  · exact Or.inr ⟨hrun.unread, hrun.report, hrun.state, hrun.plain, hrun.places, hrun.busy, hrun.inside,
      ⟨hrun.booked.erring, hrun.booked.alone, hrun.booked.listed⟩, hrun.http_cbs⟩

end Served

/-! ## Section 5: What the server keeps -/

/-- Where the thread is with the connection `c`. -/
def ServerPc.at (c : Nat) : ServerPc → ServedPc
  | .conn c' pc => if c' = c then pc else .away
  | _ => .away

/-- Whether the thread is in `on_stopped`. -/
def ServerPc.stopping : ServerPc → ℤ
  | stopped_conns | stopped_cb => 1
  | _ => 0

theorem ServerPc.stopping_nonneg (pc : ServerPc) : 0 ≤ pc.stopping := by
  cases pc with
  | idle | conn => exact le_refl 0
  | stopped_conns | stopped_cb => exact Int.one_nonneg

namespace Server

variable {ι : Type}

/-- The threads as the connection `c` sees them. -/
def view (s : Server ι) (c : Nat) : ι → ServedPc := fun i => (s.pcs i).at c

/-- The acceptors that have called `on_stopped`. -/
def ended (s : Server ι) : Nat := s.acceptors.countP ServerAcceptor.stopped

/-- What the two `start` leave: the first acceptor is one without TLS, and the
    others have it. -/
structure Acceptors (s : Server ι) : Prop where
  sv : s.acceptors ≠ [] → s.sv = true
  none : s.acceptor = none ↔ s.acceptors = []
  kinds : ∀ k ks, s.acceptors.map ServerAcceptor.kind = k :: ks → k = .tcp ∧ ∀ k' ∈ ks, k' = .tls

/-- **Invariant.** -/
structure Inv (s : Server ι) : Prop where
  acceptors : s.Acceptors
  begun : s.accepted ≠ 0 → s.acceptors ≠ []
  kept : ∀ c, c < s.accepted → (s.conns c).Kept (s.view c)
  fresh : ∀ c, s.accepted ≤ c → s.conns c = .new ∧ ∀ i, s.view c i = .away
  proper : ∀ i c, s.pcs i ≠ .conn c .away
  stops : Total (fun i => (s.pcs i).stopping) (s.ended - s.stops)

theorem inv_new : Inv (new : Server ι) :=
  ⟨⟨fun h => absurd rfl h, ⟨fun _ => rfl, fun _ => rfl⟩, fun _ _ => nofun⟩, fun h => absurd rfl h,
    fun _ => nofun, fun _ _ => ⟨rfl, fun _ => rfl⟩, fun _ _ => nofun, Total.start fun _ => rfl⟩

theorem Inv.unread {s : Server ι} (h : s.Inv) (c : Nat) : (s.conns c).Unread := by
  by_cases hc : c < s.accepted
  · exact (h.kept c hc).unread
  · rw [(h.fresh c (not_lt.mp hc)).1]
    exact ⟨rfl, rfl⟩

/-- An acceptor is added. -/
theorem Acceptors.add {s : Server ι} (h : s.Acceptors) {k : AcceptorKind}
    (hmay : s.may_start k = true) :
    Acceptors { s with
      sv := true
      acceptor := some s.acceptors.length
      acceptors := s.acceptors ++ [⟨k, false, false⟩] } := by
  refine ⟨fun _ => rfl, ⟨nofun, fun hnil => ?_⟩, fun k' ks hks => ?_⟩
  · exact absurd hnil (List.append_ne_nil_of_right_ne_nil _ (List.cons_ne_nil _ []))
  · rw [List.map_append] at hks
    cases hmap : s.acceptors.map ServerAcceptor.kind with
    | nil =>
      -- only `start` without credentials comes through
      rw [hmap] at hks
      have hnone := h.none.mpr (List.map_eq_nil_iff.mp hmap)
      obtain ⟨rfl, rfl⟩ := List.cons.inj hks
      cases k with
      | tcp => exact ⟨rfl, fun _ hk' => absurd hk' List.not_mem_nil⟩
      | tls =>
        simp only [may_start, hnone] at hmay
        cases hmay
    | cons k₀ ks₀ =>
      rw [hmap, List.cons_append] at hks
      obtain ⟨rfl, rfl⟩ := List.cons.inj hks
      have hkinds := h.kinds _ _ hmap
      refine ⟨hkinds.1, fun k' hk' => ?_⟩
      rcases List.mem_append.mp hk' with hk' | hk'
      · exact hkinds.2 k' hk'
      · rw [List.mem_singleton.mp hk']
        cases k with
        | tls => rfl
        | tcp =>
          have hnone := h.none.mp (Option.isNone_iff_eq_none.mp hmay)
          rw [hnone] at hmap
          cases hmap

theorem start_inv {s : Server ι} (h : s.Inv) (k : AcceptorKind) (sv cbs ok : Bool) :
    (s.start k sv cbs ok).Inv := by
  unfold start
  split
  · next hmay =>
    cases ok with
    | true =>
      have hk : s.may_start k = true := (Bool.and_eq_true_iff.mp hmay).2
      refine ⟨h.acceptors.add hk, fun _ => ?_, h.kept, h.fresh, h.proper, ?_⟩
      · exact List.append_ne_nil_of_right_ne_nil _ (List.cons_ne_nil _ [])
      · have hended : (s.acceptors ++ [(⟨k, false, false⟩ : ServerAcceptor)]).countP ServerAcceptor.stopped = s.ended := by
          rw [List.countP_append]
          rfl
        show Total _ (((s.acceptors ++ [(⟨k, false, false⟩ : ServerAcceptor)]).countP ServerAcceptor.stopped : ℕ) - _)
        rw [hended]
        exact h.stops
    | false =>
      exact ⟨⟨fun _ => rfl, h.acceptors.none, h.acceptors.kinds⟩, h.begun, h.kept, h.fresh, h.proper,
        h.stops⟩
  · exact h

/-- An acceptor stays what it is. -/
theorem set_kinds {acceptors : List ServerAcceptor} {a : Nat} {acc acc' : ServerAcceptor}
    (ha : acceptors[a]? = some acc) (hkind : acc'.kind = acc.kind) :
    (acceptors.set a acc').map ServerAcceptor.kind = acceptors.map ServerAcceptor.kind := by
  rw [List.map_set]
  apply List.ext_getElem?
  intro n
  by_cases hn : a = n
  · rw [← hn, List.getElem?_map, ha, List.getElem?_set_self, hkind]
    · rfl
    · rw [List.length_map]
      exact (List.getElem?_eq_some_iff.mp ha).1
  · rw [List.getElem?_set_ne hn]

theorem set_nil {acceptors : List ServerAcceptor} {a : Nat} {acc : ServerAcceptor} :
    acceptors.set a acc = [] ↔ acceptors = [] := by
  rw [← List.length_eq_zero_iff, List.length_set, List.length_eq_zero_iff]

theorem Acceptors.set {s : Server ι} (h : s.Acceptors) {a : Nat} {acc acc' : ServerAcceptor}
    (ha : s.acceptors[a]? = some acc) (hkind : acc'.kind = acc.kind) :
    Acceptors { s with acceptors := s.acceptors.set a acc' } := by
  refine ⟨fun hne => h.sv fun heq => hne (set_nil.mpr heq), h.none.trans set_nil.symm,
    fun k ks hks => ?_⟩
  rw [set_kinds ha hkind] at hks
  exact h.kinds k ks hks

/-- The acceptors that have ended, with one of them set. -/
theorem set_ended {acceptors : List ServerAcceptor} {a : Nat} {acc : ServerAcceptor}
    (ha : acceptors[a]? = some acc) (acc' : ServerAcceptor) :
    ((acceptors.set a acc').countP ServerAcceptor.stopped : ℤ) =
      acceptors.countP ServerAcceptor.stopped - acc.stopped.toNat + acc'.stopped.toNat := by
  obtain ⟨hlt, rfl⟩ := List.getElem?_eq_some_iff.mp ha
  have hpos : acceptors[a].stopped = true → 0 < acceptors.countP ServerAcceptor.stopped :=
    fun hstopped => List.countP_pos_iff.mpr ⟨_, List.getElem_mem hlt, hstopped⟩
  rw [List.countP_set hlt]
  cases hold : acceptors[a].stopped with
  | true =>
    have hone := hpos hold
    cases acc'.stopped <;> simp <;> omega
  | false => cases acc'.stopped <;> simp

theorem stop_inv {s : Server ι} (h : s.Inv) : s.stop.Inv := by
  unfold stop
  split
  · exact h
  split
  · exact h
  next acc hacc =>
  refine ⟨h.acceptors.set hacc rfl, fun hne => ?_, h.kept, h.fresh, h.proper, ?_⟩
  · exact fun heq => h.begun hne (set_nil.mp heq)
  · have hsame := set_ended hacc { acc with stopping := true }
    rw [sub_add_cancel] at hsame
    show Total _ (((s.acceptors.set _ _).countP ServerAcceptor.stopped : ℕ) - (s.stops : ℤ))
    rw [hsame]
    exact h.stops

theorem stop_listed_inv {s : Server ι} (h : s.Inv) : s.stop_listed.Inv := by
  refine ⟨⟨h.acceptors.sv, h.acceptors.none, h.acceptors.kinds⟩, h.begun, fun c hc => ?_,
    fun c hc => ?_, h.proper, h.stops⟩
  · show Served.Kept (if (s.conns c).listed then _ else _) (s.view c)
    split
    · exact (h.kept c hc).stopped true
    · exact h.kept c hc
  · have hnew := (h.fresh c hc).1
    refine ⟨?_, (h.fresh c hc).2⟩
    show (if (s.conns c).listed then _ else _) = _
    rw [hnew]
    rfl

variable [DecidableEq ι]

theorem view_self (s : Server ι) (i : ι) (c : Nat) (r : ServedPc × Served ι) :
    (s.at_conn i c r).view c = Function.update (s.view c) i r.1 := by
  funext j
  show (Function.update s.pcs i _ j).at c = _
  by_cases hji : j = i
  · rw [hji, Function.update_self, Function.update_self]
    split
    · next haway => exact haway.symm
    · exact if_pos rfl
  · rw [Function.update_of_ne hji, Function.update_of_ne hji]
    rfl

theorem view_other (s : Server ι) {i : ι} {c c' : Nat} (r : ServedPc × Served ι) (hc : c' ≠ c)
    (haway : s.view c' i = .away) : (s.at_conn i c r).view c' = s.view c' := by
  funext j
  show (Function.update s.pcs i _ j).at c' = _
  by_cases hji : j = i
  · rw [hji, Function.update_self, haway]
    split
    · rfl
    · exact if_neg fun heq => hc heq.symm
  · rw [Function.update_of_ne hji]
    rfl

/-- The invariant, but for the connection `c`. -/
structure InvBut (c : Nat) (s : Server ι) : Prop where
  acceptors : s.Acceptors
  begun : s.accepted ≠ 0 → s.acceptors ≠ []
  kept : ∀ c', c' ≠ c → c' < s.accepted → (s.conns c').Kept (s.view c')
  fresh : ∀ c', c' ≠ c → s.accepted ≤ c' → s.conns c' = .new ∧ ∀ i, s.view c' i = .away
  proper : ∀ i c', s.pcs i ≠ .conn c' .away
  stops : Total (fun i => (s.pcs i).stopping) (s.ended - s.stops)

omit [DecidableEq ι] in
theorem Inv.but {s : Server ι} (h : s.Inv) (c : Nat) : s.InvBut c :=
  ⟨h.acceptors, h.begun, fun c' _ => h.kept c', fun c' _ => h.fresh c', h.proper, h.stops⟩

/-- A thread goes on with a connection. -/
theorem InvBut.at_conn {s : Server ι} {i : ι} {c : Nat} {r : ServedPc × Served ι} (h : s.InvBut c)
    (hc : c < s.accepted) (hstop : (s.pcs i).stopping = 0)
    (haway : ∀ c', c' ≠ c → s.view c' i = .away)
    (hkept : r.2.Kept (Function.update (s.view c) i r.1)) : (s.at_conn i c r).Inv := by
  refine ⟨⟨h.acceptors.sv, h.acceptors.none, h.acceptors.kinds⟩, h.begun, fun c' hc' => ?_,
    fun c' hc' => ?_, fun j c' => ?_, ?_⟩
  · show Served.Kept (Function.update s.conns c r.2 c') _
    by_cases heq : c' = c
    · rw [heq, Function.update_self, view_self]
      exact hkept
    · rw [Function.update_of_ne heq, s.view_other r heq (haway c' heq)]
      exact h.kept c' heq hc'
  · have heq : c' ≠ c := by
      rintro rfl
      exact absurd hc (not_lt.mpr hc')
    rw [s.view_other r heq (haway c' heq)]
    show Function.update s.conns c r.2 c' = _ ∧ _
    rw [Function.update_of_ne heq]
    exact h.fresh c' heq hc'
  · show Function.update s.pcs i _ j ≠ _
    by_cases hji : j = i
    · rw [hji, Function.update_self]
      split
      · nofun
      · next hne =>
        intro heq
        exact hne (ServerPc.conn.inj heq).2
    · rw [Function.update_of_ne hji]
      exact h.proper j c'
  · have hmove := h.stops.move i (if r.1 = .away then .idle else .conn c r.1)
    have hzero : (if r.1 = .away then ServerPc.idle else .conn c r.1).stopping = 0 := by
      split <;> rfl
    rw [hstop, hzero, sub_zero, add_zero] at hmove
    exact hmove

/-- A thread that is at no connection goes on with `on_stopped`. -/
theorem Inv.goto {s : Server ι} (h : s.Inv) {i : ι} {pc : ServerPc}
    {acceptors : List ServerAcceptor} {stops : Nat} (hacc : Acceptors { s with acceptors := acceptors })
    (hnil : acceptors = [] → s.acceptors = []) (hi : ∀ c, (s.pcs i).at c = .away)
    (hpc : ∀ c, pc.at c = .away) (hproper : ∀ c, pc ≠ .conn c .away)
    (hstops : (s.ended : ℤ) - s.stops - (s.pcs i).stopping + pc.stopping =
      acceptors.countP ServerAcceptor.stopped - stops) :
    (({ s with acceptors := acceptors, stops := stops } : Server ι).goto i pc).Inv := by
  have hview : ∀ c, (({ s with acceptors := acceptors, stops := stops } :
      Server ι).goto i pc).view c = s.view c := by
    intro c
    funext j
    show (Function.update s.pcs i pc j).at c = (s.pcs j).at c
    by_cases hji : j = i
    · rw [hji, Function.update_self, hpc c, hi c]
    · rw [Function.update_of_ne hji]
  refine ⟨⟨hacc.sv, hacc.none, hacc.kinds⟩, fun hne hempty => h.begun hne (hnil hempty),
    fun c hc => ?_, fun c hc => ?_, fun j c => ?_, ?_⟩
  · rw [hview]
    exact h.kept c hc
  · rw [hview]
    exact h.fresh c hc
  · show Function.update s.pcs i pc j ≠ _
    by_cases hji : j = i
    · rw [hji, Function.update_self]
      exact hproper c
    · rw [Function.update_of_ne hji]
      exact h.proper j c
  · have hmove := h.stops.move i pc
    rw [hstops] at hmove
    exact hmove

/-- A connection is accepted. -/
theorem accept_inv {s : Server ι} (h : s.Inv) {i : ι} (hi : s.pcs i = .idle)
    (hbegun : s.acceptors ≠ []) :
    (({ s with accepted := s.accepted + 1 } : Server ι).at_conn i s.accepted
      (.accepted_insert, s.conns s.accepted)).Inv := by
  obtain ⟨hnew, haway⟩ := h.fresh s.accepted (le_refl _)
  have hbut : ({ s with accepted := s.accepted + 1 } : Server ι).InvBut s.accepted := by
    refine ⟨⟨h.acceptors.sv, h.acceptors.none, h.acceptors.kinds⟩, fun _ => hbegun,
      fun c hne hc => h.kept c (lt_of_le_of_ne (Nat.lt_succ_iff.mp hc) hne),
      fun c _ hc => h.fresh c (le_trans (Nat.le_succ _) hc), h.proper, h.stops⟩
  have hidle : ({ s with accepted := s.accepted + 1 } : Server ι).pcs i = .idle := hi
  refine hbut.at_conn (Nat.lt_succ_self _) (by rw [hidle]; rfl) (fun c _ => ?_) ?_
  · show (s.pcs i).at c = .away
    rw [hi]
    rfl
  · refine Or.inl ⟨i, ?_, fun j hji => ?_, ?_⟩
    · rw [hnew]
      exact ⟨rfl, rfl⟩
    · rw [Function.update_of_ne hji]
      exact haway j
    · rw [Function.update_self, hnew]
      exact ⟨rfl, rfl⟩

omit [DecidableEq ι] in
theorem view_idle {s : Server ι} {i : ι} (hi : s.pcs i = .idle) (c : Nat) : s.view c i = .away := by
  show (s.pcs i).at c = .away
  rw [hi]
  rfl

/-- A transport ends. -/
theorem on_end_inv {s s' : Server ι} (h : s.Inv) {i : ι} {c : Nat} {e : ConnectionEnd}
    (hs : s.step (.on_end i c e) = some s') : s'.Inv := by
  simp only [step, enter] at hs
  split at hs
  · next hi =>
    obtain ⟨k, hk, rfl⟩ := Option.map_eq_some_iff.mp hs
    have hc : c < s.accepted := by
      by_contra hc
      rw [(h.fresh c (not_lt.mp hc)).1] at hk
      cases e with
      | disconnected | stopped => cases hk
    refine (h.but c).at_conn hc (by rw [hi]; rfl) (fun c' _ => view_idle hi c') ?_
    exact (h.kept c hc).on_end (view_idle hi c) e hk
  · cases hs

/-- A thread takes its next step. -/
theorem action_inv {s : Server ι} (h : s.Inv) (i : ι) (ok : Bool) : (s.action i ok (s.pcs i)).Inv := by
  cases hpc : s.pcs i with
  | idle => exact h
  | conn c pc =>
    have hview : s.view c i = pc := by
      show (s.pcs i).at c = pc
      rw [hpc]
      exact if_pos rfl
    have hne : pc ≠ .away := by
      rintro rfl
      exact h.proper i c hpc
    have hc : c < s.accepted := by
      by_contra hc
      rw [(h.fresh c (not_lt.mp hc)).2 i] at hview
      exact hne hview.symm
    have hsv : s.sv = true := h.acceptors.sv (h.begun (Nat.ne_of_gt (lt_of_le_of_lt (Nat.zero_le c) hc)))
    simp only [Server.action, hsv]
    refine (h.but c).at_conn hc (by rw [hpc]; rfl) (fun c' hc' => ?_) ?_
    · show (s.pcs i).at c' = .away
      rw [hpc]
      exact if_neg fun heq => hc' heq.symm
    · rw [← hview]
      exact (h.kept c hc).action (by rwa [hview]) ok
  | stopped_conns =>
    have hinv := stop_listed_inv h
    refine hinv.goto hinv.acceptors id (fun c => ?_) (fun _ => rfl) (fun _ => by nofun) ?_
    · show (s.pcs i).at c = .away
      rw [hpc]
      rfl
    · show (s.ended : ℤ) - s.stops - (s.pcs i).stopping + 1 = s.ended - s.stops
      rw [hpc]
      exact sub_add_cancel _ _
  | stopped_cb =>
    refine h.goto h.acceptors id (fun c => ?_) (fun _ => rfl) (fun _ => by nofun) ?_
    · rw [hpc]
      rfl
    · rw [hpc]
      simp only [ServerPc.stopping, ended]
      push_cast
      ring

/-- An acceptor that has not called `on_stopped` does. -/
theorem on_stopped_inv {s : Server ι} (h : s.Inv) {i : ι} {a : Nat} {acc : ServerAcceptor}
    (hacc : s.acceptors[a]? = some acc) (hi : s.pcs i = .idle) (hnot : acc.stopped = false) :
    (({ s with acceptors := s.acceptors.set a { acc with stopped := true } } :
      Server ι).goto i .stopped_conns).Inv := by
  refine h.goto (h.acceptors.set hacc rfl) set_nil.mp (view_idle hi) (fun _ => rfl)
    (fun _ => by nofun) ?_
  rw [set_ended hacc, hi, hnot]
  simp only [ServerPc.stopping, ended, Bool.toNat_false, Bool.toNat_true]
  push_cast
  ring

/-- **Step lemma.** -/
theorem step_inv {s s' : Server ι} {l : ServerLabel ι} (h : s.Inv) (hs : s.step l = some s') :
    s'.Inv := by
  cases l with
  | start k sv cbs ok =>
    cases hs
    exact start_inv h k sv cbs ok
  | stop =>
    cases hs
    exact stop_inv h
  | on_accepted i =>
    simp only [step] at hs
    split at hs
    · next hok =>
      cases hs
      exact accept_inv h hok.1 hok.2
    · cases hs
  | on_stopped i a =>
    simp only [step] at hs
    split at hs
    · next acc hacc =>
      split at hs
      · next hok =>
        cases hs
        exact on_stopped_inv h hacc hok.1 (by simpa using hok.2.2)
      · cases hs
    · cases hs
  | on_read i c finished frame =>
    simp only [step, (h.unread c).1, Nat.lt_irrefl, if_false] at hs
    cases hs
  | on_end i c e => exact on_end_inv h hs
  | start_websocket i c cbs =>
    simp only [step, (h.unread c).2, Nat.lt_irrefl, if_false] at hs
    cases hs
  | step i ok =>
    cases hs
    exact action_inv h i ok

omit [DecidableEq ι] in
/-- A connection that no thread is at. -/
theorem kept_settled {k : Served ι} {pcs : ι → ServedPc} (h : k.Kept pcs)
    (haway : ∀ i, pcs i = .away) :
    (k.listed = true ↔ k.conn.live = true ∧ k.errors = 0) ∧ 2 ≤ k.references := by
  rcases h with ⟨i, hopening⟩ | hrun
  · have hopened := hopening.opened
    rw [haway i] at hopened
    exact hopened.elim
  · refine ⟨?_, ?_⟩
    · rw [hrun.booked.listed]
      constructor
      · rintro (⟨i, herr⟩ | hserved)
        · rw [haway i] at herr
          exact herr.elim
        · exact hserved
      · exact Or.inr
    · unfold Served.references
      rw [hrun.http_cbs]
      exact Nat.le_add_left 2 k.listed.toNat

/-- **What a server does.** Over every interleaving of `start`, `stop`, the
    callbacks of the acceptors and those of the connections' transports:
    nothing is read and no request is handed on, since nobody asks for the
    first one; the first acceptor is one without TLS, and the others have it;
    `stopped_cb` comes at most once for each acceptor that has ended, and has
    come for all of them when the threads are idle. A connection that no
    thread is at is in `conns_` where its transport was started and no error
    was reported; and whether it is or not, its own callbacks hold it. -/
theorem run_books {s : Server ι} (h : Reachable step AnyStep new s) :
    (∀ c, (s.conns c).reads = 0 ∧ (s.conns c).requests = 0) ∧
      (∀ a rest, s.acceptors = a :: rest → a.kind = .tcp ∧ ∀ b ∈ rest, b.kind = .tls) ∧
      s.stops ≤ s.ended ∧
      ((∀ i, s.pcs i = .idle) → s.stops = s.ended) ∧
      ∀ c, c < s.accepted → (∀ i, s.view c i = .away) →
        ((s.conns c).listed = true ↔ (s.conns c).conn.live = true ∧ (s.conns c).errors = 0) ∧
        2 ≤ (s.conns c).references := by
  have hinv : s.Inv := h.invariant inv_new fun _ _ _ hi _ hs => step_inv hi hs
  refine ⟨hinv.unread, fun a rest hacc => ?_, ?_, fun hidle => ?_,
    fun c hc haway => kept_settled (hinv.kept c hc) haway⟩
  · have hkinds := hinv.acceptors.kinds a.kind (rest.map ServerAcceptor.kind)
      (by rw [hacc, List.map_cons])
    exact ⟨hkinds.1, fun b hb => hkinds.2 b.kind (List.mem_map_of_mem hb)⟩
  · have hnonneg := hinv.stops.nonneg fun i => (s.pcs i).stopping_nonneg
    omega
  · have hzero := hinv.stops.eq_zero fun i => by
      rw [hidle i]
      rfl
    omega

/-- A connection is accepted in thread 0, and its transport is disconnected in
    thread 1. -/
def served_labels : List (ServerLabel (Fin 2)) :=
  ServerLabel.start .tcp true true true :: .on_accepted 0 :: List.replicate 5 (.step 0 true) ++
    .on_end 1 0 .disconnected :: List.replicate 6 (.step 1 true)

theorem run_books_served : ∃ s : Server (Fin 2), exec step new served_labels = some s ∧
    (s.conns 0).listed = false ∧ (s.conns 0).stopped = true ∧ 2 ≤ (s.conns 0).references := by
  obtain ⟨s, hexec, hlisted, hstopped, haccepted, hidle⟩ : ∃ s : Server (Fin 2),
      exec step new served_labels = some s ∧ (s.conns 0).listed = false ∧
        (s.conns 0).stopped = true ∧ s.accepted = 1 ∧ ∀ i, s.pcs i = .idle :=
    ⟨_, rfl, rfl, rfl, rfl, by decide⟩
  have hrun := run_books (.of_exec hexec (meets_anyStep _ _ _))
  refine ⟨s, hexec, hlisted, hstopped, (hrun.2.2.2.2 0 ?_ fun i => view_idle (hidle i) 0).2⟩
  rw [haccepted]
  exact Nat.one_pos

end Server

end Pump
