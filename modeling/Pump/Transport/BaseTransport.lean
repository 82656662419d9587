import Pump.Toolkit.M2mQueue
import Pump.Transport.Types

/-! # tcp_transport and tls_transport

    The functions of `transport/base_transport.cpp`,
    `transport/tcp_transport.cpp`, `transport/tls_transport.cpp` and of the
    `want_to_send` and `send` of their flows. Any number of threads run them;
    one step is one access to what they share, with what the thread does
    before the next one. The outcome of an operation on the system is part of
    the label: `ok` for one that may fail, and `n` for what a read or a send
    returns, where a send takes no more than there is.

    A buffer is a number, and each call of `send` has one of its own. Shutting
    down a flow only bears on the outcomes and is no step of its own. Threads
    of the pollers are threads like the others. -/

namespace Pump

open TransportState ErrorCode ReadMode ReadState

/-! ## Section 1: Model -/

inductive TransportKind where
  | tcp
  | tls
  deriving DecidableEq, Repr

/-- What `start` does in the state `state_starting`. -/
inductive StartStage where
  | open_transport_flow
  | install_read_tracker
  | install_send_tracker
  deriving DecidableEq, Repr

def TransportKind.stages : TransportKind → List StartStage
  | .tcp => [.open_transport_flow, .install_read_tracker, .install_send_tracker]
  | .tls => [.install_read_tracker, .install_send_tracker]

/-- A call of one of the `transport_callbacks`. -/
inductive TransportCall where
  | read_cb (size : Int)
  | sent_cb (iob : Nat)
  | disconnected_cb
  | stopped_cb
  deriving DecidableEq, Repr

inductive ChannelEvent where
  | channel_event_disconnected
  | channel_event_buffer_sent (iob : Nat)
  | channel_event_read
  deriving DecidableEq, Repr

open ChannelEvent

/-- `channel_tracker`. A tracker whose start has failed in the system is not
    idle, but no event comes for it. -/
inductive Tracker where
  | tracker_idle
  | tracker_tracking
  | tracker_failed
  deriving DecidableEq, Repr

open Tracker

/-- Where a buffer is sent: in `__send_once` for `__async_send` of the
    buffer, in `on_send_event` itself, or in `__send_once` for it. -/
inductive Sending where
  | async (iob : Nat)
  | event
  | again
  deriving DecidableEq, Repr

/-- Where a thread is. -/
inductive TransportPc where
  | idle
  -- start
  | start_state (mode : ReadMode) (sent_cb : Bool)
  | start_stages (rest : List StartStage)
  | start_started
  | start_error
  | start_return (ec : ErrorCode)
  -- stop and force_stop
  | stop_loop (force : Bool)
  | stop_started (force : Bool)
  | stop_wait (force : Bool)
  | stop_pending
  | stop_post
  | stop_disconnecting
  -- async_read
  | read_check
  | read_opt
  | read_started
  | read_change
  | read_unread
  | read_post
  | read_start
  | read_sub (ec : ErrorCode)
  | read_return (ec : ErrorCode)
  -- send and __async_send
  | send_check (iob : Nat) (copied : Bool)
  | send_opt (iob : Nat) (copied : Bool)
  | send_started (iob : Nat) (copied : Bool)
  | send_create (iob : Nat)
  | send_push (iob : Nat) (op : M2m.Op Nat)
  | send_add (iob : Nat)
  | send_disconnecting (iob : Nat)
  | send_post (iob : Nat)
  | send_sub (iob : Nat) (ec : ErrorCode)
  | send_return (iob : Nat) (ec : ErrorCode)
  -- __send_once, __handle_sent_buffer and the end of a send
  | once (w : Sending)
  | once_pop (w : Sending) (op : M2m.Op Nat)
  | once_size (w : Sending)
  | once_want (w : Sending)
  | flow_send (w : Sending)
  | handle_sent (w : Sending)
  | handle_clear (w : Sending)
  | sub_size (w : Sending)
  | sub (w : Sending) (size : BitVec 32)
  | sub_compare (w : Sending) (old size : BitVec 32)
  | start_tracker (w : Sending)
  -- a call of pump_abort, or of a function with a null pointer
  | aborted
  -- on_send_event
  | event_last
  | event_disconnecting
  | event_disconnected
  | event_stopped
  -- on_read_event
  | data_wait
  | data_read
  | data_change (size : Int)
  | data_start (size : Int)
  | data_call (size : Int) (disconnected : Bool)
  | data_disconnecting
  | data_disconnected
  -- on_channel_event
  | channel_disconnected
  | channel_stopped
  -- a callback is due
  | call (c : TransportCall)
  deriving DecidableEq

/-- A transport with what it uses of its flow and its pollers, and the
    threads `ι`. The last fields are a record of the run: the number of
    buffers, what `send` has returned for them, the callbacks, and whether
    the assertion in `__send_once` has held. -/
structure BaseTransport (ι : Type) where
  state : TransportState
  rmode : ReadMode
  rstate : ReadState
  sent_cb : Bool
  r_tracker : Tracker
  s_tracker : Tracker
  pending_send_size : BitVec 32
  pending_opt_cnt : Int
  last_send_iob_size : BitVec 32
  last_send_iob : Option Nat
  send_iob : Option Nat
  sendlist : M2m.Nodes Nat
  iob_size : Nat → Nat
  posted : List ChannelEvent
  pcs : ι → TransportPc
  iobs : Nat
  results : List (Nat × ErrorCode)
  calls : List TransportCall
  asserted : Bool

inductive TransportLabel (ι : Type) where
  /-- A call of `start`; `valid` is the outcome of its checks on the
      parameters and on `flow_`. -/
  | start (i : ι) (valid : Bool) (mode : ReadMode) (sent_cb : Bool)
  | stop (i : ι)
  | force_stop (i : ι)
  | async_read (i : ι)
  /-- A call of `send`, with bytes to be `copied` or with a buffer. -/
  | send (i : ι) (size : Nat) (copied : Bool)
  /-- The read poller reports the socket. -/
  | read_event (i : ι)
  /-- The send poller reports the socket. -/
  | send_event (i : ι)
  /-- A poller takes one of the posted channel events. -/
  | channel_event (i : ι) (ev : ChannelEvent)
  /-- The next step of a thread. -/
  | step (i : ι) (ok : Bool) (n : Int)

namespace BaseTransport

variable {ι : Type}

/-- A new transport. -/
def new : BaseTransport ι :=
  { state := state_none
    rmode := read_mode_none
    rstate := read_none
    sent_cb := false
    r_tracker := tracker_idle
    s_tracker := tracker_idle
    pending_send_size := 0
    pending_opt_cnt := 0
    last_send_iob_size := 0
    last_send_iob := none
    send_iob := none
    sendlist := M2m.init_list 8 32
    iob_size := fun _ => 0
    posted := []
    pcs := fun _ => .idle
    iobs := 0
    results := []
    calls := []
    asserted := true }

/-- `__set_state`. -/
def set_state (s : BaseTransport ι) (expected desired : TransportState) :
    Bool × BaseTransport ι :=
  if s.state = expected then (true, { s with state := desired }) else (false, s)

/-- `__change_read_state`. -/
def change_read_state (s : BaseTransport ι) (expected desired : ReadState) :
    Bool × BaseTransport ι :=
  if s.rstate = expected then (true, { s with rstate := desired }) else (false, s)

/-- `start_channel_tracker` of the poller; `ok` is the outcome in the system. -/
def Tracker.start (t : Tracker) (ok : Bool) : Bool × Tracker :=
  if t = tracker_idle then (ok, if ok then tracker_tracking else tracker_failed) else (false, t)

/-- `__start_read_tracker`. -/
def start_read_tracker (s : BaseTransport ι) (ok : Bool) : Bool × BaseTransport ι :=
  ((Tracker.start s.r_tracker ok).1, { s with r_tracker := (Tracker.start s.r_tracker ok).2 })

/-- `__start_send_tracker`. -/
def start_send_tracker (s : BaseTransport ι) (ok : Bool) : Bool × BaseTransport ι :=
  ((Tracker.start s.s_tracker ok).1, { s with s_tracker := (Tracker.start s.s_tracker ok).2 })

/-- `__post_channel_event`. -/
def post_channel_event (s : BaseTransport ι) (ok : Bool) (ev : ChannelEvent) : BaseTransport ι :=
  if ok then { s with posted := s.posted ++ [ev] } else s

/-- `send` of the flow. -/
def flow_send (s : BaseTransport ι) (iob : Nat) (n : Int) : ErrorCode × BaseTransport ι :=
  if n = 0 then (error_fault, s)
  else if n < 0 then (error_again, s)
  else
    let left := s.iob_size iob - n.toNat
    let s := { s with iob_size := Function.update s.iob_size iob left }
    if left = 0 then (error_none, { s with send_iob := none }) else (error_again, s)

/-- A step of `push` or `pop` on `sendlist_`. The element that `pop` reads is
    put into `last_send_iob_`. -/
def sendlist_step (s : BaseTransport ι) (ok : Bool) (op : M2m.Op Nat) :
    M2m.Turn Nat × BaseTransport ι :=
  let r := op.step 8 ok s.sendlist
  let s := { s with sendlist := r.1 }
  match r.2 with
  | .goes (.pop_ready _ iob) => (r.2, { s with last_send_iob := iob })
  | _ => (r.2, s)

/-- Where a thread goes when sending has failed. -/
def send_failed : Sending → TransportPc
  | .async iob => .send_disconnecting iob
  | .event | .again => .event_disconnecting

/-- Where it goes when there is more to send. -/
def send_more : Sending → TransportPc
  | .async iob => .start_tracker (.async iob)
  | .event => .once .again
  | .again => .start_tracker .again

/-- Where it goes when everything is sent. -/
def send_done : Sending → TransportPc
  | .async iob => .send_sub iob error_none
  | .event | .again => .event_stopped

/-- The next step of a thread: where it goes and what it does to the rest. -/
def action (k : TransportKind) (s : BaseTransport ι) (ok : Bool) (n : Int) :
    TransportPc → TransportPc × BaseTransport ι
  | .idle => (.idle, s)
  | .start_state mode sent_cb =>
    let r := s.set_state state_none state_starting
    if r.1 then (.start_stages k.stages, { r.2 with rmode := mode, sent_cb := sent_cb })
    else (.start_return error_fault, r.2)
  | .start_stages [] => (.start_started, s)
  | .start_stages (_ :: rest) => (if ok then .start_stages rest else .start_error, s)
  | .start_started =>
    let r := s.set_state state_starting state_started
    (if r.1 then .start_return error_none else .start_error, r.2)
  | .start_error => (.start_return error_fault, (s.set_state state_starting state_error).2)
  | .start_return _ => (.idle, s)
  | .stop_loop force => (if s.state = state_started then .stop_started force else .stop_disconnecting, s)
  | .stop_started force =>
    let r := s.set_state state_started state_stopping
    (if r.1 then .stop_wait force else .stop_loop force, r.2)
  | .stop_wait force =>
    (if s.pending_opt_cnt ≠ 0 then .stop_wait force
      else if force then .stop_post
      else .stop_pending, s)
  | .stop_pending => (if s.pending_send_size = 0 then .stop_post else .idle, s)
  | .stop_post => (.idle, s.post_channel_event ok channel_event_disconnected)
  | .stop_disconnecting => (.idle, (s.set_state state_disconnecting state_stopping).2)
  | .read_check => (if s.state = state_started then .read_opt else .read_return error_unstart, s)
  | .read_opt =>
    -- reading by loop, `tls_transport` does not look at the state again
    (if k = .tls ∧ s.rmode = read_mode_loop then .read_change else .read_started,
      { s with pending_opt_cnt := s.pending_opt_cnt + 1 })
  | .read_started => (if s.state = state_started then .read_change else .read_sub error_unstart, s)
  | .read_change =>
    let r := s.change_read_state read_none read_pending
    (if !r.1 then .read_sub error_fault
      else if k = .tls ∧ s.rmode ≠ read_mode_loop then .read_unread
      else .read_start, r.2)
  | .read_unread => (if ok then .read_post else .read_start, s)
  | .read_post => (.read_sub error_none, s.post_channel_event ok channel_event_read)
  | .read_start =>
    let r := s.start_read_tracker ok
    (.read_sub (if r.1 then error_none else error_fault), r.2)
  | .read_sub ec => (.read_return ec, { s with pending_opt_cnt := s.pending_opt_cnt - 1 })
  | .read_return _ => (.idle, s)
  | .send_check iob copied =>
    (if s.state = state_started then .send_opt iob copied else .send_return iob error_unstart, s)
  | .send_opt iob copied =>
    (.send_started iob copied, { s with pending_opt_cnt := s.pending_opt_cnt + 1 })
  | .send_started iob copied =>
    (if s.state ≠ state_started then .send_sub iob error_unstart
      else if copied then .send_create iob
      else .send_push iob (.push_load iob), s)
  | .send_create iob =>
    (if ok then .send_push iob (.push_load iob) else .send_sub iob error_fault, s)
  | .send_push iob op =>
    let r := s.sendlist_step ok op
    (match r.1 with
      | .goes op => .send_push iob op
      | .returns _ => .send_add iob, r.2)
  | .send_add iob =>
    (if s.pending_send_size.toInt > 0 then .send_sub iob error_none else .once (.async iob),
      { s with pending_send_size := s.pending_send_size + BitVec.ofNat 32 (s.iob_size iob) })
  | .send_disconnecting iob =>
    let r := s.set_state state_started state_disconnecting
    (if r.1 then .send_post iob else .send_sub iob error_fault, r.2)
  | .send_post iob => (.send_sub iob error_fault, s.post_channel_event ok channel_event_disconnected)
  | .send_sub iob ec => (.send_return iob ec, { s with pending_opt_cnt := s.pending_opt_cnt - 1 })
  | .send_return iob ec => (.idle, { s with results := s.results ++ [(iob, ec)] })
  | .once w =>
    (.once_pop w .pop_load, { s with asserted := s.asserted && s.last_send_iob.isNone })
  | .once_pop w op =>
    let r := s.sendlist_step ok op
    (match r.1 with
      | .goes op => .once_pop w op
      | .returns (.popped _) => .once_size w
      | .returns _ => .aborted, r.2)
  | .once_size w =>
    match s.last_send_iob with
    | none => (.aborted, s)
    | some iob => (.once_want w, { s with last_send_iob_size := BitVec.ofNat 32 (s.iob_size iob) })
  | .once_want w =>
    if s.last_send_iob = none ∨ s.send_iob ≠ none then (send_failed w, s)
    else (.flow_send w, { s with send_iob := s.last_send_iob })
  | .flow_send w =>
    match s.send_iob with
    | none => (.aborted, s)
    | some iob =>
      let r := s.flow_send iob n
      (match r.1 with
        | error_none => .handle_sent w
        | error_again => .start_tracker w
        | _ => send_failed w, r.2)
  | .handle_sent w =>
    match s.last_send_iob with
    | none => (.aborted, s)
    | some iob =>
      (.handle_clear w,
        if s.sent_cb then s.post_channel_event ok (channel_event_buffer_sent iob) else s)
  | .handle_clear w => (.sub_size w, { s with last_send_iob := none })
  | .sub_size w => (.sub w s.last_send_iob_size, s)
  | .sub w size =>
    (.sub_compare w s.pending_send_size size,
      { s with pending_send_size := s.pending_send_size - size })
  | .sub_compare w old _ =>
    (if old.toInt > s.last_send_iob_size.toInt then send_more w else send_done w, s)
  | .start_tracker w =>
    let r := s.start_send_tracker ok
    (if r.1 then
      match w with
      | .async iob => .send_sub iob error_none
      | .event | .again => .idle
      else send_failed w, r.2)
  | .aborted => (.aborted, s)
  | .event_last => (if s.last_send_iob ≠ none then .flow_send .event else .once .again, s)
  | .event_disconnecting =>
    let r := s.set_state state_started state_disconnecting
    (if r.1 then .event_disconnected else .event_stopped, r.2)
  | .event_disconnected =>
    let r := s.set_state state_disconnecting state_disconnected
    (if r.1 then .call .disconnected_cb else .event_stopped, r.2)
  | .event_stopped =>
    let r := s.set_state state_stopping state_stopped
    (if r.1 then .call .stopped_cb else .idle, r.2)
  | .data_wait => (if s.state = state_starting then .data_wait else .data_read, s)
  | .data_read =>
    (if n > 0 then
        if s.rmode = read_mode_once then .data_change n else .data_start n
      else if n < 0 ∧ k = .tls then .data_start n
      else .data_disconnecting, s)
  | .data_change size =>
    let r := s.change_read_state read_pending read_none
    (.data_call size !r.1, r.2)
  | .data_start size =>
    let r := s.start_read_tracker ok
    (if size > 0 then .data_call size !r.1
      else if r.1 then .idle
      else .data_disconnecting, r.2)
  | .data_call size disconnected =>
    (if disconnected then .data_disconnecting else .idle,
      { s with calls := s.calls ++ [.read_cb size] })
  | .data_disconnecting =>
    let r := s.set_state state_started state_disconnecting
    (if r.1 then .data_disconnected else .idle, r.2)
  | .data_disconnected =>
    let r := s.set_state state_disconnecting state_disconnected
    (if r.1 then .call .disconnected_cb else .idle, r.2)
  | .channel_disconnected =>
    let r := s.set_state state_disconnecting state_disconnected
    (if r.1 then .call .disconnected_cb else .channel_stopped, r.2)
  | .channel_stopped =>
    let r := s.set_state state_stopping state_stopped
    (if r.1 then .call .stopped_cb else .idle, r.2)
  | .call c => (.idle, { s with calls := s.calls ++ [c] })

variable [DecidableEq ι]

/-- Thread `i` goes to `pc`. -/
def goto (s : BaseTransport ι) (i : ι) (pc : TransportPc) : BaseTransport ι :=
  { s with pcs := Function.update s.pcs i pc }

/-- A function of the transport is entered by an idle thread. -/
def enter (s : BaseTransport ι) (i : ι) (pc : TransportPc) : Option (BaseTransport ι) :=
  if s.pcs i = .idle then some (s.goto i pc) else none

def step (k : TransportKind) (s : BaseTransport ι) : TransportLabel ι → Option (BaseTransport ι)
  | .start i valid mode sent_cb =>
    s.enter i (if valid then .start_state mode sent_cb else .start_return error_invalid)
  | .stop i => s.enter i (.stop_loop false)
  | .force_stop i => s.enter i (.stop_loop true)
  | .async_read i => s.enter i .read_check
  | .send i size copied =>
    -- the size is an `int32_t`
    if size < 2 ^ 31 then
      ({ s with iobs := s.iobs + 1, iob_size := Function.update s.iob_size s.iobs size } :
        BaseTransport ι).enter i
          (if size = 0 then .send_return s.iobs error_invalid else .send_check s.iobs copied)
    else none
  | .read_event i =>
    if s.r_tracker = tracker_tracking then
      ({ s with r_tracker := tracker_idle } : BaseTransport ι).enter i .data_wait
    else none
  | .send_event i =>
    if s.s_tracker = tracker_tracking then
      ({ s with s_tracker := tracker_idle } : BaseTransport ι).enter i .event_last
    else none
  | .channel_event i ev =>
    if ev ∈ s.posted then
      ({ s with posted := s.posted.erase ev } : BaseTransport ι).enter i
        (match ev with
          | channel_event_disconnected => .channel_disconnected
          | channel_event_buffer_sent iob => .call (.sent_cb iob)
          | channel_event_read => if k = .tls then .data_wait else .aborted)
    else none
  | .step i ok n =>
    let r := s.action k ok n (s.pcs i)
    some (r.2.goto i r.1)

end BaseTransport

end Pump
