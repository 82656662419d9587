import Pump.Lts
import Pump.Transport.Types

/-! # tcp_dialer and tls_dialer

    The state machine of a dialer, `transport/tcp_dialer.cpp`,
    `transport/tls_dialer.cpp` and `transport/base_dialer.cpp`. Any number
    of threads run the functions of the dialer; one step is one atomic
    access to what they share. The outcome of an operation on the system
    (opening, connecting, starting a tracker, a handshake) is part of the
    label.

    Shutting down a flow only bears on such outcomes and is no step of its
    own. -/

namespace Pump

open TransportState ErrorCode TimerState

/-! ## Section 1: Model -/

inductive DialerKind where
  | tcp
  | tls
  deriving DecidableEq, Repr

/-- What `start` does in the state `state_starting`, before it is started. -/
inductive DialStage where
  | open_dial_flow
  | start_dial_timer
  | post_connect
  | install_dial_tracker
  deriving DecidableEq, Repr

/-- The order of the stages in the two `start` functions. -/
def DialerKind.stages : DialerKind → List DialStage
  | .tcp => [.open_dial_flow, .start_dial_timer, .post_connect, .install_dial_tracker]
  | .tls => [.open_dial_flow, .post_connect, .start_dial_timer, .install_dial_tracker]

/-- A call of one of the `dialer_callbacks`. -/
inductive DialerCall where
  | dialed_cb (success : Bool)
  | timeouted_cb
  | stopped_cb
  deriving DecidableEq, Repr

/-- Where a thread is. -/
inductive DialerPc where
  | idle
  -- start
  | start_state
  | start_stages (rest : List DialStage)
  | start_started
  | start_stop_timer
  | start_error
  | start_return (ec : ErrorCode)
  -- stop
  | stop_started
  | stop_timer
  | stop_post
  | stop_handshaking
  | stop_timeouting
  -- on_send_event
  | send_stop_timer
  | send_uninstall
  | send_connect
  | send_starting (success : Bool)
  | send_started (success : Bool)
  | send_handshaker
  | send_handshaker_start
  | send_failed
  -- timer::handle_timeout and on_timeout
  | timer_started
  | timer_pending
  | timeout_state
  | timeout_post
  -- on_channel_event
  | channel_timeouting
  | channel_stopping
  -- on_handshaked
  | handshaked (success : Bool)
  -- a callback is due
  | call (c : DialerCall)
  deriving DecidableEq, Repr

/-- A dialer, its poller and timer as far as it uses them, and the threads
    `ι`. The last five fields are a record of the run. -/
structure Dialer (ι : Type) where
  state : TransportState
  connect_timer : Option TimerState
  tracker : Bool
  posted : Nat
  handshaker : Bool
  pcs : ι → DialerPc
  starts : Nat
  result : Option ErrorCode
  timer_ran : Bool
  calls : List DialerCall

inductive DialerLabel (ι : Type) where
  /-- A call of `start`; the flags are the checks of its parameters. -/
  | start (i : ι) (sv cbs xcred : Bool)
  | stop (i : ι)
  /-- The send poller reports the socket. -/
  | send_event (i : ι)
  /-- The timer worker takes the dial timer. -/
  | timeout (i : ι)
  /-- The send poller takes a posted channel event. -/
  | channel_event (i : ι)
  /-- The handshaker calls back. -/
  | handshake (i : ι) (success : Bool)
  /-- The next step of a thread. -/
  | step (i : ι) (ok : Bool)

namespace Dialer

variable {ι : Type}

/-- A new dialer. -/
def new : Dialer ι :=
  ⟨state_none, none, false, 0, false, fun _ => .idle, 0, none, false, []⟩

/-- `__set_state`. -/
def set_state (s : Dialer ι) (expected desired : TransportState) : Bool × Dialer ι :=
  if s.state = expected then (true, { s with state := desired }) else (false, s)

/-- A compare and exchange of the timer's state. -/
def set_timer (s : Dialer ι) (expected desired : TimerState) : Bool × Dialer ι :=
  if s.connect_timer = some expected then (true, { s with connect_timer := some desired })
  else (false, s)

/-- `__stop_dial_timer`. -/
def stop_dial_timer (s : Dialer ι) : Dialer ι :=
  { s with connect_timer := s.connect_timer.map fun _ => timer_state_stopped }

/-- One stage of `start`. `__start_dial_timer` has nothing to start without
    a timeout. -/
def stage (timeout_ns : Nat) (s : Dialer ι) (st : DialStage) (ok : Bool) : Bool × Dialer ι :=
  match st with
  | .open_dial_flow => (ok, s)
  | .start_dial_timer =>
    if timeout_ns = 0 then (true, s)
    else if ok then (true, { s with connect_timer := some timer_state_started })
    else (false, { s with connect_timer := some timer_state_none })
  | .post_connect => (ok, s)
  | .install_dial_tracker => (ok, { s with tracker := ok })

/-- The next step of a thread: where it goes and what it does to the rest.
    `ok` is the outcome of an operation on the system. -/
def action (k : DialerKind) (timeout_ns : Nat) (s : Dialer ι) (ok : Bool) :
    DialerPc → DialerPc × Dialer ι
  | .idle => (.idle, s)
  | .start_state =>
    let r := s.set_state state_none state_starting
    (if r.1 then .start_stages k.stages else .start_return error_fault, r.2)
  | .start_stages [] => (.start_started, s)
  | .start_stages (st :: rest) =>
    let r := s.stage timeout_ns st ok
    (if r.1 then .start_stages rest else .start_stop_timer, r.2)
  | .start_started =>
    let r := s.set_state state_starting state_started
    (if r.1 then .start_return error_none else .start_stop_timer, r.2)
  | .start_stop_timer => (.start_error, s.stop_dial_timer)
  | .start_error => (.start_return error_fault, (s.set_state state_starting state_error).2)
  | .start_return ec => (.idle, { s with result := some ec })
  | .stop_started =>
    let r := s.set_state state_started state_stopping
    (if r.1 then .stop_timer
      else match k with
        | .tcp => .stop_timeouting
        | .tls => .stop_handshaking, r.2)
  | .stop_timer => (.stop_post, s.stop_dial_timer)
  | .stop_post => (.idle, { s with posted := s.posted + 1 })
  | .stop_handshaking =>
    let r := s.set_state state_handshaking state_stopping
    (if r.1 then .stop_post else .stop_timeouting, r.2)
  | .stop_timeouting => (.idle, (s.set_state state_timeouting state_stopping).2)
  | .send_stop_timer => (.send_uninstall, s.stop_dial_timer)
  | .send_uninstall => (.send_connect, { s with tracker := false })
  | .send_connect => (.send_starting ok, s)
  | .send_starting success =>
    let r := s.set_state state_starting (next_status k success)
    (if r.1 then won k success ok else .send_started success, r.2)
  | .send_started success =>
    let r := s.set_state state_started (next_status k success)
    (if r.1 then won k success ok else .idle, r.2)
  | .send_handshaker =>
    if ok then (.send_handshaker_start, { s with handshaker := true }) else (.send_failed, s)
  | .send_handshaker_start => (if ok then .idle else .send_failed, s)
  | .send_failed =>
    let r := s.set_state state_handshaking state_error
    (if r.1 then .call (.dialed_cb false) else .idle, r.2)
  | .timer_started =>
    let r := s.set_timer timer_state_started timer_state_pending
    (if r.1 then .timer_pending else .idle, r.2)
  | .timer_pending =>
    let r := s.set_timer timer_state_pending timer_state_finished
    (if r.1 then .timeout_state else .idle, r.2)
  | .timeout_state =>
    let r := s.set_state state_started state_timeouting
    (if r.1 then .timeout_post else .idle, { r.2 with timer_ran := true })
  | .timeout_post => (.idle, { s with posted := s.posted + 1 })
  | .channel_timeouting =>
    let r := s.set_state state_timeouting state_timeouted
    (if r.1 then .call .timeouted_cb else .channel_stopping, r.2)
  | .channel_stopping =>
    let r := s.set_state state_stopping state_stopped
    (if r.1 then .call .stopped_cb else .idle, r.2)
  | .handshaked success =>
    let r := s.set_state state_handshaking state_finished
    -- creating the transport may fail
    (if r.1 then .call (.dialed_cb (success && ok)) else .idle, r.2)
  | .call c => (.idle, { s with calls := s.calls ++ [c] })
where
  /-- `next_status` of `on_send_event`. -/
  next_status (k : DialerKind) (success : Bool) : TransportState :=
    match k, success with
    | .tcp, true => state_finished
    | .tls, true => state_handshaking
    | _, false => state_error
  /-- Where `on_send_event` goes when it has won the state. -/
  won (k : DialerKind) (success ok : Bool) : DialerPc :=
    match k, success with
    -- creating the transport may fail
    | .tcp, _ => .call (.dialed_cb (success && ok))
    | .tls, true => .send_handshaker
    | .tls, false => .send_failed

variable [DecidableEq ι]

/-- Thread `i` goes to `pc`. -/
def goto (s : Dialer ι) (i : ι) (pc : DialerPc) : Dialer ι :=
  { s with pcs := Function.update s.pcs i pc }

/-- A function of the dialer is entered by an idle thread. -/
def enter (s : Dialer ι) (i : ι) (pc : DialerPc) : Option (Dialer ι) :=
  if s.pcs i = .idle then some (s.goto i pc) else none

def step (k : DialerKind) (timeout_ns : Nat) (s : Dialer ι) : DialerLabel ι → Option (Dialer ι)
  | .start i sv cbs xcred =>
    ({ s with starts := s.starts + 1 } : Dialer ι).enter i
      (if sv && cbs && (k = .tcp || xcred) then .start_state else .start_return error_invalid)
  | .stop i => s.enter i .stop_started
  | .send_event i => if s.tracker then s.enter i .send_stop_timer else none
  | .timeout i => if s.connect_timer.isSome then s.enter i .timer_started else none
  | .channel_event i =>
    if s.posted > 0 then
      ({ s with posted := s.posted - 1 } : Dialer ι).enter i .channel_timeouting
    else
      none
  | .handshake i success => if s.handshaker then s.enter i (.handshaked success) else none
  | .step i ok =>
    let r := s.action k timeout_ns ok (s.pcs i)
    some (r.2.goto i r.1)

end Dialer

end Pump
