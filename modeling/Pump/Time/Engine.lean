import Pump.Lts
import Pump.Total
import Pump.Transport.Types

/-! # Timers and their engine

    `time/timer.cpp`, `time/engine.cpp` and the timer worker of
    `service.cpp`. The threads of the user call `start_timer` and `stop`, the
    observer of the engine keeps the timers until they expire, and the worker
    handles what has expired and calls back. In a callback the worker may call
    `start_timer` and `stop` itself.

    A step is one access to what the threads share, with what the thread does
    before the next one. A queue is a list, and one access to it one step; the
    waits on queues end with or without an element. The readings of the clock
    are part of the label. -/

namespace Pump

open TimerState

/-! ## Section 1: Model -/

/-- Where a call of `start_timer` or `stop` is. -/
inductive TimerCall (τ : Type) where
  | idle
  -- engine::start_timer and timer::__start
  | start_check (t : τ)
  | start_load (t : τ)
  | start_exchange (t : τ) (st : TimerState)
  | start_enqueue (t : τ)
  -- timer::stop
  | stop_store (t : τ)
  | stop_return (t : τ)
  deriving DecidableEq

/-- Where the observer is. `tl` is `triggered_timers`, `now` the last reading
    of the clock, and `left` is `max_new_timers`. -/
inductive ObserverPc (τ : Type) where
  | check
  | dequeue (tl : List τ)
  | drain (tl : List τ) (now left : Nat)
  | post (tl : List τ)
  | ended
  deriving DecidableEq

/-- Where the timer worker is; `rest` is what is left of the list it handles. -/
inductive TimeoutPc (τ : Type) where
  | dequeue
  | lock (rest : List τ)
  -- timer::handle_timeout, engine::restart_timer and timer::__restart
  | set_pending (t : τ) (rest : List τ)
  | restart_check (t : τ) (rest : List τ)
  | restart_exchange (t : τ) (rest : List τ)
  | restart_enqueue (t : τ) (rest : List τ)
  | set_finished (t : τ) (rest : List τ)
  | call (t : τ) (rest : List τ)
  /-- In the callback of `t`, with a call it makes. -/
  | callback (t : τ) (rest : List τ) (call : TimerCall τ)
  deriving DecidableEq

/-- What happens to a timer: a start of it succeeds, its entry expires, its
    callback is invoked, `stop` returns. -/
inductive TimerEvent (τ : Type) where
  | started (t : τ)
  | expired (t : τ)
  | called (t : τ)
  | stopped (t : τ)
  deriving DecidableEq

/-- The timers `τ` with their engine, the worker and the threads `ι`. `events`
    is a record of the run. -/
structure Engine (ι τ : Type) where
  repeated : τ → Bool
  timeout_ns : τ → Nat
  started : Bool
  state : τ → TimerState
  new_timers : List τ
  timers : List (Nat × τ)
  triggered_timers : List (List τ)
  observer : ObserverPc τ
  worker : TimeoutPc τ
  calls : ι → TimerCall τ
  events : List (TimerEvent τ)

inductive EngineLabel (ι τ : Type) where
  | start_timer (i : ι) (t : τ)
  | stop (i : ι) (t : τ)
  /-- The next step of a thread. -/
  | step (i : ι)
  /-- The next step of the observer, which reads the clock twice; `ok` is
      whether its wait for a timer ends with one. -/
  | observer (now later : Nat) (ok : Bool)
  /-- The next step of the worker; `ok` is whether a timer can be locked. In a
      callback that makes no call this is the end of the callback. -/
  | worker (ok : Bool)
  /-- The callback calls `start_timer` or `stop`. -/
  | worker_start (t : τ)
  | worker_stop (t : τ)
  /-- The engine is stopped. -/
  | engine_stop

namespace Engine

variable {ι τ : Type} [DecidableEq τ]

/-- A started engine with new timers. -/
def new (repeated : τ → Bool) (timeout_ns : τ → Nat) : Engine ι τ :=
  { repeated := repeated
    timeout_ns := timeout_ns
    started := true
    state := fun _ => timer_state_none
    new_timers := []
    timers := []
    triggered_timers := []
    observer := .check
    worker := .dequeue
    calls := fun _ => .idle
    events := [] }

/-- `__set_state`. -/
def set_state (s : Engine ι τ) (t : τ) (expected desired : TimerState) : Bool × Engine ι τ :=
  if s.state t = expected then (true, { s with state := Function.update s.state t desired })
  else (false, s)

/-- The record of the run goes on. -/
def record (s : Engine ι τ) (ev : TimerEvent τ) : Engine ι τ :=
  { s with events := s.events ++ [ev] }

/-- The next step of a call of `start_timer` or `stop`. -/
def call_step (s : Engine ι τ) : TimerCall τ → TimerCall τ × Engine ι τ
  | .idle => (.idle, s)
  | .start_check t => (if s.started then .start_load t else .idle, s)
  | .start_load t =>
    (if s.state t ≠ timer_state_none ∧ s.state t ≠ timer_state_finished then .idle
      else .start_exchange t (s.state t), s)
  | .start_exchange t st =>
    let r := s.set_state t st timer_state_started
    if r.1 then (.start_enqueue t, r.2.record (.started t)) else (.idle, r.2)
  | .start_enqueue t => (.idle, { s with new_timers := s.new_timers ++ [t] })
  | .stop_store t =>
    (.stop_return t, { s with state := Function.update s.state t timer_state_stopped })
  | .stop_return t => (.idle, s.record (.stopped t))

/-- `timers_[time].push_back(t)` of a map that is sorted by the time. -/
def insert_timer (time : Nat) (t : τ) : List (Nat × τ) → List (Nat × τ)
  | [] => [(time, t)]
  | e :: timers => if time < e.1 then (time, t) :: e :: timers else e :: insert_timer time t timers

/-- `__queue_timer`, where the times are of type `uint64_t`. -/
def queue_timer (s : Engine ι τ) (t : τ) (now : Nat) : Engine ι τ :=
  { s with timers := insert_timer ((s.timeout_ns t + now) % 2 ^ 64) t s.timers }

/-- `__observe`: the timers that have expired, and the others. -/
def observe (timers : List (Nat × τ)) (now : Nat) : List τ × List (Nat × τ) :=
  ((timers.takeWhile fun e => e.1 ≤ now).map Prod.snd, timers.dropWhile fun e => e.1 ≤ now)

/-- `default_observe_interval_ns`. -/
def default_observe_interval_ns : Nat := 200 * 1000000

/-- The time of the next observation: of the first timer that is left. -/
def next_observe_time (timers : List (Nat × τ)) (now : Nat) : Nat :=
  match timers with
  | e :: _ => e.1
  | [] => (now + default_observe_interval_ns) % 2 ^ 64

/-- Where the observer goes with the new timers it has, at the end of a loop. -/
def observer_end (tl : List τ) : ObserverPc τ := if tl = [] then .check else .post tl

/-- The next step of the observer. -/
def observer_step (s : Engine ι τ) (now later : Nat) (ok : Bool) :
    ObserverPc τ → ObserverPc τ × Engine ι τ
  | .check =>
    if s.started then
      let r := observe s.timers now
      (if r.1 = [] ∧ next_observe_time r.2 now > later then .dequeue r.1
        else .drain r.1 later 1024,
        { s with timers := r.2, events := s.events ++ r.1.map .expired })
    else (.ended, s)
  | .dequeue tl =>
    match ok, s.new_timers with
    | true, t :: new_timers =>
      (.drain tl later 1023, { s with new_timers := new_timers }.queue_timer t later)
    | _, _ => (.drain tl later 1024, s)
  | .drain tl now left =>
    match left, s.new_timers with
    | left + 1, t :: new_timers =>
      (.drain tl now left, { s with new_timers := new_timers }.queue_timer t now)
    | _, _ => (observer_end tl, s)
  | .post tl => (.check, { s with triggered_timers := s.triggered_timers ++ [tl] })
  | .ended => (.ended, s)

/-- The next step of the worker. -/
def worker_step (s : Engine ι τ) (ok : Bool) : TimeoutPc τ → TimeoutPc τ × Engine ι τ
  | .dequeue =>
    match s.triggered_timers with
    | [] => (.dequeue, s)
    | tl :: rest => (.lock tl, { s with triggered_timers := rest })
  | .lock [] => (.dequeue, s)
  | .lock (t :: rest) => (if ok then .set_pending t rest else .lock rest, s)
  | .set_pending t rest =>
    let r := s.set_state t timer_state_started timer_state_pending
    (if r.1 then if s.repeated t then .restart_check t rest else .set_finished t rest
      else .lock rest, r.2)
  | .restart_check t rest => (if s.started then .restart_exchange t rest else .lock rest, s)
  | .restart_exchange t rest =>
    let r := s.set_state t timer_state_pending timer_state_started
    (if r.1 then .restart_enqueue t rest else .lock rest, r.2)
  | .restart_enqueue t rest => (.call t rest, { s with new_timers := s.new_timers ++ [t] })
  | .set_finished t rest =>
    let r := s.set_state t timer_state_pending timer_state_finished
    (if r.1 then .call t rest else .lock rest, r.2)
  | .call t rest => (.callback t rest .idle, s.record (.called t))
  | .callback _ rest .idle => (.lock rest, s)
  | .callback t rest call =>
    let r := s.call_step call
    (.callback t rest r.1, r.2)

variable [DecidableEq ι]

/-- Thread `i` goes to `pc`. -/
def goto (s : Engine ι τ) (i : ι) (pc : TimerCall τ) : Engine ι τ :=
  { s with calls := Function.update s.calls i pc }

/-- The worker calls `start_timer` or `stop` in a callback. -/
def worker_enter (s : Engine ι τ) (call : TimerCall τ) : Option (Engine ι τ) :=
  match s.worker with
  | .callback t rest .idle => some { s with worker := .callback t rest call }
  | _ => none

def step (s : Engine ι τ) : EngineLabel ι τ → Option (Engine ι τ)
  | .start_timer i t => if s.calls i = .idle then some (s.goto i (.start_check t)) else none
  | .stop i t => if s.calls i = .idle then some (s.goto i (.stop_store t)) else none
  | .step i =>
    let r := s.call_step (s.calls i)
    some (r.2.goto i r.1)
  | .observer now later ok =>
    let r := s.observer_step now later ok s.observer
    some { r.2 with observer := r.1 }
  | .worker ok =>
    let r := s.worker_step ok s.worker
    some { r.2 with worker := r.1 }
  | .worker_start t => s.worker_enter (.start_check t)
  | .worker_stop t => s.worker_enter (.stop_store t)
  | .engine_stop => some { s with started := false }

end Engine

end Pump
