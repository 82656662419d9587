import Pump.Toolkit.M2mQueue

/-! # poller

    The event queues of `poll/poller.cpp`. Any number of threads push channel
    events, and tracker events when they install or uninstall a tracker; the
    thread of the poller takes the count of a queue and pops as many events.
    One step is one access to what they share.

    The two queues are alike, and a `kind` says which one is meant. An event
    is the number of its object. What a handler calls is a call of one more
    thread here, and what `__poll` does has no effect on the queues. -/

namespace Pump

/-! ## Section 1: Model -/

/-- `cevents_` with `cev_cnt_`, or `tevents_` with `tev_cnt_`. -/
inductive EventKind where
  | channel
  | tracker
  deriving DecidableEq, Repr

/-- Where a thread is that pushes events. -/
inductive PushPc where
  | idle
  | started (kind : EventKind) (ev : Nat)
  | push (kind : EventKind) (ev : Nat) (op : M2m.Op Nat)
  | add (kind : EventKind) (ev : Nat)
  deriving DecidableEq

/-- Where the thread of the poller is. -/
inductive WorkerPc where
  | exited
  | loop
  | exchange (kind : EventKind)
  | handle (kind : EventKind) (cnt : Int)
  | pop (kind : EventKind) (cnt : Int) (op : M2m.Op Nat)
  -- a call of pump_abort
  | aborted
  deriving DecidableEq

/-- A poller with its threads. The last field is a record of the run: the
    events whose nodes are reserved and that are not counted yet, in the order
    of the reservations. -/
structure Poller (ι : Type) where
  is_started : Bool
  cnt : EventKind → BitVec 32
  events : EventKind → M2m.Nodes Nat
  created : Nat
  pcs : ι → PushPc
  worker : WorkerPc
  uncounted : EventKind → List Nat

inductive PollerLabel (ι : Type) where
  | start
  | stop
  | push_channel_event (i : ι)
  | install_channel_tracker (i : ι)
  | uninstall_channel_tracker (i : ι)
  /-- The next step of a thread; `ok` is whether the tracker can be installed
      and the objects can be created. -/
  | step (i : ι) (ok : Bool)
  /-- The next step of the thread of the poller. -/
  | work

namespace Poller

variable {ι : Type}

def construct : Poller ι :=
  { is_started := false
    cnt := fun _ => 0
    events := fun _ => M2m.init_list 1024 1024
    created := 0
    pcs := fun _ => .idle
    worker := .exited
    uncounted := fun _ => [] }

variable [DecidableEq ι]

def goto (s : Poller ι) (i : ι) (pc : PushPc) : Poller ι :=
  { s with pcs := Function.update s.pcs i pc }

/-- A step of an operation on a queue. -/
def queue_step (s : Poller ι) (kind : EventKind) (ok : Bool) (op : M2m.Op Nat) :
    Poller ι × M2m.Turn Nat :=
  let r := op.step 1024 ok (s.events kind)
  ({ s with events := Function.update s.events kind r.1 }, r.2)

/-- A call by an idle thread that pushes an event, which is a new object. -/
def enter (s : Poller ι) (i : ι) (kind : EventKind) : Option (Poller ι) :=
  match s.pcs i with
  | .idle => some (({ s with created := s.created + 1 } : Poller ι).goto i (.started kind s.created))
  | _ => none

def action (s : Poller ι) (i : ι) (ok : Bool) : PushPc → Option (Poller ι)
  | .idle => none
  | .started kind ev =>
    some (s.goto i (if s.is_started ∧ ok then .push kind ev (.push_load ev) else .idle))
  | .push kind ev op =>
    let r := s.queue_step kind ok op
    match r.2 with
    | .goes op' =>
      let uncounted :=
        if op.reserves op' then s.uncounted kind ++ [ev] else s.uncounted kind
      some (({ r.1 with
        uncounted := Function.update s.uncounted kind uncounted } :
          Poller ι).goto i (.push kind ev op'))
    | .returns _ => some (r.1.goto i (.add kind ev))
  | .add kind ev =>
    some (({ s with
      cnt := Function.update s.cnt kind (s.cnt kind + 1)
      uncounted := Function.update s.uncounted kind ((s.uncounted kind).erase ev) } :
        Poller ι).goto i .idle)

/-- Where the thread of the poller goes after a step of a pop. -/
def after_pop (kind : EventKind) (cnt : Int) : M2m.Turn Nat → WorkerPc
  | .goes op => .pop kind cnt op
  | .returns (.popped _) => .handle kind (cnt - 1)
  | .returns _ => .aborted

/-- `__handle_channel_events` and `__handle_channel_tracker_events` in the
    loop of the thread. -/
def work (s : Poller ι) : WorkerPc → Option (Poller ι)
  | .exited => none
  | .loop => some { s with worker := if s.is_started then .exchange .channel else .exited }
  | .exchange kind =>
    some { s with
      cnt := Function.update s.cnt kind 0
      worker := .handle kind (s.cnt kind).toInt }
  | .handle kind cnt =>
    some { s with
      worker := if cnt > 0 then .pop kind cnt .pop_load else
        match kind with
        | .channel => .exchange .tracker
        | .tracker => .loop }
  | .pop kind cnt op =>
    let r := s.queue_step kind true op
    some { r.1 with worker := after_pop kind cnt r.2 }
  | .aborted => none

def step (s : Poller ι) : PollerLabel ι → Option (Poller ι)
  | .start =>
    match s.is_started, s.worker with
    | false, .exited => some { s with is_started := true, worker := .loop }
    | _, _ => none
  | .stop => some { s with is_started := false }
  | .push_channel_event i => s.enter i .channel
  | .install_channel_tracker i => s.enter i .tracker
  | .uninstall_channel_tracker i => s.enter i .tracker
  | .step i ok => s.action i ok (s.pcs i)
  | .work => s.work s.worker

end Poller

end Pump
