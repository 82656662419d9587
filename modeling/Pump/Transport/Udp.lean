import Pump.Lts
import Pump.Once
import Pump.Total
import Pump.Transport.Types

/-! # udp_transport

    `transport/udp_transport.cpp` with what it uses of `base_transport`. Any
    number of threads run it; one step is one access to what they share, with
    what the thread does before the next one. The outcome of an operation on
    the system is part of the label: `ok` for one that may fail, and `n` for
    what `read_from` or `send` of the flow returns. -/

namespace Pump

open TransportState ErrorCode ReadMode ReadState

/-! ## Section 1: Model -/

/-- A call of one of the `transport_callbacks`. -/
inductive UdpCall where
  | read_from_cb (size : Int)
  | disconnected_cb
  | stopped_cb
  deriving DecidableEq, Repr

/-- `channel_tracker`. A tracker whose start has failed in the system is not
    idle, but no event comes for it. -/
inductive UdpTracker where
  | tracker_idle
  | tracker_tracking
  | tracker_failed
  deriving DecidableEq, Repr

open UdpTracker

/-- Where a thread is. -/
inductive UdpPc where
  | idle
  -- start
  | start_state (mode : ReadMode)
  | start_open
  | start_install
  | start_started
  | start_error
  | start_close
  | start_return (ec : ErrorCode)
  -- stop and force_stop
  | stop_loop
  | stop_started
  | stop_post
  -- async_read
  | read_check
  | read_change
  | read_start (ec : ErrorCode)
  | read_return (ec : ErrorCode)
  -- send
  | send_check
  | send_flow
  | send_return (ec : ErrorCode)
  -- on_read_event
  | data_wait
  | data_read
  | data_change (size : Int)
  | data_start (size : Int)
  -- on_channel_event
  | channel_disconnected
  | channel_stopped
  -- a callback is due
  | call (c : UdpCall)
  deriving DecidableEq, Repr

/-- A transport and the threads `ι`. The last fields are a record of the run:
    how often `async_read` has made the read pending, how often it returned
    `error_none`, and the callbacks. -/
structure UdpTransport (ι : Type) where
  state : TransportState
  rmode : ReadMode
  rstate : ReadState
  r_tracker : UdpTracker
  posted : Nat
  pcs : ι → UdpPc
  taken : Nat
  accepted : Nat
  calls : List UdpCall

inductive UdpLabel (ι : Type) where
  /-- A call of `start`; `valid` is the outcome of its checks on the service
      and the callbacks. -/
  | start (i : ι) (valid : Bool) (mode : ReadMode)
  /-- A call of `stop` or `force_stop`. -/
  | stop (i : ι)
  | async_read (i : ι)
  /-- A call of either `send`; `valid` is whether there are bytes to send. -/
  | send (i : ι) (valid : Bool)
  /-- The read poller reports the socket. -/
  | read_event (i : ι)
  /-- A poller takes one of the posted channel events. -/
  | channel_event (i : ι)
  /-- The next step of a thread. -/
  | step (i : ι) (ok : Bool) (n : Int)
  deriving DecidableEq

namespace UdpTransport

variable {ι : Type}

/-- A new transport. -/
def new : UdpTransport ι :=
  { state := state_none
    rmode := read_mode_none
    rstate := read_none
    r_tracker := tracker_idle
    posted := 0
    pcs := fun _ => .idle
    taken := 0
    accepted := 0
    calls := [] }

/-- `__set_state`. -/
def set_state (s : UdpTransport ι) (expected desired : TransportState) : Bool × UdpTransport ι :=
  if s.state = expected then (true, { s with state := desired }) else (false, s)

/-- `__start_read_tracker`; `ok` is the outcome in the system. -/
def start_read_tracker (s : UdpTransport ι) (ok : Bool) : Bool × UdpTransport ι :=
  if s.r_tracker = tracker_idle then
    (ok, { s with r_tracker := if ok then tracker_tracking else tracker_failed })
  else (false, s)

/-- The next step of a thread: where it goes and what it does to the rest. -/
def action (s : UdpTransport ι) (ok : Bool) (n : Int) : UdpPc → UdpPc × UdpTransport ι
  | .idle => (.idle, s)
  | .start_state mode =>
    let r := s.set_state state_none state_starting
    if r.1 then (.start_open, { r.2 with rmode := mode }) else (.start_return error_fault, r.2)
  | .start_open => (if ok then .start_install else .start_error, s)
  | .start_install => (if ok then .start_started else .start_error, s)
  | .start_started =>
    let r := s.set_state state_starting state_started
    (if r.1 then .start_return error_none else .start_error, r.2)
  | .start_error => (.start_close, (s.set_state state_starting state_error).2)
  | .start_close => (.start_return error_fault, s)
  | .start_return _ => (.idle, s)
  | .stop_loop => (if s.state = state_started then .stop_started else .idle, s)
  | .stop_started =>
    let r := s.set_state state_started state_stopping
    (if r.1 then .stop_post else .stop_loop, r.2)
  | .stop_post => (.idle, { s with posted := if ok then s.posted + 1 else s.posted })
  | .read_check => (if s.state = state_started then .read_change else .read_return error_unstart, s)
  | .read_change =>
    if s.rstate = read_none then
      (.read_start error_none, { s with rstate := read_pending, taken := s.taken + 1 })
    else (if s.rmode = read_mode_loop then .read_start error_fault else .read_return error_fault, s)
  | .read_start ec =>
    let r := s.start_read_tracker ok
    (.read_return (if r.1 then ec else error_fault), r.2)
  | .read_return ec =>
    (.idle, { s with accepted := if ec = error_none then s.accepted + 1 else s.accepted })
  | .send_check => (if s.state = state_started then .send_flow else .send_return error_unstart, s)
  | .send_flow => (.send_return (if n < 0 then error_again else error_none), s)
  | .send_return _ => (.idle, s)
  | .data_wait => (if s.state = state_starting then .data_wait else .data_read, s)
  | .data_read =>
    (if n > 0 ∧ s.rmode = read_mode_once then .data_change n else .data_start n, s)
  | .data_change size =>
    (.call (.read_from_cb size),
      if s.rstate = read_pending then { s with rstate := read_none } else s)
  | .data_start size =>
    let r := s.start_read_tracker ok
    (if size > 0 then .call (.read_from_cb size) else .idle, r.2)
  | .channel_disconnected =>
    let r := s.set_state state_disconnecting state_disconnected
    (if r.1 then .call .disconnected_cb else .channel_stopped, r.2)
  | .channel_stopped =>
    let r := s.set_state state_stopping state_stopped
    (if r.1 then .call .stopped_cb else .idle, r.2)
  | .call c => (.idle, { s with calls := s.calls ++ [c] })

variable [DecidableEq ι]

/-- Thread `i` goes to `pc`. -/
def goto (s : UdpTransport ι) (i : ι) (pc : UdpPc) : UdpTransport ι :=
  { s with pcs := Function.update s.pcs i pc }

theorem goto_self (s : UdpTransport ι) (i : ι) (pc : UdpPc) : (s.goto i pc).pcs i = pc := by
  simp [goto]

theorem goto_of_ne (s : UdpTransport ι) {i j : ι} (pc : UdpPc) (hji : j ≠ i) :
    (s.goto i pc).pcs j = s.pcs j := by
  simp [goto, hji]

/-- A function of the transport is entered by an idle thread. -/
def enter (s : UdpTransport ι) (i : ι) (pc : UdpPc) : Option (UdpTransport ι) :=
  if s.pcs i = .idle then some (s.goto i pc) else none

def step (s : UdpTransport ι) : UdpLabel ι → Option (UdpTransport ι)
  | .start i valid mode =>
    s.enter i (if valid && (mode = read_mode_once || mode = read_mode_loop) then .start_state mode
      else .start_return error_invalid)
  | .stop i => s.enter i .stop_loop
  | .async_read i => s.enter i .read_check
  | .send i valid => s.enter i (if valid then .send_check else .send_return error_invalid)
  | .read_event i =>
    if s.r_tracker = tracker_tracking then
      ({ s with r_tracker := tracker_idle } : UdpTransport ι).enter i .data_wait
    else none
  | .channel_event i =>
    if 0 < s.posted then
      ({ s with posted := s.posted - 1 } : UdpTransport ι).enter i .channel_disconnected
    else none
  | .step i ok n =>
    let r := s.action ok n (s.pcs i)
    some (r.2.goto i r.1)

end UdpTransport

/-! ## Section 2: What is counted -/

namespace UdpPc

/-- The thread reads, or is about to arm the tracker. -/
def reader : UdpPc → ℤ
  | .read_start _ | .data_wait | .data_read | .data_change _ | .data_start _ => 1
  | _ => 0

/-- The thread is about to hand over a datagram. -/
def holding : UdpPc → ℤ
  | .call (.read_from_cb _) => 1
  | _ => 0

/-- The thread has made the read pending, and no error since. -/
def winning : UdpPc → ℤ
  | .read_start error_none | .read_return error_none => 1
  | _ => 0

/-- The thread has come past a check of the state, or reads. -/
def about : UdpPc → Bool
  | .read_change | .read_start _ | .read_return error_none | .data_wait | .data_read | .data_change _
  | .data_start _ | .call _ | .channel_disconnected | .channel_stopped | .stop_started
  | .stop_post => true
  | _ => false

theorem reader_nonneg (pc : UdpPc) : 0 ≤ pc.reader := by
  unfold reader
  split
  all_goals decide

theorem holding_nonneg (pc : UdpPc) : 0 ≤ pc.holding := by
  unfold holding
  split
  · decide
  · decide

theorem winning_nonneg (pc : UdpPc) : 0 ≤ pc.winning := by
  unfold winning
  split
  · decide
  · decide
  · decide

/-- Such a thread counts for nothing. -/
theorem counts_nothing {pc : UdpPc} (h : pc.about = false) :
    pc.reader = 0 ∧ pc.holding = 0 ∧ pc.winning = 0 := by
  cases pc with
  | read_return ec => cases ec <;> first | exact ⟨rfl, rfl, rfl⟩ | cases h
  | _ => first | exact ⟨rfl, rfl, rfl⟩ | cases h

end UdpPc

def UdpCall.is_read : UdpCall → Bool
  | .read_from_cb _ => true
  | _ => false

namespace UdpTransport

variable {ι : Type}

/-- The tracker is armed, or its start has failed. -/
def armed (s : UdpTransport ι) : ℤ := if s.r_tracker = tracker_idle then 0 else 1

/-- A read is pending. -/
def due (s : UdpTransport ι) : ℤ := if s.rstate = read_pending then 1 else 0

/-- The datagrams that were handed over. -/
def handed (s : UdpTransport ι) : ℤ := s.calls.countP UdpCall.is_read

/-- **The books** of a transport that reads once: who reads and an armed
    tracker stand for the pending read, and each read that was made pending is
    pending still, or its datagram is about to be handed over, or was. -/
structure Books (s : UdpTransport ι) (t h : ℤ) : Prop where
  readers : Total (fun i => (s.pcs i).reader) t
  holders : Total (fun i => (s.pcs i).holding) h
  token : t + s.armed = s.due
  reads : s.taken = s.handed + h + s.due

theorem armed_nonneg (s : UdpTransport ι) : 0 ≤ s.armed := by
  unfold armed
  split
  · decide
  · decide

theorem due_nonneg (s : UdpTransport ι) : 0 ≤ s.due := by
  unfold due
  split
  · decide
  · decide

theorem due_le_one (s : UdpTransport ι) : s.due ≤ 1 := by
  unfold due
  split
  · decide
  · decide

section

variable [DecidableEq ι] {s s' : UdpTransport ι} {t h : ℤ} {i : ι}

/-- Who reads, reads what is pending, with the tracker idle. -/
theorem Books.reader (hb : s.Books t h) (hi : (s.pcs i).reader = 1) :
    s.rstate = read_pending ∧ s.r_tracker = tracker_idle := by
  have hle := hb.readers.le (fun j => (s.pcs j).reader_nonneg) i
  have htoken := hb.token
  have harmed := s.armed_nonneg
  have hdue := s.due_le_one
  rw [hi] at hle
  constructor
  · by_contra hne
    have hzero : s.due = 0 := if_neg hne
    omega
  · by_contra hne
    have hone : s.armed = 1 := if_neg hne
    omega

/-- **Step rule** for the books. -/
theorem Books.move {pc : UdpPc} (hb : s.Books t h) (hpcs : s'.pcs = Function.update s.pcs i pc)
    (htoken : pc.reader + s'.armed - s'.due = (s.pcs i).reader + s.armed - s.due)
    (hreads : s'.taken - s'.handed - pc.holding - s'.due =
      s.taken - s.handed - (s.pcs i).holding - s.due) : ∃ t' h', s'.Books t' h' := by
  have hreaders := hb.readers.move (g := UdpPc.reader) i pc
  have hholders := hb.holders.move (g := UdpPc.holding) i pc
  rw [← hpcs] at hreaders hholders
  refine ⟨_, _, hreaders, hholders, ?_, ?_⟩
  · have htok := hb.token
    omega
  · have hread := hb.reads
    omega

end

theorem action_pcs (s : UdpTransport ι) (ok : Bool) (n : Int) (pc : UdpPc) :
    (s.action ok n pc).2.pcs = s.pcs := by
  cases pc with
  | _ =>
    simp only [action, set_state, start_read_tracker]
    repeat' split
    all_goals rfl

/-- **Every step keeps the books.** -/
theorem action_books (s : UdpTransport ι) (ok : Bool) (n : Int) (pc : UdpPc)
    (hmode : s.rmode = read_mode_once)
    (hreader : pc.reader = 1 → s.rstate = read_pending ∧ s.r_tracker = tracker_idle)
    (hnothing : ∀ size, pc = .data_start size → size ≤ 0) :
    (s.action ok n pc).1.reader + (s.action ok n pc).2.armed - (s.action ok n pc).2.due =
        pc.reader + s.armed - s.due ∧
      (s.action ok n pc).2.taken - (s.action ok n pc).2.handed - (s.action ok n pc).1.holding -
          (s.action ok n pc).2.due = s.taken - s.handed - pc.holding - s.due := by
  cases pc with
  | read_change =>
    simp only [action]
    split
    · next hnone =>
      -- the read becomes pending
      have hdue : s.due = 0 := by
        unfold due
        rw [hnone]
        rfl
      constructor
      · show (1 : ℤ) + s.armed - 1 = 0 + s.armed - s.due
        omega
      · show ((s.taken + 1 : ℕ) : ℤ) - s.handed - 0 - 1 = s.taken - s.handed - 0 - s.due
        omega
    · rw [hmode, if_neg (by decide)]
      exact ⟨rfl, rfl⟩
  | read_start ec =>
    have hidle := (hreader rfl).2
    have harmed : s.armed = 0 := if_pos hidle
    have hafter : ∀ tr, tr ≠ tracker_idle →
        ({ s with r_tracker := tr } : UdpTransport ι).armed = 1 := fun tr htr => if_neg htr
    simp only [action, start_read_tracker, if_pos hidle]
    constructor
    · rw [hafter _ (by split <;> decide), harmed]
      rfl
    · rfl
  | data_start size =>
    have hidle := (hreader rfl).2
    have harmed : s.armed = 0 := if_pos hidle
    have hafter : ∀ tr, tr ≠ tracker_idle →
        ({ s with r_tracker := tr } : UdpTransport ι).armed = 1 := fun tr htr => if_neg htr
    simp only [action, start_read_tracker, if_pos hidle]
    rw [if_neg (not_lt.mpr (hnothing size rfl)), hafter _ (by split <;> decide), harmed]
    exact ⟨rfl, rfl⟩
  | data_read =>
    simp only [action]
    split
    · exact ⟨rfl, rfl⟩
    · exact ⟨rfl, rfl⟩
  | data_change size =>
    have hpending := (hreader rfl).1
    have hdue : s.due = 1 := if_pos hpending
    simp only [action, if_pos hpending]
    constructor
    · show (0 : ℤ) + s.armed - 0 = 1 + s.armed - s.due
      omega
    · show (s.taken : ℤ) - s.handed - 1 - 0 = s.taken - s.handed - 0 - s.due
      omega
  | call c =>
    refine ⟨rfl, ?_⟩
    have hhanded : ({ s with calls := s.calls ++ [c] } : UdpTransport ι).handed =
        s.handed + (UdpPc.call c).holding := by
      unfold handed
      rw [List.countP_append]
      cases c <;> simp [UdpCall.is_read, UdpPc.holding]
    simp only [action]
    rw [hhanded]
    show (s.taken : ℤ) - (s.handed + (UdpPc.call c).holding) - 0 - s.due = _
    omega
  | _ =>
    simp only [action, set_state]
    repeat' split
    all_goals
      constructor
      all_goals first | rfl | trivial

/-! ## Section 3: The invariant -/

/-- Nothing has happened but calls that are refused. -/
structure Fresh (s : UdpTransport ι) : Prop where
  rmode : s.rmode = read_mode_none
  rstate : s.rstate = read_none
  tracker : s.r_tracker = tracker_idle
  posted : s.posted = 0
  taken : s.taken = 0
  accepted : s.accepted = 0
  calls : s.calls = []
  threads : ∀ i, (s.pcs i).about = false

/-- **The invariant** about reading. -/
structure Reads (s : UdpTransport ι) : Prop where
  modes : ∀ i mode, s.pcs i = .start_state mode → mode ≠ read_mode_none
  fresh : s.state = state_none → s.Fresh
  started : s.state ≠ state_none → s.rmode ≠ read_mode_none
  small : s.rmode = read_mode_once → ∀ i size, s.pcs i = .data_start size → size ≤ 0
  once : s.rmode = read_mode_once → ∃ t h, s.Books t h
  loop : s.rmode = read_mode_loop → s.taken = s.due ∧ ∀ i size, s.pcs i ≠ .data_change size
  accepted : ∃ w, Total (fun i => (s.pcs i).winning) w ∧ s.accepted + w ≤ s.taken

/-- Before the start, a step of a thread changes nothing, or it is the start. -/
theorem action_fresh {s : UdpTransport ι} (ok : Bool) (n : Int) {pc : UdpPc}
    (hstate : s.state = state_none) (hpc : pc.about = false) :
    ((s.action ok n pc).2 = s ∧ (s.action ok n pc).1.about = false ∧
        ∀ mode, (s.action ok n pc).1 ≠ .start_state mode) ∨
      ∃ mode, pc = .start_state mode ∧
        s.action ok n pc = (.start_open, { s with state := state_starting, rmode := mode }) := by
  cases pc with
  | start_state mode =>
    refine .inr ⟨mode, rfl, ?_⟩
    simp [action, set_state, hstate]
  | read_return ec =>
    refine .inl ?_
    cases ec with
    | error_none => cases hpc
    | _ => exact ⟨rfl, rfl, fun mode => by simp [action]⟩
  | read_change | read_start | data_wait | data_read | data_change | data_start | call
  | channel_disconnected | channel_stopped | stop_started | stop_post => cases hpc
  | start_started | start_error | stop_loop | read_check | send_check =>
    refine .inl ?_
    simp [action, set_state, hstate, UdpPc.about]
  | start_open | start_install =>
    refine .inl ?_
    simp only [action]
    split
    all_goals exact ⟨by trivial, rfl, fun mode => by simp⟩
  | _ => exact .inl ⟨rfl, rfl, fun mode => by simp [action]⟩

/-- After the start, the mode stays. -/
theorem action_kept (s : UdpTransport ι) (ok : Bool) (n : Int) (pc : UdpPc)
    (hstate : s.state ≠ state_none) :
    (s.action ok n pc).2.state ≠ state_none ∧ (s.action ok n pc).2.rmode = s.rmode ∧
      ∀ mode, (s.action ok n pc).1 ≠ .start_state mode := by
  cases pc with
  | start_state mode =>
    simp only [action, set_state, if_neg hstate]
    exact ⟨hstate, rfl, fun mode => by simp⟩
  | _ =>
    simp only [action, set_state, start_read_tracker]
    repeat' split
    all_goals first | exact ⟨hstate, rfl, fun mode => by simp⟩ | simp_all

theorem action_winning (s : UdpTransport ι) (ok : Bool) (n : Int) (pc : UdpPc) :
    (s.action ok n pc).2.accepted + (s.action ok n pc).1.winning - (s.action ok n pc).2.taken ≤
      s.accepted + pc.winning - s.taken := by
  cases pc with
  | read_change =>
    simp only [action]
    split
    · show (s.accepted : ℤ) + 1 - ((s.taken + 1 : ℕ) : ℤ) ≤ s.accepted + 0 - s.taken
      omega
    · split
      all_goals exact le_refl _
  | read_start ec =>
    simp only [action, start_read_tracker]
    cases ec
    all_goals
      repeat' split
      all_goals
        simp only [UdpPc.winning]
        omega
  | read_return ec =>
    simp only [action]
    cases ec
    all_goals
      simp only [UdpPc.winning]
      simp
  | _ =>
    simp only [action, set_state, start_read_tracker]
    repeat' split
    all_goals exact le_refl _

theorem action_loop (s : UdpTransport ι) (ok : Bool) (n : Int) {pc : UdpPc}
    (hmode : s.rmode = read_mode_loop) (hpc : ∀ size, pc ≠ .data_change size) :
    (s.action ok n pc).2.taken - (s.action ok n pc).2.due = s.taken - s.due ∧
      ∀ size, (s.action ok n pc).1 ≠ .data_change size := by
  cases pc with
  | data_change size => exact absurd rfl (hpc size)
  | read_change =>
    simp only [action]
    split
    · next hnone =>
      have hdue : s.due = 0 := by
        unfold due
        rw [hnone]
        rfl
      refine ⟨?_, by simp⟩
      show ((s.taken + 1 : ℕ) : ℤ) - 1 = s.taken - s.due
      omega
    · exact ⟨rfl, by simp⟩
  | data_read =>
    simp only [action]
    rw [if_neg (by simp [hmode])]
    exact ⟨by trivial, by simp⟩
  | _ =>
    simp only [action, set_state, start_read_tracker]
    repeat' split
    all_goals exact ⟨by trivial, fun size => by simp⟩

theorem action_small (s : UdpTransport ι) (ok : Bool) (n : Int) {pc : UdpPc}
    (hmode : s.rmode = read_mode_once) {size : Int} (h : (s.action ok n pc).1 = .data_start size) :
    size ≤ 0 := by
  cases pc with
  | data_read =>
    simp only [action, hmode, and_true] at h
    split at h
    · cases h
    · cases h
      omega
  | _ =>
    simp only [action, set_state, start_read_tracker] at h
    repeat' split at h
    all_goals cases h

section

variable [DecidableEq ι] {s s' : UdpTransport ι} {i : ι} {pc : UdpPc}

omit [DecidableEq ι] in
theorem reads_new : (new : UdpTransport ι).Reads := by
  refine ⟨?_, ?_, ?_, ?_, ?_, ?_, ?_⟩
  · intro i mode h
    cases h
  · intro _
    exact ⟨rfl, rfl, rfl, rfl, rfl, rfl, rfl, fun _ => rfl⟩
  · intro h
    exact absurd rfl h
  · intro h
    cases h
  · intro h
    cases h
  · intro h
    cases h
  · exact ⟨0, Total.start fun _ => rfl, le_refl _⟩

/-- A thread that counts for nothing goes where it counts for nothing. -/
theorem Reads.aside (hI : s.Reads) (hi : (s.pcs i).about = false) (hpc : pc.about = false)
    (hmode : ∀ mode, pc = .start_state mode → mode ≠ read_mode_none) : (s.goto i pc).Reads := by
  obtain ⟨hreader, hholding, hwinning⟩ := UdpPc.counts_nothing hi
  obtain ⟨hreader', hholding', hwinning'⟩ := UdpPc.counts_nothing hpc
  -- what holds of the places of all threads
  have hall : ∀ P : UdpPc → Prop, P pc → (∀ j, P (s.pcs j)) → ∀ j, P ((s.goto i pc).pcs j) := by
    intro P hp hold j
    by_cases hj : j = i
    · subst hj
      simpa [goto] using hp
    · simpa [goto, hj] using hold j
  refine ⟨?_, ?_, hI.started, ?_, ?_, ?_, ?_⟩
  · exact hall (fun p => ∀ mode, p = .start_state mode → mode ≠ read_mode_none) hmode hI.modes
  · intro hstate
    have hfresh := hI.fresh hstate
    exact ⟨hfresh.rmode, hfresh.rstate, hfresh.tracker, hfresh.posted, hfresh.taken,
      hfresh.accepted, hfresh.calls, hall (fun p => p.about = false) hpc hfresh.threads⟩
  · intro honce
    apply hall (fun p => ∀ size, p = .data_start size → size ≤ 0) _ (hI.small honce)
    rintro size rfl
    cases hpc
  · intro honce
    obtain ⟨t, h, hb⟩ := hI.once honce
    apply hb.move rfl
    · rw [hreader, hreader']
      rfl
    · rw [hholding, hholding']
      rfl
  · intro hloop
    refine ⟨(hI.loop hloop).1, ?_⟩
    apply hall (fun p => ∀ size, p ≠ .data_change size) _ (hI.loop hloop).2
    rintro size rfl
    cases hpc
  · obtain ⟨w, htotal, hle⟩ := hI.accepted
    refine ⟨_, htotal.move (g := UdpPc.winning) i pc, ?_⟩
    rw [hwinning, hwinning']
    show (s.accepted : ℤ) + (w - 0 + 0) ≤ s.taken
    omega

/-- The start. -/
theorem Reads.start (hI : s.Reads) (hstate : s.state = state_none) {mode : ReadMode}
    (hmode : mode ≠ read_mode_none) :
    (({ s with state := state_starting, rmode := mode } : UdpTransport ι).goto i
      .start_open).Reads := by
  have hfresh := hI.fresh hstate
  have hthreads : ∀ j, (Function.update s.pcs i .start_open j).about = false := by
    intro j
    by_cases hj : j = i
    · subst hj
      simp [UdpPc.about]
    · simpa [hj] using hfresh.threads j
  refine ⟨?_, ?_, fun _ => hmode, ?_, ?_, ?_, ?_⟩
  · intro j mode' hj
    have hne : j ≠ i := by
      rintro rfl
      simp [goto] at hj
    apply hI.modes j mode'
    simpa [goto, hne] using hj
  · intro h
    cases h
  · intro _ j size hj
    have habout := hthreads j
    rw [show Function.update s.pcs i .start_open j = _ from hj] at habout
    cases habout
  · intro _
    refine ⟨0, 0, ?_, ?_, ?_, ?_⟩
    · exact Total.start fun j => (UdpPc.counts_nothing (hthreads j)).1
    · exact Total.start fun j => (UdpPc.counts_nothing (hthreads j)).2.1
    · simp [goto, armed, due, hfresh.tracker, hfresh.rstate]
    · simp [goto, due, handed, hfresh.rstate, hfresh.taken, hfresh.calls]
  · intro _
    constructor
    · simp [goto, due, hfresh.rstate, hfresh.taken]
    · intro j size hj
      have habout := hthreads j
      rw [show Function.update s.pcs i .start_open j = _ from hj] at habout
      cases habout
  · refine ⟨0, Total.start fun j => (UdpPc.counts_nothing (hthreads j)).2.2, ?_⟩
    simp [goto, hfresh.accepted]

/-- A step after the start. -/
theorem Reads.move (hI : s.Reads) (hpcs : s'.pcs = Function.update s.pcs i pc)
    (hstate : s.state ≠ state_none) (hstate' : s'.state ≠ state_none) (hrmode : s'.rmode = s.rmode)
    (hmode : ∀ mode, pc ≠ .start_state mode)
    (honce : s.rmode = read_mode_once →
      pc.reader + s'.armed - s'.due = (s.pcs i).reader + s.armed - s.due ∧
        s'.taken - s'.handed - pc.holding - s'.due =
          s.taken - s.handed - (s.pcs i).holding - s.due ∧
        ∀ size, pc = .data_start size → size ≤ 0)
    (hloop : s.rmode = read_mode_loop →
      s'.taken - s'.due = s.taken - s.due ∧ ∀ size, pc ≠ .data_change size)
    (hwin : s'.accepted + pc.winning - s'.taken ≤ s.accepted + (s.pcs i).winning - s.taken) :
    s'.Reads := by
  have hall : ∀ P : UdpPc → Prop, P pc → (∀ j, P (s.pcs j)) → ∀ j, P (s'.pcs j) := by
    intro P hp hold j
    rw [hpcs]
    by_cases hj : j = i
    · subst hj
      simpa using hp
    · simpa [hj] using hold j
  refine ⟨?_, fun h => absurd h hstate', ?_, ?_, ?_, ?_, ?_⟩
  · exact hall (fun p => ∀ mode, p = .start_state mode → mode ≠ read_mode_none)
      (fun mode h => absurd h (hmode mode)) hI.modes
  · intro _
    rw [hrmode]
    exact hI.started hstate
  · intro h
    rw [hrmode] at h
    exact hall (fun p => ∀ size, p = .data_start size → size ≤ 0) (honce h).2.2 (hI.small h)
  · intro h
    rw [hrmode] at h
    obtain ⟨t, held, hb⟩ := hI.once h
    exact hb.move hpcs (honce h).1 (honce h).2.1
  · intro h
    rw [hrmode] at h
    obtain ⟨hbalance, hnot⟩ := hloop h
    have hdue := (hI.loop h).1
    refine ⟨by omega, ?_⟩
    exact hall (fun p => ∀ size, p ≠ .data_change size) hnot (hI.loop h).2
  · obtain ⟨w, htotal, hle⟩ := hI.accepted
    have hmoved := htotal.move (g := UdpPc.winning) i pc
    rw [← hpcs] at hmoved
    exact ⟨_, hmoved, by omega⟩

/-- A step of a thread keeps the invariant. -/
theorem Reads.action (hI : s.Reads) (i : ι) (ok : Bool) (n : Int) :
    ((s.action ok n (s.pcs i)).2.goto i (s.action ok n (s.pcs i)).1).Reads := by
  by_cases hstate : s.state = state_none
  · have hi := (hI.fresh hstate).threads i
    obtain ⟨hsame, habout, hmode⟩ | ⟨mode, hpc, heq⟩ := action_fresh ok n hstate hi
    · rw [hsame]
      exact hI.aside hi habout fun mode h => absurd h (hmode mode)
    · rw [heq]
      exact hI.start hstate (hI.modes i mode hpc)
  · obtain ⟨hstate', hrmode, hmode⟩ := action_kept s ok n (s.pcs i) hstate
    have hpcs : ((s.action ok n (s.pcs i)).2.goto i (s.action ok n (s.pcs i)).1).pcs =
        Function.update s.pcs i (s.action ok n (s.pcs i)).1 := by
      unfold goto
      rw [action_pcs]
    apply hI.move hpcs hstate hstate' hrmode hmode
    · intro honce
      obtain ⟨t, h, hb⟩ := hI.once honce
      obtain ⟨htoken, hreads⟩ := action_books s ok n (s.pcs i) honce hb.reader (hI.small honce i)
      exact ⟨htoken, hreads, fun size hsize => action_small s ok n honce hsize⟩
    · intro hloop
      exact action_loop s ok n hloop ((hI.loop hloop).2 i)
    · exact action_winning s ok n (s.pcs i)

theorem enter_some (h : s.enter i pc = some s') : s.pcs i = .idle ∧ s' = s.goto i pc := by
  unfold enter at h
  split at h
  · next hidle =>
    cases h
    exact ⟨hidle, rfl⟩
  · cases h

/-- **Every step keeps the invariant.** -/
theorem Reads.step (hI : s.Reads) {l : UdpLabel ι} (h : s.step l = some s') : s'.Reads := by
  cases l with
  | start i valid mode =>
    obtain ⟨hidle, rfl⟩ := enter_some h
    apply hI.aside
    · rw [hidle]
      rfl
    · split
      · rfl
      · rfl
    · intro mode' hmode'
      split at hmode'
      · next hvalid =>
        cases hmode'
        rintro rfl
        simp at hvalid
      · cases hmode'
  | stop i =>
    obtain ⟨hidle, rfl⟩ := enter_some h
    apply hI.aside
    · rw [hidle]
      rfl
    · rfl
    · intro mode hmode
      cases hmode
  | async_read i =>
    obtain ⟨hidle, rfl⟩ := enter_some h
    apply hI.aside
    · rw [hidle]
      rfl
    · rfl
    · intro mode hmode
      cases hmode
  | send i valid =>
    obtain ⟨hidle, rfl⟩ := enter_some h
    apply hI.aside
    · rw [hidle]
      rfl
    · split
      · rfl
      · rfl
    · intro mode hmode
      split at hmode
      · cases hmode
      · cases hmode
  | read_event i =>
    simp only [UdpTransport.step] at h
    split at h
    · next htracking =>
      obtain ⟨hidle, rfl⟩ := enter_some h
      have hidle' : s.pcs i = .idle := hidle
      have hstate : s.state ≠ state_none := by
        intro hstate
        rw [(hI.fresh hstate).tracker] at htracking
        cases htracking
      have harmed : s.armed = 1 := if_neg (by rw [htracking]; decide)
      refine hI.move rfl hstate hstate rfl (by simp) ?_ ?_ ?_
      · -- who reads stands for the armed tracker from now on
        intro _
        rw [hidle']
        refine ⟨?_, rfl, by simp⟩
        show (1 : ℤ) + 0 - s.due = 0 + s.armed - s.due
        rw [harmed]
        rfl
      · exact fun _ => ⟨rfl, by simp⟩
      · rw [hidle']
        exact le_refl _
    · cases h
  | channel_event i =>
    simp only [UdpTransport.step] at h
    split at h
    · next hposted =>
      obtain ⟨hidle, rfl⟩ := enter_some h
      have hidle' : s.pcs i = .idle := hidle
      have hstate : s.state ≠ state_none := by
        intro hstate
        rw [(hI.fresh hstate).posted] at hposted
        cases hposted
      refine hI.move rfl hstate hstate rfl (by simp) ?_ ?_ ?_
      · intro _
        rw [hidle']
        exact ⟨rfl, rfl, by simp⟩
      · exact fun _ => ⟨rfl, by simp⟩
      · rw [hidle']
        exact le_refl _
    · cases h
  | step i ok n =>
    cases h
    exact hI.action i ok n

end

/-! ## Section 4: Stopping -/

/-- `stopped_cb` is due to the thread. -/
def stopping (s : UdpTransport ι) (i : ι) : Prop := s.pcs i = .call .stopped_cb

/-- **The invariant** about stopping. Nothing starts to disconnect. -/
structure Stops (s : UdpTransport ι) : Prop where
  state : s.state ≠ state_disconnecting ∧ s.state ≠ state_disconnected
  threads : ∀ i, s.pcs i ≠ .call .disconnected_cb
  calls : .disconnected_cb ∉ s.calls
  once : Once s.stopping (s.calls.count .stopped_cb) (s.state = state_stopped)

/-- What a thread calls in its next step. -/
def called : UdpPc → List UdpCall
  | .call c => [c]
  | _ => []

theorem action_calls (s : UdpTransport ι) (ok : Bool) (n : Int) (pc : UdpPc) :
    (s.action ok n pc).2.calls = s.calls ++ called pc := by
  cases pc with
  | call c => rfl
  | _ =>
    simp only [action, called, List.append_nil, set_state, start_read_tracker]
    repeat' split
    all_goals rfl

theorem action_calm (s : UdpTransport ι) (ok : Bool) (n : Int) (pc : UdpPc)
    (hstate : s.state ≠ state_disconnecting ∧ s.state ≠ state_disconnected) :
    ((s.action ok n pc).2.state ≠ state_disconnecting ∧
        (s.action ok n pc).2.state ≠ state_disconnected) ∧
      (s.action ok n pc).1 ≠ .call .disconnected_cb := by
  cases pc with
  | channel_disconnected =>
    simp only [action, set_state, if_neg hstate.1]
    exact ⟨hstate, by simp⟩
  | start_state | start_started | start_error | stop_started | channel_stopped =>
    simp only [action, set_state]
    repeat' split
    all_goals simp_all
  | _ =>
    simp only [action, start_read_tracker]
    repeat' split
    all_goals exact ⟨hstate, by simp⟩

/-- The one who makes the exchange to `state_stopped` calls `stopped_cb`. -/
theorem action_stopped (s : UdpTransport ι) (ok : Bool) (n : Int) (pc : UdpPc) :
    ((s.action ok n pc).1 = .call .stopped_cb → pc = .channel_stopped ∧ s.state = state_stopping ∧
        (s.action ok n pc).2.state = state_stopped) ∧
      (s.state = state_stopped → (s.action ok n pc).2.state = state_stopped) := by
  cases pc with
  | start_state | start_started | start_error | stop_started | channel_stopped
  | channel_disconnected =>
    simp only [action, set_state]
    repeat' split
    all_goals simp_all
  | _ =>
    simp only [action, start_read_tracker]
    repeat' split
    all_goals exact ⟨by simp, id⟩

section

variable [DecidableEq ι] {s s' : UdpTransport ι} {i : ι} {pc : UdpPc}

omit [DecidableEq ι] in
theorem stops_new : (new : UdpTransport ι).Stops := by
  refine ⟨⟨?_, ?_⟩, ?_, List.not_mem_nil, ?_⟩
  · intro h
    cases h
  · intro h
    cases h
  · intro i h
    cases h
  · apply Once.start.keep
    · intro i h
      cases h
    · exact id

/-- A function is entered. -/
theorem Stops.enter (hI : s.Stops) (hstate : s'.state = s.state) (hcalls : s'.calls = s.calls)
    (hpcs : s'.pcs = Function.update s.pcs i pc) (hpc : ∀ c, pc ≠ .call c) : s'.Stops := by
  refine ⟨by rw [hstate]; exact hI.state, ?_, by rw [hcalls]; exact hI.calls, ?_⟩
  · intro j
    rw [hpcs]
    by_cases hj : j = i
    · subst hj
      rw [Function.update_self]
      exact hpc _
    · rw [Function.update_of_ne hj]
      exact hI.threads j
  · rw [hcalls, hstate]
    apply hI.once.aside (i := i) _ _ id
    · unfold stopping
      rw [hpcs, Function.update_self]
      exact hpc _
    · intro j hji hj
      unfold stopping at hj
      rwa [hpcs, Function.update_of_ne hji] at hj

theorem Stops.action (hI : s.Stops) (i : ι) (ok : Bool) (n : Int) :
    ((s.action ok n (s.pcs i)).2.goto i (s.action ok n (s.pcs i)).1).Stops := by
  obtain ⟨hstate, hcall⟩ := action_calm s ok n (s.pcs i) hI.state
  obtain ⟨hwin, hstopped⟩ := action_stopped s ok n (s.pcs i)
  have hcalls := action_calls s ok n (s.pcs i)
  have hself := goto_self (s.action ok n (s.pcs i)).2 i (s.action ok n (s.pcs i)).1
  have hpcs : ∀ j, j ≠ i →
      ((s.action ok n (s.pcs i)).2.goto i (s.action ok n (s.pcs i)).1).pcs j = s.pcs j := by
    intro j hji
    rw [goto_of_ne _ _ hji, action_pcs]
  have hother : ∀ j, j ≠ i →
      ((s.action ok n (s.pcs i)).2.goto i (s.action ok n (s.pcs i)).1).stopping j →
      s.stopping j := by
    intro j hji hj
    unfold stopping at hj
    rwa [hpcs j hji] at hj
  refine ⟨hstate, ?_, ?_, ?_⟩
  · intro j
    by_cases hj : j = i
    · subst hj
      rw [hself]
      exact hcall
    · rw [hpcs j hj]
      exact hI.threads j
  · show _ ∉ (s.action ok n (s.pcs i)).2.calls
    rw [hcalls, List.mem_append, not_or]
    refine ⟨hI.calls, ?_⟩
    intro hmem
    apply hI.threads i
    cases hpc : s.pcs i with
    | call c =>
      rw [hpc, called, List.mem_singleton] at hmem
      rw [hmem]
    | _ =>
      rw [hpc] at hmem
      cases hmem
  · show Once _ (List.count _ (s.action ok n (s.pcs i)).2.calls) _
    rw [hcalls, List.count_append]
    by_cases hdue : s.pcs i = .call .stopped_cb
    · -- the callback that was due is called
      rw [hdue]
      rw [hdue] at hself hother
      apply hI.once.call hdue _ hother
      unfold stopping
      rw [hself]
      intro hbad
      cases hbad
    · have hnone : List.count .stopped_cb (called (s.pcs i)) = 0 := by
        rw [List.count_eq_zero]
        intro hmem
        apply hdue
        cases hpc : s.pcs i with
        | call c =>
          rw [hpc, called, List.mem_singleton] at hmem
          rw [hmem]
        | _ =>
          rw [hpc] at hmem
          cases hmem
      rw [hnone, Nat.add_zero]
      by_cases hnext : (s.action ok n (s.pcs i)).1 = .call .stopped_cb
      · obtain ⟨-, hstopping, hended⟩ := hwin hnext
        exact hI.once.win (by rw [hstopping]; decide) hended hother
      · apply hI.once.aside _ hother hstopped
        unfold stopping
        rw [hself]
        exact hnext

theorem Stops.step (hI : s.Stops) {l : UdpLabel ι} (h : s.step l = some s') : s'.Stops := by
  cases l with
  | start i valid mode =>
    obtain ⟨-, rfl⟩ := enter_some h
    refine hI.enter rfl rfl rfl ?_
    intro c
    split
    · simp
    · simp
  | stop i | async_read i =>
    obtain ⟨-, rfl⟩ := enter_some h
    exact hI.enter rfl rfl rfl fun c => by simp
  | send i valid =>
    obtain ⟨-, rfl⟩ := enter_some h
    refine hI.enter rfl rfl rfl ?_
    intro c
    split
    · simp
    · simp
  | read_event i | channel_event i =>
    simp only [UdpTransport.step] at h
    split at h
    · obtain ⟨-, rfl⟩ := enter_some h
      exact hI.enter rfl rfl rfl fun c => by simp
    · cases h
  | step i ok n =>
    cases h
    exact hI.action i ok n

/-! ## Section 5: Runs -/

/-- **What a transport keeps to.** With `read_mode_once` each callback with a
    datagram answers a call of `async_read` of its own, and one thread at most
    reads; with `read_mode_loop` one call of `async_read` at most is accepted.
    `stopped_cb` comes once at most and as the state is `state_stopped`, and
    `disconnected_cb` never comes. -/
structure Sound (s : UdpTransport ι) : Prop where
  answered : s.rmode = read_mode_once →
    s.calls.countP UdpCall.is_read ≤ s.taken ∧ s.accepted ≤ s.taken
  quiet : s.rmode = read_mode_once → (∀ i, s.pcs i = .idle) →
    s.taken = s.calls.countP UdpCall.is_read + if s.rstate = read_pending then 1 else 0
  alone : s.rmode = read_mode_once → ∀ i j, (s.pcs i).reader = 1 → (s.pcs j).reader = 1 → i = j
  looping : s.rmode = read_mode_loop → s.accepted ≤ 1
  stopped : s.calls.count .stopped_cb ≤ 1 ∧ (.stopped_cb ∈ s.calls → s.state = state_stopped)
  connected : .disconnected_cb ∉ s.calls

theorem Reads.sound (hreads : s.Reads) (hstops : s.Stops) : s.Sound := by
  obtain ⟨w, hwinners, hle⟩ := hreads.accepted
  have hw := hwinners.nonneg fun i => (s.pcs i).winning_nonneg
  have hdue := s.due_nonneg
  have hdue' := s.due_le_one
  refine ⟨?_, ?_, ?_, ?_, ⟨hstops.once.le_one, ?_⟩, hstops.calls⟩
  · intro honce
    obtain ⟨t, h, hb⟩ := hreads.once honce
    have hh := hb.holders.nonneg fun i => (s.pcs i).holding_nonneg
    have htaken : (s.taken : ℤ) = (s.calls.countP UdpCall.is_read : ℕ) + h + s.due := hb.reads
    omega
  · intro honce hidle
    obtain ⟨t, h, hb⟩ := hreads.once honce
    have hzero : h = 0 := hb.holders.eq_zero fun i => by rw [hidle i]; rfl
    have htaken : (s.taken : ℤ) = (s.calls.countP UdpCall.is_read : ℕ) + h + s.due := hb.reads
    unfold due at htaken
    split at htaken
    all_goals
      next hpending =>
        simp only [hpending, if_true, if_false]
        omega
  · intro honce i j hi hj
    obtain ⟨t, h, hb⟩ := hreads.once honce
    by_contra hij
    have htwo := hb.readers.add_le (fun k => (s.pcs k).reader_nonneg) hij
    have htoken := hb.token
    have harmed := s.armed_nonneg
    omega
  · intro hloop
    have htaken := (hreads.loop hloop).1
    omega
  · intro hmem
    apply (hstops.once.made_ended _).2
    rw [Ne, List.count_eq_zero]
    exact fun hnot => hnot hmem

/-- **Reading and stopping.** Every run of any number of threads keeps to it. -/
theorem run_sound (h : Reachable step AnyStep new s) : s.Sound := by
  have hboth : s.Reads ∧ s.Stops := by
    apply h.invariant (I := fun s => s.Reads ∧ s.Stops)
    · exact ⟨reads_new, stops_new⟩
    · intro s l s' hI _ hstep
      exact ⟨hI.1.step hstep, hI.2.step hstep⟩
  exact hboth.1.sound hboth.2

/-- Thread 0 starts the transport and reads a datagram, and thread 1 stops it. -/
theorem run_sound_stopped :
    ∃ s : UdpTransport (Fin 2), exec step new
        (.start 0 true read_mode_once :: List.replicate 5 (.step 0 true 0) ++
          UdpLabel.async_read 0 :: List.replicate 4 (.step 0 true 0) ++
          UdpLabel.read_event 1 :: List.replicate 4 (.step 1 true 512) ++
          UdpLabel.stop 1 :: List.replicate 3 (.step 1 true 0) ++
          UdpLabel.channel_event 0 :: List.replicate 3 (.step 0 true 0)) = some s ∧
      s.calls = [.read_from_cb 512, .stopped_cb] ∧ s.taken = 1 ∧ s.state = state_stopped ∧
      s.Sound := by
  obtain ⟨s, hs⟩ : ∃ s, exec step (new : UdpTransport (Fin 2))
      (.start 0 true read_mode_once :: List.replicate 5 (.step 0 true 0) ++
        UdpLabel.async_read 0 :: List.replicate 4 (.step 0 true 0) ++
        UdpLabel.read_event 1 :: List.replicate 4 (.step 1 true 512) ++
        UdpLabel.stop 1 :: List.replicate 3 (.step 1 true 0) ++
        UdpLabel.channel_event 0 :: List.replicate 3 (.step 0 true 0)) = some s :=
    Option.isSome_iff_exists.mp (by decide)
  refine ⟨s, hs, ?_, ?_, ?_, run_sound (.of_exec hs (meets_anyStep _ _ _))⟩
  all_goals
    cases hs
    decide

end

end UdpTransport

end Pump
