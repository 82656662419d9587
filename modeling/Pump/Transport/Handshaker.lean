import Pump.Lts
import Pump.Transport.Types

/-! # tls_handshaker

    `transport/tls_handshaker.cpp`: `start`, `stop`, the handshake timer, the
    posted channel event and the events of the socket, run by any threads; one
    step is one access to what they share. `start` starts the timer before it
    installs the tracker, and `on_timeout` may take the state while `start` is
    still at work. What `__handshake_finished` asserts about the tracker then
    depends on who is first.

    The outcome of an operation on the system or on the TLS session is part of
    the label. -/

namespace Pump

open TransportState TimerState

/-! ## Section 1: Model -/

/-- `tls_handshake_phase` of `transport/tls_utils.h`. -/
inductive TlsHandshakePhase where
  | tls_handshake_ok
  | tls_handshake_read
  | tls_handshake_send
  | tls_handshake_error
  deriving DecidableEq, Repr

open TlsHandshakePhase

/-- A call of one of the `tls_handshaker_callbacks`. -/
inductive HandshakerCall where
  | handshaked_cb (success : Bool)
  | stopped_cb
  deriving DecidableEq, Repr

/-- Where a thread is. -/
inductive HandshakerPc where
  | idle
  -- start
  | start_state (timeout_ns : Nat)
  | start_handshake (timeout_ns : Nat)
  | start_timer (timeout_ns : Nat)
  | start_tracker
  -- install_channel_tracker
  | install_track
  | install_set_poller
  | install_ctl
  | install_unset_poller
  | install_push
  | start_started
  | start_error
  | start_stop_timer
  -- stop
  | stop_started
  | stop_disconnecting
  | stop_timeouting
  -- timer::handle_timeout and on_timeout
  | timer_started
  | timer_pending
  | timeout_starting
  | timeout_started
  -- __post_channel_event
  | post
  -- on_read_event, on_send_event and __process_handshake
  | event_wait
  | event_handshake
  | event_finished
  | event_start_tracker
  | event_error
  -- __handshake_finished
  | finished_stop_timer
  | finished_tracker
  | finished_poller
  | finished_uninstall
  | finished_is_finished
  | finished_is_error
  | finished_timeouting
  | finished_disconnecting
  | finished_stopping
  | call (c : HandshakerCall)
  deriving DecidableEq, Repr

/-- A handshaker, its poller and timer as far as it uses them, and the threads
    `ι`. `tracker` is `tracker_`, with whether its poller is set; `registered`
    is whether the system has it. A failed assertion is `aborted`, and the last
    field is a record of the run. -/
structure Handshaker (ι : Type) where
  state : TransportState
  timer : Option TimerState
  tracker : Option Bool
  registered : Bool
  posted : Nat
  aborted : Bool
  pcs : ι → HandshakerPc
  calls : List HandshakerCall

inductive HandshakerLabel (ι : Type) where
  /-- A call of `start`; the flags are its checks of the parameters and of
      `flow_`. -/
  | start (i : ι) (sv cbs flow : Bool) (timeout_ns : Nat)
  | stop (i : ι)
  /-- The timer worker takes the handshake timer. -/
  | timeout (i : ι)
  /-- The send poller takes a posted channel event. -/
  | channel_event (i : ι)
  /-- The send poller reports the socket. -/
  | io_event (i : ι)
  /-- The next step of a thread. -/
  | step (i : ι) (ok : Bool) (phase : TlsHandshakePhase)
  deriving DecidableEq

namespace Handshaker

variable {ι : Type}

/-- A new handshaker. -/
def new : Handshaker ι :=
  ⟨state_none, none, none, false, 0, false, fun _ => .idle, []⟩

/-- `__set_state`. -/
def set_state (s : Handshaker ι) (expected desired : TransportState) : Bool × Handshaker ι :=
  if s.state = expected then (true, { s with state := desired }) else (false, s)

/-- A compare and exchange of the timer's state. -/
def set_timer (s : Handshaker ι) (expected desired : TimerState) : Bool × Handshaker ι :=
  if s.timer = some expected then (true, { s with timer := some desired }) else (false, s)

/-- `__stop_handshake_timer`. -/
def stop_handshake_timer (s : Handshaker ι) : Handshaker ι :=
  { s with timer := s.timer.map fun _ => timer_state_stopped }

/-- `pump_assert`. -/
def assert (s : Handshaker ι) (b : Bool) (pc : HandshakerPc) : HandshakerPc × Handshaker ι :=
  if b then (pc, s) else (.idle, { s with aborted := true })

/-- The next step of a thread: where it goes and what it does to the rest. -/
def action (s : Handshaker ι) (ok : Bool) (phase : TlsHandshakePhase) :
    HandshakerPc → HandshakerPc × Handshaker ι
  | .idle => (.idle, s)
  | .start_state timeout_ns =>
    let r := s.set_state state_none state_starting
    (if r.1 then .start_handshake timeout_ns else .idle, r.2)
  | .start_handshake timeout_ns =>
    (if phase = tls_handshake_error then .start_error else .start_timer timeout_ns, s)
  | .start_timer timeout_ns =>
    if timeout_ns = 0 then (.start_tracker, s)
    else if ok then (.start_tracker, { s with timer := some timer_state_started })
    else (.start_error, { s with timer := some timer_state_none })
  | .start_tracker =>
    if ok then (.install_track, { s with tracker := some false })
    else (.start_error, { s with tracker := none })
  -- no poller, one that is not started, or no record
  | .install_track => (if ok then .install_set_poller else .start_error, s)
  | .install_set_poller => (.install_ctl, { s with tracker := some true })
  | .install_ctl =>
    if ok then (.install_push, { s with registered := true }) else (.install_unset_poller, s)
  | .install_unset_poller => (.start_error, { s with tracker := some false })
  | .install_push => (.start_started, s)
  | .start_started =>
    let r := s.set_state state_starting state_started
    (if r.1 then .idle else .start_error, r.2)
  | .start_error => (.start_stop_timer, (s.set_state state_starting state_error).2)
  | .start_stop_timer => (.idle, s.stop_handshake_timer)
  | .stop_started =>
    let r := s.set_state state_started state_stopping
    (if r.1 then .post else .stop_disconnecting, r.2)
  | .stop_disconnecting =>
    let r := s.set_state state_disconnecting state_stopping
    (if r.1 then .idle else .stop_timeouting, r.2)
  | .stop_timeouting => (.idle, (s.set_state state_timeouting state_stopping).2)
  | .timer_started =>
    let r := s.set_timer timer_state_started timer_state_pending
    (if r.1 then .timer_pending else .idle, r.2)
  | .timer_pending =>
    let r := s.set_timer timer_state_pending timer_state_finished
    (if r.1 then .timeout_starting else .idle, r.2)
  | .timeout_starting =>
    let r := s.set_state state_starting state_timeouting
    (if r.1 then .post else .timeout_started, r.2)
  | .timeout_started =>
    let r := s.set_state state_started state_timeouting
    (if r.1 then .post else .idle, r.2)
  | .post => (.idle, if ok then { s with posted := s.posted + 1 } else s)
  | .event_wait => (if s.state = state_starting then .event_wait else .event_handshake, s)
  | .event_handshake =>
    (match phase with
      | tls_handshake_ok => .event_finished
      | tls_handshake_read | tls_handshake_send => .event_start_tracker
      | tls_handshake_error => .event_error, s)
  | .event_finished =>
    let r := s.set_state state_started state_finished
    (if r.1 then .finished_stop_timer else .idle, r.2)
  | .event_start_tracker => (if ok then .idle else .event_error, s)
  | .event_error =>
    let r := s.set_state state_started state_error
    (if r.1 then .finished_stop_timer else .idle, r.2)
  | .finished_stop_timer => (.finished_tracker, s.stop_handshake_timer)
  | .finished_tracker => s.assert s.tracker.isSome .finished_poller
  | .finished_poller => s.assert (s.tracker = some true) .finished_uninstall
  | .finished_uninstall => (.finished_is_finished, { s with registered := false })
  | .finished_is_finished =>
    (if s.state = state_finished then .call (.handshaked_cb true) else .finished_is_error, s)
  | .finished_is_error =>
    (if s.state = state_error then .call (.handshaked_cb false) else .finished_timeouting, s)
  | .finished_timeouting =>
    let r := s.set_state state_timeouting state_timeouted
    (if r.1 then .call (.handshaked_cb false) else .finished_disconnecting, r.2)
  | .finished_disconnecting =>
    let r := s.set_state state_disconnecting state_disconnected
    (if r.1 then .call (.handshaked_cb false) else .finished_stopping, r.2)
  | .finished_stopping =>
    let r := s.set_state state_stopping state_stopped
    (if r.1 then .call .stopped_cb else .idle, r.2)
  | .call c => (.idle, { s with calls := s.calls ++ [c] })

variable [DecidableEq ι]

/-- Thread `i` goes to `pc`. -/
def goto (s : Handshaker ι) (i : ι) (pc : HandshakerPc) : Handshaker ι :=
  { s with pcs := Function.update s.pcs i pc }

/-- A function of the handshaker is entered by an idle thread. -/
def enter (s : Handshaker ι) (i : ι) (pc : HandshakerPc) : Option (Handshaker ι) :=
  if s.aborted = false ∧ s.pcs i = .idle then some (s.goto i pc) else none

def step (s : Handshaker ι) : HandshakerLabel ι → Option (Handshaker ι)
  | .start i sv cbs flow timeout_ns =>
    s.enter i (if sv && cbs && flow then .start_state timeout_ns else .idle)
  | .stop i => s.enter i .stop_started
  | .timeout i => if s.timer.isSome then s.enter i .timer_started else none
  | .channel_event i =>
    if s.posted > 0 then
      ({ s with posted := s.posted - 1 } : Handshaker ι).enter i .finished_stop_timer
    else
      none
  | .io_event i => if s.registered then s.enter i .event_wait else none
  | .step i ok phase =>
    if s.aborted then none
    else
      let r := s.action ok phase (s.pcs i)
      some (r.2.goto i r.1)

end Handshaker

/-! ## Section 2: What a step does -/

/-- What a place means for the tracker: in `start` before the tracker has a
    poller, after that, or giving up; about to post an event; or in
    `__handshake_finished` before its assertions. -/
inductive HandshakerRole where
  | before_install
  | after_install
  | giving_up
  | posting
  | asserting
  | other
  deriving DecidableEq

open HandshakerRole

def HandshakerPc.role : HandshakerPc → HandshakerRole
  | start_handshake _ | start_timer _ | start_tracker | install_track | install_set_poller =>
    before_install
  | install_ctl | install_unset_poller | install_push | start_started => after_install
  | start_error => giving_up
  | post => posting
  | finished_stop_timer | finished_tracker | finished_poller => asserting
  | _ => other

namespace Handshaker

variable {ι : Type} {s s' : Handshaker ι} {p q : HandshakerPc} {ok : Bool}
  {phase : TlsHandshakePhase}

/-- `start` gives up on the tracker in this step. -/
def gives_up (ok : Bool) (phase : TlsHandshakePhase) : HandshakerPc → Bool
  | .start_handshake _ => phase = tls_handshake_error
  | .start_timer timeout_ns => timeout_ns ≠ 0 && !ok
  | .start_tracker | .install_track => !ok
  | .install_unset_poller => true
  | _ => false

/-- Nothing but the timer, the registration and the record of the run has
    changed. -/
structure Same (s s' : Handshaker ι) : Prop where
  state : s'.state = s.state
  tracker : s'.tracker = s.tracker
  posted : s'.posted = s.posted
  aborted : s'.aborted = s.aborted
  pcs : s'.pcs = s.pcs

/-- Nothing but these and the state. -/
structure Moved (s s' : Handshaker ι) : Prop where
  tracker : s'.tracker = s.tracker
  posted : s'.posted = s.posted
  aborted : s'.aborted = s.aborted
  pcs : s'.pcs = s.pcs

/-- A state in which `start` is over and no exchange posts an event. -/
def Over (st : TransportState) : Prop :=
  st ≠ state_none ∧ st ≠ state_starting ∧ st ≠ state_started

/-- The steps of a thread, by role. -/
inductive Effect (s : Handshaker ι) (p : HandshakerPc) (ok : Bool) (phase : TlsHandshakePhase)
    (q : HandshakerPc) (s' : Handshaker ι) : Prop
  | keeps (hrole : q.role = p.role) (h : Same s s')
  | begins (hp : p.role = other) (hq : q.role = before_install) (hnone : s.state = state_none)
      (hstarting : s'.state = state_starting) (h : Moved s s')
  | opens (hp : p.role = before_install) (hq : q.role = before_install) (hstate : s'.state = s.state)
      (haborted : s'.aborted = s.aborted) (hpcs : s'.pcs = s.pcs)
  | installs (hp : p.role = before_install) (hq : q.role = after_install) (hstate : s'.state = s.state)
      (htracker : s'.tracker = some true) (haborted : s'.aborted = s.aborted)
      (hpcs : s'.pcs = s.pcs)
  | gives_up (hp : p.role = before_install ∨ p.role = after_install) (hq : q.role = giving_up)
      (hgives : gives_up ok phase p = true) (hstate : s'.state = s.state)
      (hposted : s'.posted = s.posted) (haborted : s'.aborted = s.aborted)
      (hpcs : s'.pcs = s.pcs)
  | starts (hp : p.role = after_install) (hq : q.role = other)
      (hstarting : s.state = state_starting) (hstarted : s'.state = state_started)
      (h : Moved s s')
  | loses (hp : p.role = after_install) (hq : q.role = giving_up)
      (hstate : s.state ≠ state_starting) (h : Same s s')
  | errs (hp : p.role = giving_up) (hq : q.role = other)
      (hstate : s.state = state_starting ∧ s'.state = state_error ∨
        s.state ≠ state_starting ∧ s'.state = s.state)
      (h : Moved s s')
  | times_out (hp : p = .timeout_starting) (hq : q.role = posting)
      (hstarting : s.state = state_starting) (hstate : s'.state = state_timeouting)
      (h : Moved s s')
  | takes (hp : p.role = other)
      (hq : q.role = other ∨ s.state = state_started ∧ (q.role = posting ∨ q.role = asserting))
      (hstate : s.state ≠ state_none ∧ s.state ≠ state_starting) (hover : Over s'.state)
      (h : Moved s s')
  | posts (hp : p.role = posting) (hq : q.role = other) (hstate : s'.state = s.state)
      (htracker : s'.tracker = s.tracker) (haborted : s'.aborted = s.aborted)
      (hpcs : s'.pcs = s.pcs)
  | passes (hp : p.role = asserting) (hq : q.role = other) (h : Same s s')
  | fails (hp : p.role = asserting) (htracker : s.tracker ≠ some true)

/-- An exchange of the state. -/
theorem set_state_effect {expected desired : TransportState} {won lost : HandshakerPc}
    (hwon : s.state = expected → Effect s p ok phase won { s with state := desired })
    (hlost : s.state ≠ expected → Effect s p ok phase lost s) :
    Effect s p ok phase (if (s.set_state expected desired).1 then won else lost)
      (s.set_state expected desired).2 := by
  unfold set_state
  by_cases h : s.state = expected
  · rw [if_pos h]
    exact hwon h
  · rw [if_neg h]
    exact hlost h

/-- One by a thread that has nothing to do with `start`. -/
theorem set_state_takes {expected desired : TransportState} {won lost : HandshakerPc}
    (hp : p.role = other) (hexpected : expected ≠ state_none ∧ expected ≠ state_starting)
    (hdesired : Over desired)
    (hwon : won.role = other ∨
      expected = state_started ∧ (won.role = posting ∨ won.role = asserting))
    (hlost : lost.role = other) :
    Effect s p ok phase (if (s.set_state expected desired).1 then won else lost)
      (s.set_state expected desired).2 := by
  refine set_state_effect (fun h => .takes hp ?_ ?_ hdesired ⟨rfl, rfl, rfl, rfl⟩)
    fun _ => .keeps (hlost.trans hp.symm) ⟨rfl, rfl, rfl, rfl, rfl⟩
  · rw [h]
    exact hwon
  · rw [h]
    exact hexpected

theorem set_timer_same (s : Handshaker ι) (expected desired : TimerState) :
    Same s (s.set_timer expected desired).2 := by
  unfold set_timer
  split <;> exact ⟨rfl, rfl, rfl, rfl, rfl⟩

theorem action_effect (s : Handshaker ι) (ok : Bool) (phase : TlsHandshakePhase)
    (p : HandshakerPc) : Effect s p ok phase (s.action ok phase p).1 (s.action ok phase p).2 := by
  have hsame : Same s s := ⟨rfl, rfl, rfl, rfl, rfl⟩
  cases p with
  | start_state timeout_ns =>
    exact set_state_effect (fun h => .begins rfl rfl h rfl ⟨rfl, rfl, rfl, rfl⟩)
      fun _ => .keeps rfl hsame
  | start_handshake timeout_ns =>
    simp only [action]
    by_cases h : phase = tls_handshake_error
    · rw [if_pos h]
      exact .gives_up (Or.inl rfl) rfl (decide_eq_true h) rfl rfl rfl rfl
    · rw [if_neg h]
      exact .keeps rfl hsame
  | start_timer timeout_ns =>
    simp only [action]
    by_cases h : timeout_ns = 0
    · rw [if_pos h]
      exact .keeps rfl hsame
    · rw [if_neg h]
      cases ok with
      | true => exact .opens rfl rfl rfl rfl rfl
      | false =>
        have hgives : gives_up false phase (.start_timer timeout_ns) = true := by simp [gives_up, h]
        exact .gives_up (Or.inl rfl) rfl hgives rfl rfl rfl rfl
  | start_tracker =>
    cases ok with
    | true => exact .opens rfl rfl rfl rfl rfl
    | false => exact .gives_up (Or.inl rfl) rfl rfl rfl rfl rfl rfl
  | install_track =>
    cases ok with
    | true => exact .keeps rfl hsame
    | false => exact .gives_up (Or.inl rfl) rfl rfl rfl rfl rfl rfl
  | install_set_poller => exact .installs rfl rfl rfl rfl rfl rfl
  | install_ctl =>
    cases ok with
    | true => exact .keeps rfl ⟨rfl, rfl, rfl, rfl, rfl⟩
    | false => exact .keeps rfl hsame
  | install_unset_poller => exact .gives_up (Or.inr rfl) rfl rfl rfl rfl rfl rfl
  | start_started =>
    exact set_state_effect (fun h => .starts rfl rfl h rfl ⟨rfl, rfl, rfl, rfl⟩)
      fun h => .loses rfl rfl h hsame
  | start_error =>
    simp only [action, set_state]
    by_cases h : s.state = state_starting
    · rw [if_pos h]
      exact .errs rfl rfl (Or.inl ⟨h, rfl⟩) ⟨rfl, rfl, rfl, rfl⟩
    · rw [if_neg h]
      exact .errs rfl rfl (Or.inr ⟨h, rfl⟩) ⟨rfl, rfl, rfl, rfl⟩
  | timeout_starting =>
    exact set_state_effect (fun h => .times_out rfl rfl h rfl ⟨rfl, rfl, rfl, rfl⟩)
      fun _ => .keeps rfl hsame
  | stop_started =>
    exact set_state_takes rfl ⟨nofun, nofun⟩ ⟨nofun, nofun, nofun⟩ (Or.inr ⟨rfl, Or.inl rfl⟩) rfl
  | timeout_started =>
    exact set_state_takes rfl ⟨nofun, nofun⟩ ⟨nofun, nofun, nofun⟩ (Or.inr ⟨rfl, Or.inl rfl⟩) rfl
  | event_finished | event_error =>
    exact set_state_takes rfl ⟨nofun, nofun⟩ ⟨nofun, nofun, nofun⟩ (Or.inr ⟨rfl, Or.inr rfl⟩) rfl
  | stop_disconnecting | finished_timeouting | finished_disconnecting | finished_stopping =>
    exact set_state_takes rfl ⟨nofun, nofun⟩ ⟨nofun, nofun, nofun⟩ (Or.inl rfl) rfl
  | stop_timeouting =>
    -- whether the exchange succeeds makes no difference
    have h : Effect s .stop_timeouting ok phase
        (if (s.set_state state_timeouting state_stopping).1 then .idle else .idle)
        (s.set_state state_timeouting state_stopping).2 :=
      set_state_takes rfl ⟨nofun, nofun⟩ ⟨nofun, nofun, nofun⟩ (Or.inl rfl) rfl
    rw [ite_self] at h
    exact h
  | timer_started | timer_pending =>
    simp only [action]
    split
    all_goals exact .keeps rfl (s.set_timer_same _ _)
  | post => cases ok <;> exact .posts rfl rfl rfl rfl rfl rfl
  | finished_stop_timer => exact .keeps rfl ⟨rfl, rfl, rfl, rfl, rfl⟩
  | finished_tracker =>
    simp only [action, assert]
    rcases ht : s.tracker with _ | b
    · rw [Option.isSome_none, if_neg Bool.false_ne_true]
      refine .fails rfl ?_
      rw [ht]
      nofun
    · rw [Option.isSome_some, if_pos rfl]
      exact .keeps rfl hsame
  | finished_poller =>
    simp only [action, assert]
    by_cases ht : s.tracker = some true
    · rw [decide_eq_true ht, if_pos rfl]
      exact .passes rfl rfl hsame
    · rw [decide_eq_false ht, if_neg Bool.false_ne_true]
      exact .fails rfl ht
  | event_wait | event_start_tracker | finished_is_finished | finished_is_error =>
    simp only [action]
    split
    all_goals exact .keeps rfl hsame
  | event_handshake => cases phase <;> exact .keeps rfl hsame
  | idle | install_push | start_stop_timer | finished_uninstall | call c =>
    exact .keeps rfl ⟨rfl, rfl, rfl, rfl, rfl⟩

/-! ## Section 3: The assertions -/

/-- No event is on its way to `__handshake_finished`. -/
def Quiet (s : Handshaker ι) : Prop :=
  s.posted = 0 ∧ ∀ i, (s.pcs i).role ≠ posting ∧ (s.pcs i).role ≠ asserting

/-- The condition: the poller does not take an event while `start` has not set
    the poller of the tracker, `start` does not give up on the tracker while an
    event is on its way, and `on_timeout` does not take the state after that. -/
def Careful (s : Handshaker ι) : HandshakerLabel ι → Prop
  | .channel_event _ => ∀ i, (s.pcs i).role ≠ before_install
  | .step i ok phase =>
    (gives_up ok phase (s.pcs i) = true → s.Quiet) ∧
      (s.pcs i = .timeout_starting → s.state = state_starting → ∀ j, (s.pcs j).role ≠ giving_up)
  | _ => True

/-- Thread `i` is in `start`, before the tracker is installed. -/
structure Opening (s : Handshaker ι) (i : ι) : Prop where
  opening : (s.pcs i).role = before_install
  others : ∀ j, j ≠ i → (s.pcs j).role = posting ∨ (s.pcs j).role = other
  state : s.state ≠ state_none ∧ s.state ≠ state_started

/-- The tracker is installed, and at most one thread is in `start`. -/
structure Installed (s : Handshaker ι) : Prop where
  tracker : s.tracker = some true
  opening : ∀ i, (s.pcs i).role ≠ before_install
  installed : ∀ i, (s.pcs i).role = after_install → s.state ≠ state_started ∧
    ∀ j, j ≠ i → (s.pcs j).role ≠ after_install
  state : s.state ≠ state_none

/-- `start` has given up, and there is nothing to assert. -/
structure GaveUp (s : Handshaker ι) : Prop where
  quiet : s.Quiet
  roles : ∀ i, (s.pcs i).role ≠ before_install ∧ (s.pcs i).role ≠ after_install
  state : s.state ≠ state_none ∧ s.state ≠ state_started
  failing : s.state = state_starting → ∃ i, (s.pcs i).role = giving_up

/-- No thread has been in `start`. -/
structure Fresh (s : Handshaker ι) : Prop where
  roles : ∀ i, (s.pcs i).role = other
  state : s.state = state_none
  posted : s.posted = 0

/-- The invariant. -/
def Sound (s : Handshaker ι) : Prop :=
  s.aborted = false ∧ (s.Fresh ∨ (∃ i, s.Opening i) ∨ s.Installed ∨ s.GaveUp)

section

variable [DecidableEq ι] {i j : ι}

/-- What holds of the role that the thread has now and of the roles of the
    others holds of all. -/
theorem forall_goto {P : HandshakerRole → Prop} (hpcs : s'.pcs = s.pcs) (hself : P q.role)
    (hothers : ∀ j, j ≠ i → P (s.pcs j).role) : ∀ j, P ((s'.goto i q).pcs j).role := by
  intro j
  show P (Function.update s'.pcs i q j).role
  rw [hpcs]
  by_cases hj : j = i
  · rw [hj, Function.update_self]
    exact hself
  · rw [Function.update_of_ne hj]
    exact hothers j hj

theorem goto_self (s' : Handshaker ι) (i : ι) (q : HandshakerPc) : (s'.goto i q).pcs i = q :=
  Function.update_self ..

theorem goto_of_ne (hpcs : s'.pcs = s.pcs) (hj : j ≠ i) : (s'.goto i q).pcs j = s.pcs j := by
  show Function.update s'.pcs i q j = _
  rw [Function.update_of_ne hj, hpcs]

/-- The first step of `start` opens the handshaker. -/
theorem Fresh.effect (h : s.Fresh) (haborted : s.aborted = false)
    (he : Effect s (s.pcs i) ok phase q s') : (s'.goto i q).Sound := by
  have hrole := h.roles i
  cases he with
  | keeps hq hs =>
    refine ⟨hs.aborted.trans haborted, Or.inl ⟨?_, hs.state.trans h.state, hs.posted.trans h.posted⟩⟩
    exact forall_goto (P := (· = other)) hs.pcs (hq.trans hrole) fun j _ => h.roles j
  | begins _ hq _ hstarting hs =>
    refine ⟨hs.aborted.trans haborted, Or.inr (Or.inl ⟨i, ?_, ?_, ?_⟩)⟩
    · rw [goto_self]
      exact hq
    · intro j hj
      rw [goto_of_ne hs.pcs hj]
      exact Or.inr (h.roles j)
    · show s'.state ≠ _ ∧ s'.state ≠ _
      rw [hstarting]
      exact ⟨nofun, nofun⟩
  | gives_up hp =>
    rw [hrole] at hp
    rcases hp with hp | hp <;> cases hp
  | times_out _ _ hstarting =>
    rw [h.state] at hstarting
    cases hstarting
  | takes _ _ hstate => exact absurd h.state hstate.1
  | opens hp | installs hp | starts hp | loses hp | errs hp | posts hp | passes hp | fails hp =>
    rw [hrole] at hp
    cases hp

/-- A step of another thread while `start` is at work. -/
theorem Opening.aside (h : s.Opening j) (hi : i ≠ j) (hpcs : s'.pcs = s.pcs)
    (hq : q.role = posting ∨ q.role = other)
    (hstate : s'.state ≠ state_none ∧ s'.state ≠ state_started) : (s'.goto i q).Opening j := by
  refine ⟨?_, ?_, hstate⟩
  · rw [goto_of_ne hpcs hi.symm]
    exact h.opening
  · intro l hl
    by_cases hli : l = i
    · rw [hli, goto_self]
      exact hq
    · rw [goto_of_ne hpcs hli]
      exact h.others l hl

/-- A step of the thread in `start` by which the tracker is not installed. -/
theorem Opening.goes_on (h : s.Opening i) (hpcs : s'.pcs = s.pcs) (hq : q.role = before_install)
    (hstate : s'.state = s.state) : (s'.goto i q).Opening i := by
  refine ⟨?_, ?_, ?_⟩
  · rw [goto_self]
    exact hq
  · intro l hl
    rw [goto_of_ne hpcs hl]
    exact h.others l hl
  · show s'.state ≠ _ ∧ s'.state ≠ _
    rw [hstate]
    exact h.state

/-- `start` gives up. -/
theorem gave_up (hquiet : s.Quiet) (hopening : ∀ l, l ≠ i → (s.pcs l).role ≠ before_install)
    (hinstalled : ∀ l, l ≠ i → (s.pcs l).role ≠ after_install)
    (hstate : s.state ≠ state_none ∧ s.state ≠ state_started) (hq : q.role = giving_up)
    (hsame : s'.state = s.state) (hposted : s'.posted = s.posted) (hpcs : s'.pcs = s.pcs) :
    (s'.goto i q).GaveUp := by
  refine ⟨⟨hposted.trans hquiet.1, ?_⟩, ?_, ?_, fun _ => ⟨i, ?_⟩⟩
  · refine forall_goto (P := fun r => r ≠ posting ∧ r ≠ asserting) hpcs ?_ fun l _ => hquiet.2 l
    rw [hq]
    exact ⟨nofun, nofun⟩
  · refine forall_goto (P := fun r => r ≠ before_install ∧ r ≠ after_install) hpcs ?_ ?_
    · rw [hq]
      exact ⟨nofun, nofun⟩
    · exact fun l hl => ⟨hopening l hl, hinstalled l hl⟩
  · show s'.state ≠ _ ∧ s'.state ≠ _
    rw [hsame]
    exact hstate
  · rw [goto_self]
    exact hq

theorem Opening.effect (h : s.Opening j) (haborted : s.aborted = false)
    (hok : s.Careful (.step i ok phase)) (he : Effect s (s.pcs i) ok phase q s') :
    (s'.goto i q).Sound := by
  by_cases hi : i = j
  · -- the thread in `start`
    subst hi
    have hrole := h.opening
    have hothers : ∀ l, l ≠ i → (s.pcs l).role ≠ before_install ∧ (s.pcs l).role ≠ after_install := by
      intro l hl
      rcases h.others l hl with hr | hr
      all_goals
        rw [hr]
        exact ⟨nofun, nofun⟩
    cases he with
    | keeps hq hs =>
      exact ⟨hs.aborted.trans haborted,
        Or.inr (Or.inl ⟨i, h.goes_on hs.pcs (hq.trans hrole) hs.state⟩)⟩
    | opens _ hq hstate haborted' hpcs =>
      exact ⟨haborted'.trans haborted, Or.inr (Or.inl ⟨i, h.goes_on hpcs hq hstate⟩)⟩
    | installs _ hq hstate htracker haborted' hpcs =>
      refine ⟨haborted'.trans haborted, Or.inr (Or.inr (Or.inl ⟨htracker, ?_, ?_, ?_⟩))⟩
      · refine forall_goto (P := (· ≠ before_install)) hpcs ?_ fun l hl => (hothers l hl).1
        rw [hq]
        nofun
      · intro l hl
        refine ⟨?_, ?_⟩
        · show s'.state ≠ _
          rw [hstate]
          exact h.state.2
        · -- the others are not in `start`
          by_cases hli : l = i
          · intro m hm
            rw [hli] at hm
            rw [goto_of_ne hpcs hm]
            exact (hothers m hm).2
          · rw [goto_of_ne hpcs hli] at hl
            exact absurd hl (hothers l hli).2
      · show s'.state ≠ _
        rw [hstate]
        exact h.state.1
    | gives_up _ hq hgives hstate hposted haborted' hpcs =>
      exact ⟨haborted'.trans haborted, Or.inr (Or.inr (Or.inr (gave_up (hok.1 hgives)
        (fun l hl => (hothers l hl).1) (fun l hl => (hothers l hl).2) h.state hq hstate hposted
        hpcs)))⟩
    | times_out hp =>
      rw [hp] at hrole
      cases hrole
    | begins hp | starts hp | loses hp | errs hp | takes hp | posts hp | passes hp | fails hp =>
      rw [hrole] at hp
      cases hp
  · have hrole := h.others i hi
    cases he with
    | keeps hq hs =>
      rw [← hq] at hrole
      refine ⟨hs.aborted.trans haborted, Or.inr (Or.inl ⟨j, h.aside hi hs.pcs hrole ?_⟩)⟩
      rw [hs.state]
      exact h.state
    | times_out _ hq _ hstate hs =>
      -- `on_timeout` takes the state from under `start`
      refine ⟨hs.aborted.trans haborted, Or.inr (Or.inl ⟨j, h.aside hi hs.pcs (Or.inl hq) ?_⟩)⟩
      rw [hstate]
      exact ⟨nofun, nofun⟩
    | takes _ hq _ hover hs =>
      have hother : q.role = other := by
        rcases hq with hq | ⟨hstarted, -⟩
        · exact hq
        · exact absurd hstarted h.state.2
      exact ⟨hs.aborted.trans haborted,
        Or.inr (Or.inl ⟨j, h.aside hi hs.pcs (Or.inr hother) ⟨hover.1, hover.2.2⟩⟩)⟩
    | posts _ hq hstate _ haborted' hpcs =>
      refine ⟨haborted'.trans haborted, Or.inr (Or.inl ⟨j, h.aside hi hpcs (Or.inr hq) ?_⟩)⟩
      rw [hstate]
      exact h.state
    | begins _ _ hnone => exact absurd hnone h.state.1
    | gives_up hp =>
      rcases hrole with hrole | hrole
      all_goals
        rw [hrole] at hp
        rcases hp with hp | hp <;> cases hp
    | opens hp | installs hp | starts hp | loses hp | errs hp | passes hp | fails hp =>
      rcases hrole with hrole | hrole
      all_goals
        rw [hrole] at hp
        cases hp

/-- A step by which no thread comes to install the tracker. -/
theorem Installed.aside (h : s.Installed) (hpcs : s'.pcs = s.pcs)
    (htracker : s'.tracker = s.tracker) (hopening : q.role ≠ before_install)
    (hinstalled : q.role = after_install → (s.pcs i).role = after_install) (hnone : s'.state ≠ state_none)
    (hstarted : s'.state = state_started → s.state = state_started) :
    (s'.goto i q).Installed := by
  have hback : ∀ l, ((s'.goto i q).pcs l).role = after_install → (s.pcs l).role = after_install := by
    intro l hl
    by_cases hli : l = i
    · rw [hli, goto_self] at hl
      rw [hli]
      exact hinstalled hl
    · rwa [goto_of_ne hpcs hli] at hl
  refine ⟨htracker.trans h.tracker, ?_, ?_, hnone⟩
  · exact forall_goto (P := (· ≠ before_install)) hpcs hopening fun l _ => h.opening l
  · intro l hl
    obtain ⟨hnot, honly⟩ := h.installed l (hback l hl)
    exact ⟨fun hs => hnot (hstarted hs), fun m hm hr => honly m hm (hback m hr)⟩

theorem Installed.effect (h : s.Installed) (haborted : s.aborted = false)
    (hok : s.Careful (.step i ok phase)) (he : Effect s (s.pcs i) ok phase q s') :
    (s'.goto i q).Sound := by
  have hrole := h.opening i
  cases he with
  | keeps hq hs =>
    refine ⟨hs.aborted.trans haborted, Or.inr (Or.inr (Or.inl
      (h.aside hs.pcs hs.tracker ?_ hq.symm.trans ?_ hs.state.symm.trans)))⟩
    · rw [hq]
      exact hrole
    · rw [hs.state]
      exact h.state
  | gives_up hp hq hgives hstate hposted haborted' hpcs =>
    have hinst : (s.pcs i).role = after_install := hp.resolve_left hrole
    obtain ⟨hnot, honly⟩ := h.installed i hinst
    exact ⟨haborted'.trans haborted, Or.inr (Or.inr (Or.inr (gave_up (hok.1 hgives)
      (fun l _ => h.opening l) honly ⟨h.state, hnot⟩ hq hstate hposted hpcs)))⟩
  | starts hp hq _ hstarted hs =>
    -- `start` is over, and no thread is in it any more
    obtain ⟨-, honly⟩ := h.installed i hp
    have hnone : ∀ l, ((s'.goto i q).pcs l).role ≠ after_install := by
      refine forall_goto (P := (· ≠ after_install)) hs.pcs ?_ honly
      rw [hq]
      nofun
    refine ⟨hs.aborted.trans haborted, Or.inr (Or.inr (Or.inl ⟨hs.tracker.trans h.tracker, ?_,
      fun l hl => absurd hl (hnone l), ?_⟩))⟩
    · refine forall_goto (P := (· ≠ before_install)) hs.pcs ?_ fun l _ => h.opening l
      rw [hq]
      nofun
    · show s'.state ≠ _
      rw [hstarted]
      nofun
  | loses _ hq _ hs =>
    refine ⟨hs.aborted.trans haborted, Or.inr (Or.inr (Or.inl
      (h.aside hs.pcs hs.tracker ?_ ?_ ?_ hs.state.symm.trans)))⟩
    · rw [hq]
      nofun
    · rw [hq]
      nofun
    · rw [hs.state]
      exact h.state
  | errs _ hq hstate hs =>
    have hnew : s'.state ≠ state_none ∧ (s'.state = state_started → s.state = state_started) := by
      rcases hstate with ⟨-, herror⟩ | ⟨-, hsame⟩
      · rw [herror]
        exact ⟨nofun, nofun⟩
      · rw [hsame]
        exact ⟨h.state, id⟩
    refine ⟨hs.aborted.trans haborted, Or.inr (Or.inr (Or.inl
      (h.aside hs.pcs hs.tracker ?_ ?_ hnew.1 hnew.2)))⟩
    · rw [hq]
      nofun
    · rw [hq]
      nofun
  | times_out _ hq _ hstate hs =>
    refine ⟨hs.aborted.trans haborted, Or.inr (Or.inr (Or.inl
      (h.aside hs.pcs hs.tracker ?_ ?_ ?_ ?_)))⟩
    · rw [hq]
      nofun
    · rw [hq]
      nofun
    · rw [hstate]
      nofun
    · rw [hstate]
      nofun
  | takes _ hq _ hover hs =>
    have hnot : q.role ≠ before_install ∧ q.role ≠ after_install := by
      rcases hq with hq | ⟨-, hq | hq⟩
      all_goals
        rw [hq]
        exact ⟨nofun, nofun⟩
    exact ⟨hs.aborted.trans haborted, Or.inr (Or.inr (Or.inl (h.aside hs.pcs hs.tracker hnot.1
      (fun hr => absurd hr hnot.2) hover.1 fun hst => absurd hst hover.2.2)))⟩
  | posts _ hq hstate htracker haborted' hpcs =>
    refine ⟨haborted'.trans haborted, Or.inr (Or.inr (Or.inl
      (h.aside hpcs htracker ?_ ?_ ?_ hstate.symm.trans)))⟩
    · rw [hq]
      nofun
    · rw [hq]
      nofun
    · rw [hstate]
      exact h.state
  | passes _ hq hs =>
    refine ⟨hs.aborted.trans haborted, Or.inr (Or.inr (Or.inl
      (h.aside hs.pcs hs.tracker ?_ ?_ ?_ hs.state.symm.trans)))⟩
    · rw [hq]
      nofun
    · rw [hq]
      nofun
    · rw [hs.state]
      exact h.state
  | begins _ _ hnone => exact absurd hnone h.state
  | opens hp | installs hp => exact absurd hp hrole
  | fails _ htracker => exact absurd h.tracker htracker

theorem GaveUp.effect (h : s.GaveUp) (haborted : s.aborted = false)
    (hok : s.Careful (.step i ok phase)) (he : Effect s (s.pcs i) ok phase q s') :
    (s'.goto i q).Sound := by
  obtain ⟨hopening, hinstalled⟩ := h.roles i
  obtain ⟨hposting, hasserting⟩ := h.quiet.2 i
  -- the thread comes to no place that matters
  have hother : q.role = other → s'.pcs = s.pcs → s'.posted = s.posted →
      s'.aborted = s.aborted → s'.state ≠ state_none ∧ s'.state ≠ state_started →
      s'.state ≠ state_starting → (s'.goto i q).Sound := by
    intro hq hpcs hposted haborted' hstate hnot
    refine ⟨haborted'.trans haborted, Or.inr (Or.inr (Or.inr ⟨⟨hposted.trans h.quiet.1, ?_⟩, ?_,
      hstate, fun hs => absurd hs hnot⟩))⟩
    · refine forall_goto (P := fun r => r ≠ posting ∧ r ≠ asserting) hpcs ?_ fun l _ => h.quiet.2 l
      rw [hq]
      exact ⟨nofun, nofun⟩
    · refine forall_goto (P := fun r => r ≠ before_install ∧ r ≠ after_install) hpcs ?_ fun l _ => h.roles l
      rw [hq]
      exact ⟨nofun, nofun⟩
  cases he with
  | keeps hq hs =>
    refine ⟨hs.aborted.trans haborted, Or.inr (Or.inr (Or.inr ⟨⟨hs.posted.trans h.quiet.1, ?_⟩, ?_,
      ?_, ?_⟩))⟩
    · refine forall_goto (P := fun r => r ≠ posting ∧ r ≠ asserting) hs.pcs ?_
        fun l _ => h.quiet.2 l
      rw [hq]
      exact ⟨hposting, hasserting⟩
    · refine forall_goto (P := fun r => r ≠ before_install ∧ r ≠ after_install) hs.pcs ?_ fun l _ => h.roles l
      rw [hq]
      exact ⟨hopening, hinstalled⟩
    · show s'.state ≠ _ ∧ s'.state ≠ _
      rw [hs.state]
      exact h.state
    · intro hstate
      obtain ⟨l, hl⟩ := h.failing (hs.state.symm.trans hstate)
      refine ⟨l, ?_⟩
      by_cases hli : l = i
      · rw [hli, goto_self, hq, ← hli]
        exact hl
      · rw [goto_of_ne hs.pcs hli]
        exact hl
  | errs _ hq hstate hs =>
    rcases hstate with ⟨-, herror⟩ | ⟨hnot, hsame⟩
    · refine hother hq hs.pcs hs.posted hs.aborted ?_ ?_
      all_goals rw [herror]
      · exact ⟨nofun, nofun⟩
      · nofun
    · refine hother hq hs.pcs hs.posted hs.aborted ?_ ?_
      all_goals rw [hsame]
      · exact h.state
      · exact hnot
  | times_out hp _ hstarting =>
    -- nothing is left to take the state from
    obtain ⟨l, hl⟩ := h.failing hstarting
    exact absurd hl (hok.2 hp hstarting l)
  | takes _ hq _ hover hs =>
    have hrole : q.role = other := by
      rcases hq with hq | ⟨hstarted, -⟩
      · exact hq
      · exact absurd hstarted h.state.2
    exact hother hrole hs.pcs hs.posted hs.aborted ⟨hover.1, hover.2.2⟩ hover.2.1
  | begins _ _ hnone => exact absurd hnone h.state.1
  | gives_up hp =>
    rcases hp with hp | hp
    · exact absurd hp hopening
    · exact absurd hp hinstalled
  | opens hp | installs hp => exact absurd hp hopening
  | starts hp | loses hp => exact absurd hp hinstalled
  | posts hp => exact absurd hp hposting
  | passes hp | fails hp => exact absurd hp hasserting

theorem Sound.effect (h : s.Sound) (hok : s.Careful (.step i ok phase))
    (he : Effect s (s.pcs i) ok phase q s') : (s'.goto i q).Sound := by
  obtain ⟨haborted, hfresh | ⟨j, hopening⟩ | hinstalled | hgave⟩ := h
  · exact hfresh.effect haborted he
  · exact hopening.effect haborted hok he
  · exact hinstalled.effect haborted hok he
  · exact hgave.effect haborted hok he

/-- A thread that enters a function is in no place that matters yet. -/
theorem Sound.enter (h : s.Sound) (hq : q.role = other) (hs : s.enter i q = some s') :
    s'.Sound := by
  unfold Handshaker.enter at hs
  split at hs
  · next hidle =>
    cases hs
    have hrole : (s.pcs i).role = other := by rw [hidle.2]; rfl
    have he : Effect s (s.pcs i) true .tls_handshake_ok q s :=
      .keeps (hq.trans hrole.symm) ⟨rfl, rfl, rfl, rfl, rfl⟩
    refine h.effect ⟨?_, ?_⟩ he
    · rw [hidle.2]
      nofun
    · rw [hidle.2]
      nofun
  · cases hs

/-- The poller takes an event, with the tracker installed. -/
theorem Sound.takes_event (h : s.Sound) (hok : ∀ j, (s.pcs j).role ≠ before_install)
    (hposted : s.posted > 0)
    (hs : ({ s with posted := s.posted - 1 } : Handshaker ι).enter i .finished_stop_timer =
      some s') : s'.Sound := by
  unfold Handshaker.enter at hs
  split at hs
  · cases hs
    obtain ⟨haborted, hfresh | ⟨j, hopening⟩ | hinstalled | hgave⟩ := h
    · have hzero := hfresh.posted
      omega
    · exact absurd hopening.opening (hok j)
    · exact ⟨haborted, Or.inr (Or.inr (Or.inl
        (hinstalled.aside rfl rfl nofun nofun hinstalled.state id)))⟩
    · have hzero := hgave.quiet.1
      omega
  · cases hs

theorem sound_step {l : HandshakerLabel ι} (h : s.Sound) (hok : s.Careful l)
    (hs : s.step l = some s') : s'.Sound := by
  cases l with
  | start i sv cbs flow timeout_ns =>
    refine h.enter ?_ hs
    split <;> rfl
  | stop i => exact h.enter rfl hs
  | timeout i =>
    simp only [step] at hs
    split at hs
    · exact h.enter rfl hs
    · cases hs
  | channel_event i =>
    simp only [step] at hs
    split at hs
    · next hposted => exact h.takes_event hok hposted hs
    · cases hs
  | io_event i =>
    simp only [step] at hs
    split at hs
    · exact h.enter rfl hs
    · cases hs
  | step i ok phase =>
    simp only [step] at hs
    split at hs
    · cases hs
    · cases hs
      exact h.effect hok (s.action_effect ok phase (s.pcs i))

/-- **Handshaker assertions.** In every careful run, over every interleaving,
    for every timeout, the assertions of `__handshake_finished` hold. -/
theorem assertions_hold (h : Reachable step Careful (new : Handshaker ι) s) :
    s.aborted = false := by
  have hnew : (new : Handshaker ι).Sound := ⟨rfl, Or.inl ⟨fun _ => rfl, rfl, rfl⟩⟩
  exact (h.invariant (I := Sound) hnew fun _ _ _ hi hok hs => sound_step hi hok hs).1

end

instance [Fintype ι] (s : Handshaker ι) : Decidable s.Quiet :=
  inferInstanceAs (Decidable (_ ∧ ∀ _, _))

instance [Fintype ι] (s : Handshaker ι) : (l : HandshakerLabel ι) → Decidable (s.Careful l)
  | .channel_event _ => inferInstanceAs (Decidable (∀ _, _))
  | .step _ _ _ => inferInstanceAs (Decidable ((_ → _) ∧ (_ → _ → ∀ _, _)))
  | .start _ _ _ _ _ | .stop _ | .timeout _ | .io_event _ => isTrue trivial

/-- Thread 0 starts a handshaker with a timeout of 1000 ns. The timer fires
    after three of its steps, and the poller handles the event after more. -/
def timing_out (more handled : Nat) : List (HandshakerLabel (Fin 3)) :=
  HandshakerLabel.start 0 true true true 1000 ::
    List.replicate 3 (HandshakerLabel.step 0 true .tls_handshake_read) ++
    HandshakerLabel.timeout 1 :: List.replicate 4 (.step 1 true .tls_handshake_read) ++
    List.replicate more (HandshakerLabel.step 0 true .tls_handshake_read) ++
    HandshakerLabel.channel_event 2 ::
      List.replicate handled (.step 2 true .tls_handshake_read)

/-- The event waits until `start` is over. -/
theorem assertions_hold_timeout :
    ∃ s : Handshaker (Fin 3), exec step new (timing_out 9 8) = some s ∧
      s.calls = [.handshaked_cb false] ∧ s.aborted = false := by
  have hexec : (exec step new (timing_out 9 8)).map (fun s => s.calls) =
      some [.handshaked_cb false] := by
    decide
  obtain ⟨s, hs, hcalls⟩ := Option.map_eq_some_iff.mp hexec
  exact ⟨s, hs, hcalls, assertions_hold (Reachable.of_exec hs (by decide))⟩

/-- The event is handled before there is a tracker. -/
theorem not_assertions_hold :
    ¬ ∀ (ls : List (HandshakerLabel (Fin 3))) (s : Handshaker (Fin 3)),
      exec step new ls = some s → s.aborted = false := by
  intro hall
  have hexec : (exec step new (timing_out 0 2)).map (fun s => s.aborted) = some true := by
    decide
  obtain ⟨s, hs, haborted⟩ := Option.map_eq_some_iff.mp hexec
  rw [hall _ s hs] at haborted
  cases haborted

end Handshaker

end Pump
