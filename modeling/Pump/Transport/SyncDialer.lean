import Pump.Transport.DialResult

/-! # sync_tcp_dialer and sync_tls_dialer

    `dial` of the two starts a dialer of its own and waits on a promise that
    the dialer's callbacks set. What the dialer does is a step of the model of
    `Dialer`; the callbacks are those that `dial` hands to it. Nobody but
    `dial` has the dialer, so it is started once and never stopped.

    The check of `dialer_` and its creation are one step: calls of `dial`
    that find none at the same time race for it. -/

namespace Pump

open TransportState ErrorCode TimerState

/-! ## Section 1: Model -/

/-- Where the thread is whose `dial` has created the dialer. -/
inductive SyncPhase (ι : Type) where
  | idle
  /-- In `start` of the dialer. -/
  | starting (i : ι)
  /-- In `get` of the future. -/
  | waiting (i : ι)
  deriving DecidableEq, Repr

/-- A `sync_tcp_dialer` or `sync_tls_dialer`. A transport is `true` and no
    transport `false`. The last four fields are a record of the run: the calls
    of `get_future`, the values set on a promise that has one, the failed
    assertions and what `dial` has returned. -/
structure SyncDialer (ι : Type) where
  dialer : Option (Dialer ι)
  dial_promise : Option Bool
  phase : SyncPhase ι
  futures : Nat
  set_again : Nat
  asserted : Nat
  returns : List Bool

inductive SyncLabel (ι : Type) where
  /-- A call of `dial`; the flags are the parameters of `start`, and whether
      the dialer is created. -/
  | dial (i : ι) (sv xcred created : Bool)
  /-- A step of the dialer. -/
  | dialer (l : DialerLabel ι)
  /-- `get` of the future finds a value. -/
  | get

/-- The thread inside `dial`. -/
def SyncPhase.thread {ι : Type} : SyncPhase ι → Option ι
  | .idle => none
  | .starting i | .waiting i => some i

/-- Where the thread is that the label is a step of. -/
def Dialer.at {ι : Type} (d : Dialer ι) : DialerLabel ι → DialerPc
  | .step i _ => d.pcs i
  | _ => .idle

namespace SyncDialer

variable {ι : Type}

def new : SyncDialer ι := ⟨none, none, .idle, 0, 0, 0, []⟩

/-- `set_value` of the promise. -/
def set_value (s : SyncDialer ι) (transp : Bool) : SyncDialer ι :=
  match s.dial_promise with
  | none => { s with dial_promise := some transp }
  | some _ => { s with set_again := s.set_again + 1 }

/-- `on_dialed`. The transport is there if the dial was a success. -/
def on_dialed (s : SyncDialer ι) (success : Bool) : SyncDialer ι := s.set_value success

def on_timeouted (s : SyncDialer ι) : SyncDialer ι := s.set_value false

def on_stopped (s : SyncDialer ι) : SyncDialer ι := { s with asserted := s.asserted + 1 }

/-- `dial` goes on where `start` returns. -/
def started (s : SyncDialer ι) (ec : ErrorCode) : SyncDialer ι :=
  match s.phase with
  | .starting i =>
    if ec = error_none then { s with phase := .waiting i, futures := s.futures + 1 }
    else { s with phase := .idle, returns := s.returns ++ [false] }
  | _ => s

/-- What comes with a step of the dialer's thread at `pc`. -/
def after (s : SyncDialer ι) : DialerPc → SyncDialer ι
  | .call (.dialed_cb success) => s.on_dialed success
  | .call .timeouted_cb => s.on_timeouted
  | .call .stopped_cb => s.on_stopped
  | .start_return ec => s.started ec
  | _ => s

variable [DecidableEq ι]

/-- A step of the dialer that can come: a thread inside `dial` enters nothing. -/
def may (s : SyncDialer ι) : DialerLabel ι → Bool
  | .start _ _ _ _ | .stop _ => false
  | .send_event i | .timeout i | .channel_event i | .handshake i _ => s.phase.thread ≠ some i
  | .step _ _ => true

def step (k : DialerKind) (timeout_ns : Nat) (s : SyncDialer ι) :
    SyncLabel ι → Option (SyncDialer ι)
  | .dial i sv xcred created =>
    if s.phase.thread = some i then none
    else match s.dialer with
      | some _ => some { s with returns := s.returns ++ [false] }
      | none =>
        if created then
          ((Dialer.new : Dialer ι).step k timeout_ns (.start i sv true xcred)).map fun d =>
            { s with dialer := some d, phase := .starting i }
        else some { s with returns := s.returns ++ [false] }
  | .dialer l =>
    match s.dialer with
    | none => none
    | some d =>
      if s.may l then
        (d.step k timeout_ns l).map fun d' => ({ s with dialer := some d' } : SyncDialer ι).after (d.at l)
      else none
  | .get =>
    match s.phase, s.dial_promise with
    | .waiting _, some transp => some { s with phase := .idle, returns := s.returns ++ [transp] }
    | _, _ => none

end SyncDialer

/-! ## Section 2: A dialer that nobody stops -/

/-- The thread is inside `stop`, or is to call back that the dialer is stopped. -/
def DialerPc.in_stop : DialerPc → Prop
  | stop_started | stop_timer | stop_post | stop_handshaking | stop_timeouting
  | .call .stopped_cb => True
  | _ => False

theorem DialerPc.eq_of_called {pc : DialerPc} {c : DialerCall} (h : c ∈ pc.called) :
    pc = .call c := by
  unfold called at h
  split at h
  · rw [List.mem_singleton.mp h]
  · cases h

namespace Dialer

variable {ι : Type} {k : DialerKind} {timeout_ns : Nat}

/-- `stop` is entered by a call, and called back from `state_stopping`. -/
theorem action_in_stop (s : Dialer ι) (ok : Bool) (pc : DialerPc)
    (h : (s.action k timeout_ns ok pc).1.in_stop) : pc.in_stop ∨ s.state = state_stopping := by
  cases pc with
  | stop_started | stop_timer | stop_post | stop_handshaking | stop_timeouting =>
    exact Or.inl trivial
  | call c => exact h.elim
  | channel_stopping =>
    simp only [action, set_state] at h
    split at h
    · next hst => exact Or.inr hst
    · exact h.elim
  | start_stages rest =>
    rcases rest with _ | ⟨st, rest⟩
    · exact h.elim
    · simp only [action] at h
      split at h <;> exact h.elim
  | send_starting success | send_started success =>
    simp only [action, action.won] at h
    cases k <;> cases success <;> split at h <;> exact h.elim
  | start_state | start_started | send_failed | timer_started | timer_pending | timeout_state
  | channel_timeouting | handshaked | send_handshaker | send_handshaker_start =>
    simp only [action] at h
    split at h <;> exact h.elim
  | _ => exact h.elim

/-- A thread stays inside `start` until it returns. -/
theorem action_stays (s : Dialer ι) (ok : Bool) {pc : DialerPc} (hin : pc.in_start)
    (hret : pc.returned = none) : (s.action k timeout_ns ok pc).1.in_start := by
  cases pc with
  | start_state | start_started =>
    simp only [action]
    split <;> trivial
  | start_stages rest =>
    rcases rest with _ | ⟨st, rest⟩
    · trivial
    · simp only [action]
      split <;> trivial
  | start_stop_timer | start_error => trivial
  | start_return ec => cases hret
  | _ => exact hin.elim

/-- Without `stop` these states are out of reach. -/
theorem Move.unstopped {pc pc' : DialerPc} {st st' : TransportState} (h : Move k pc st st' pc')
    (hpc : ¬ pc.in_stop) (hst : st ≠ state_stopping) :
    st' ≠ state_stopping ∧ st' ≠ state_stopped := by
  cases h with
  | stop_started | stop_handshaking | stop_timeouting => exact absurd trivial hpc
  | channel_stopping => exact absurd rfl hst
  | send_starting success ok | send_started success ok =>
    cases k <;> cases success <;> exact ⟨nofun, nofun⟩
  | _ => exact ⟨nofun, nofun⟩

/-- A terminal state brings a callback due, is that of a `start` that fails,
    or that of a `tls_dialer` whose connect has failed. -/
theorem Move.settled {pc pc' : DialerPc} {st st' : TransportState} (h : Move k pc st st' pc')
    (hover : st'.dial_over) :
    (∃ c, pc' = .call c) ∨ st = state_starting ∨ k = .tls ∧ st' = state_error := by
  cases h with
  | start_error | send_starting => exact Or.inr (Or.inl rfl)
  | send_failed | channel_timeouting | channel_stopping | handshaked => exact Or.inl ⟨_, rfl⟩
  | send_started success ok =>
    cases k with
    | tcp => exact Or.inl ⟨_, rfl⟩
    | tls =>
      cases success with
      | true => exact hover.elim
      | false => exact Or.inr (Or.inr ⟨rfl, rfl⟩)
  | start_state | start_started | stop_started | stop_handshaking | stop_timeouting
  | timeout_state => exact hover.elim

variable [DecidableEq ι]

omit [DecidableEq ι] in
theorem at_idle (s : Dialer ι) {l : DialerLabel ι} (h : ∀ i ok, l ≠ .step i ok) :
    s.at l = .idle := by
  cases l with
  | step i ok => exact absurd rfl (h i ok)
  | start | stop | send_event | timeout | channel_event | handshake => rfl

/-- A step is that of the thread it names, or an idle thread enters a function. -/
theorem step_at {s s' : Dialer ι} {l : DialerLabel ι} (h : step k timeout_ns s l = some s') :
    (∃ i pc, Entered s l i pc s' ∧ ∀ j ok, l ≠ .step j ok) ∨
      ∃ i ok, l = .step i ok ∧ Stepped k s i (s.action k timeout_ns ok (s.pcs i)).1 s' := by
  cases l with
  | step i ok =>
    right
    cases h
    exact ⟨i, ok, rfl, stepped s i ok⟩
  | start | stop | send_event | timeout | channel_event | handshake =>
    left
    rcases step_cases h with ⟨i, pc, he⟩ | ⟨i, ok, hl, -⟩
    · exact ⟨i, pc, he, fun _ _ => by nofun⟩
    · cases hl

/-- What a step adds to the record of the run. -/
theorem step_record {s s' : Dialer ι} {l : DialerLabel ι} (h : step k timeout_ns s l = some s') :
    s'.calls = s.calls ++ (s.at l).called ∧ s'.result = (s.at l).returned.or s.result := by
  rcases step_at h with ⟨i, pc, he, hno⟩ | ⟨i, ok, rfl, hs⟩
  · rw [s.at_idle hno]
    exact ⟨he.calls.trans (List.append_nil _).symm, he.result⟩
  · exact ⟨hs.calls, hs.result⟩

omit [DecidableEq ι] in
theorem step_of_at {s : Dialer ι} {l : DialerLabel ι} {pc : DialerPc} (h : s.at l = pc)
    (hpc : pc ≠ .idle) : ∃ i ok, l = .step i ok ∧ s.pcs i = pc := by
  cases l with
  | step i ok => exact ⟨i, ok, rfl, h⟩
  | start | stop | send_event | timeout | channel_event | handshake => exact absurd h.symm hpc

/-- Nobody is inside `start` when it has returned. -/
theorem returned_step {s s' : Dialer ι} {i : ι} {ok : Bool} {ec : ErrorCode}
    (hsingle : SingleStart s) (hi : s.pcs i = .start_return ec)
    (h : step k timeout_ns s (.step i ok) = some s') (j : ι) : ¬ (s'.pcs j).in_start := by
  intro hin
  rcases step_at h with ⟨-, -, -, hno⟩ | ⟨i', ok', hl, hs⟩
  · exact absurd rfl (hno i ok)
  cases hl
  by_cases hji : j = i
  · rw [hji, hs.self] at hin
    have hret := (hs.in_start hin).2
    rw [hi] at hret
    cases hret
  · rw [hs.other j hji] at hin
    exact hji (hsingle.unique j i hin (by rw [hi]; trivial))

/-- No thread is in `stop`, and the dialer is not being stopped. -/
structure Unstopped (s : Dialer ι) : Prop where
  state : s.state ≠ state_stopping ∧ s.state ≠ state_stopped
  pcs : ∀ i, ¬ (s.pcs i).in_stop
  calls : .stopped_cb ∉ s.calls

omit [DecidableEq ι] in
theorem unstopped_new : Unstopped (new : Dialer ι) :=
  ⟨⟨nofun, nofun⟩, fun _ h => h, nofun⟩

/-- A thread that enters a function other than `stop`. -/
theorem enter_unstopped {s t s' : Dialer ι} {i j : ι} {pc : DialerPc} (h : t.enter i pc = some s')
    (hpcs : t.pcs = s.pcs) (hpc : ¬ pc.in_stop) (hj : ¬ (s.pcs j).in_stop) :
    ¬ (s'.pcs j).in_stop := by
  obtain ⟨-, rfl⟩ := enter_eq h
  simp only [goto, hpcs]
  by_cases hji : j = i
  · rw [hji, Function.update_self]
    exact hpc
  · rwa [Function.update_of_ne hji]

theorem entered_unstopped {s s' : Dialer ι} {l : DialerLabel ι} (hstop : ∀ i, l ≠ .stop i)
    (hstep : ∀ i ok, l ≠ .step i ok) (h : step k timeout_ns s l = some s') {j : ι}
    (hj : ¬ (s.pcs j).in_stop) : ¬ (s'.pcs j).in_stop := by
  cases l with
  | start i sv cbs xcred =>
    refine enter_unstopped h rfl ?_ hj
    split
    · exact id
    · exact id
  | stop i => exact absurd rfl (hstop i)
  | send_event i | timeout i | channel_event i | handshake i success =>
    simp only [step] at h
    split at h
    · exact enter_unstopped h rfl id hj
    · cases h
  | step i ok => exact absurd rfl (hstep i ok)

theorem unstopped_step {s s' : Dialer ι} {l : DialerLabel ι} (hinv : Unstopped s)
    (hstop : ∀ i, l ≠ .stop i) (h : step k timeout_ns s l = some s') : Unstopped s' := by
  rcases step_at h with ⟨i, pc, he, hno⟩ | ⟨i, ok, rfl, hs⟩
  · refine ⟨?_, fun j => entered_unstopped hstop hno h (hinv.pcs j), ?_⟩
    · rw [he.state]
      exact hinv.state
    · rw [he.calls]
      exact hinv.calls
  · refine ⟨?_, fun j => ?_, ?_⟩
    · rcases hs.state with ⟨hst, -⟩ | hm
      · rw [hst]
        exact hinv.state
      · exact hm.unstopped (hinv.pcs i) hinv.state.1
    · by_cases hji : j = i
      · rw [hji, hs.self]
        intro hin
        rcases action_in_stop s ok _ hin with hbefore | hst
        · exact hinv.pcs i hbefore
        · exact hinv.state.1 hst
      · rw [hs.other j hji]
        exact hinv.pcs j
    · rw [hs.calls, List.mem_append]
      rintro (hmem | hmem)
      · exact hinv.calls hmem
      · apply hinv.pcs i
        rw [DialerPc.eq_of_called hmem]
        trivial

/-- A terminal state comes with a callback, unless `start` has not succeeded
    or it is a `tls_dialer` whose connect has failed. -/
structure Settled (k : DialerKind) (s : Dialer ι) : Prop where
  ended : Succeeded s → s.state.dial_over →
    s.calls ≠ [] ∨ (∃ i c, s.pcs i = .call c) ∨ k = .tls ∧ s.state = state_error
  started : Succeeded s → s.state ≠ state_none ∧ s.state ≠ state_starting

omit [DecidableEq ι] in
theorem settled_new : Settled k (new : Dialer ι) := by
  refine ⟨fun _ h => h.elim, ?_⟩
  rintro (hres | ⟨i, hi⟩)
  · cases hres
  · cases hi

theorem settled_started {s s' : Dialer ι} {l : DialerLabel ι} (hinv : Settled k s)
    (h : step k timeout_ns s l = some s') (hsucc : Succeeded s') :
    s'.state ≠ state_none ∧ s'.state ≠ state_starting := by
  rcases succeeded_of_step hsucc h with hbefore | hst
  · rcases step_effect h with ⟨i, pc, he⟩ | ⟨i, ok, pc, -, hs⟩
    · rw [he.state]
      exact hinv.started hbefore
    · rcases hs.state with ⟨hst, -⟩ | hm
      · rw [hst]
        exact hinv.started hbefore
      · exact ⟨hm.onwards.1, (hm.onwards.2 (hinv.started hbefore)).1⟩
  · rw [hst]
    exact ⟨nofun, nofun⟩

theorem settled_step {s s' : Dialer ι} {l : DialerLabel ι} (hinv : Settled k s)
    (h : step k timeout_ns s l = some s') : Settled k s' := by
  refine ⟨fun hsucc hover => ?_, settled_started hinv h⟩
  -- `start` succeeds in `state_started`, which is not terminal
  have hbefore : Succeeded s := by
    rcases succeeded_of_step hsucc h with hbefore | hst
    · exact hbefore
    · rw [hst] at hover
      exact hover.elim
  rcases step_effect h with ⟨i, pc, he⟩ | ⟨i, ok, pc, -, hs⟩
  · rw [he.state] at hover ⊢
    rcases hinv.ended hbefore hover with hcalls | ⟨j, c, hj⟩ | herror
    · exact Or.inl (by rwa [he.calls])
    · refine Or.inr (Or.inl ⟨j, c, (he.other ?_).trans hj⟩)
      rintro rfl
      rw [he.idle] at hj
      cases hj
    · exact Or.inr (Or.inr herror)
  · rcases hs.state with ⟨hst, -⟩ | hm
    · rw [hst] at hover ⊢
      rw [hs.calls]
      rcases hinv.ended hbefore hover with hcalls | ⟨j, c, hj⟩ | herror
      · exact Or.inl (List.append_ne_nil_of_left_ne_nil hcalls _)
      · by_cases hji : j = i
        · left
          rw [← hji, hj]
          exact List.append_ne_nil_of_right_ne_nil _ (List.cons_ne_nil c [])
        · exact Or.inr (Or.inl ⟨j, c, (hs.other j hji).trans hj⟩)
      · exact Or.inr (Or.inr herror)
    · rcases hm.settled hover with ⟨c, hc⟩ | hst | herror
      · exact Or.inr (Or.inl ⟨i, c, hs.self.trans hc⟩)
      · exact absurd hst (hinv.started hbefore).2
      · exact Or.inr (Or.inr herror)

/-- The dialer is in a terminal state, and has called nobody and is not about to. -/
structure Mute (s : Dialer ι) : Prop where
  ended : s.state.dial_over
  due : ∀ i c, s.pcs i ≠ .call c
  calls : s.calls = []

/-- What holds of a dialer that is started once and never stopped. -/
structure Dialed (k : DialerKind) (s : Dialer ι) : Prop where
  single : SingleStart s
  one : OneCall s
  unstopped : Unstopped s
  settled : Settled k s

theorem dialed_step {s s' : Dialer ι} {l : DialerLabel ι} (hinv : Dialed k s)
    (honce : starts_once s l = true) (hstop : ∀ i, l ≠ .stop i)
    (h : step k timeout_ns s l = some s') : Dialed k s' :=
  ⟨singleStart_step hinv.single honce h, oneCall_step hinv.one h,
    unstopped_step hinv.unstopped hstop h, settled_step hinv.settled h⟩

/-- `start` of a new dialer is entered. -/
theorem dialed_start {s : Dialer ι} {i : ι} {sv cbs xcred : Bool}
    (h : step k timeout_ns new (.start i sv cbs xcred) = some s) : Dialed k s :=
  dialed_step ⟨singleStart_new, oneCall_new, unstopped_new, settled_new⟩ rfl (fun _ => by nofun) h

theorem start_eq {s : Dialer ι} {i : ι} {sv cbs xcred : Bool}
    (h : step k timeout_ns new (.start i sv cbs xcred) = some s) :
    s.calls = [] ∧ s.result = none ∧ ∀ j, (s.pcs j).in_start ↔ j = i := by
  simp only [step] at h
  obtain ⟨-, rfl⟩ := enter_eq h
  refine ⟨rfl, rfl, fun j => ?_⟩
  simp only [goto]
  by_cases hji : j = i
  · rw [hji, Function.update_self]
    refine ⟨fun _ => rfl, fun _ => ?_⟩
    split <;> trivial
  · rw [Function.update_of_ne hji]
    exact ⟨fun hin => hin.elim, fun heq => absurd heq hji⟩

/-- Which thread is inside `start` changes where `start` is entered and where
    it returns. -/
theorem in_start_step {s s' : Dialer ι} {l : DialerLabel ι} (h : step k timeout_ns s l = some s')
    (hno : ∀ i sv cbs xcred, l ≠ .start i sv cbs xcred) (hret : (s.at l).returned = none) (j : ι) :
    (s'.pcs j).in_start ↔ (s.pcs j).in_start := by
  rcases step_at h with ⟨i, pc, he, -⟩ | ⟨i, ok, rfl, hs⟩
  · by_cases hji : j = i
    · rw [hji, he.self, he.idle]
      refine ⟨fun hin => ?_, fun hin => hin.elim⟩
      obtain ⟨⟨sv, cbs, xcred, hl⟩, -⟩ := he.start hin
      exact absurd hl (hno i sv cbs xcred)
    · rw [he.other hji]
  · by_cases hji : j = i
    · rw [hji, hs.self]
      exact ⟨fun hin => (hs.in_start hin).1, fun hin => action_stays s ok hin hret⟩
    · rw [hs.other j hji]

end Dialer

/-! ## Section 3: What dial returns -/

/-- The value that a callback sets. -/
def DialerCall.value : DialerCall → Bool
  | .dialed_cb success => success
  | _ => false

namespace SyncDialer

variable {ι : Type} [DecidableEq ι] {k : DialerKind} {timeout_ns : Nat}

/-- Before `dial` has created a dialer. -/
structure Fresh (s : SyncDialer ι) : Prop where
  phase : s.phase = .idle
  promise : s.dial_promise = none
  futures : s.futures = 0
  returns : s.returns.count true = 0
  set_again : s.set_again = 0
  asserted : s.asserted = 0

/-- `dial` has handed out the transport. -/
def Handed (s : SyncDialer ι) (d : Dialer ι) : Prop :=
  s.phase = .idle ∧ d.result = some error_none ∧ s.dial_promise = some true

instance (s : SyncDialer ι) (d : Dialer ι) : Decidable (Handed s d) :=
  inferInstanceAs (Decidable (_ ∧ _))

/-- Afterwards. The thread in `start` is the one whose `dial` created the
    dialer, the promise has what the callback gave it, and `dial` returns it
    once. -/
structure Running (k : DialerKind) (d : Dialer ι) (s : SyncDialer ι) : Prop where
  dialed : d.Dialed k
  start : ∀ i, (d.pcs i).in_start ↔ s.phase = .starting i
  waits : ∀ i, s.phase = .waiting i → d.result = some error_none
  promise : s.dial_promise = d.calls.head?.map DialerCall.value
  got : s.phase = .idle → d.result = some error_none → s.dial_promise ≠ none
  handed : s.returns.count true = if Handed s d then 1 else 0
  futures : s.futures = if d.result = some error_none then 1 else 0
  set_again : s.set_again = 0
  asserted : s.asserted = 0

/-- **Invariant.** -/
def Sound (k : DialerKind) (s : SyncDialer ι) : Prop :=
  match s.dialer with
  | none => Fresh s
  | some d => Running k d s

omit [DecidableEq ι] in
/-- A call of `dial` that creates no dialer returns at once. -/
theorem Fresh.refused {s : SyncDialer ι} (h : Fresh s) :
    Fresh { s with returns := s.returns ++ [false] } := by
  refine ⟨h.phase, h.promise, h.futures, ?_, h.set_again, h.asserted⟩
  rw [List.count_append, h.returns]
  rfl

/-- A call of `dial` that comes too late returns at once. -/
theorem Running.refused {s : SyncDialer ι} {d : Dialer ι} (h : Running k d s) :
    Running k d { s with returns := s.returns ++ [false] } := by
  refine ⟨h.dialed, h.start, h.waits, h.promise, h.got, ?_, h.futures, h.set_again, h.asserted⟩
  rw [List.count_append, h.handed]
  rfl

omit [DecidableEq ι] in
theorem not_handed {s : SyncDialer ι} {d : Dialer ι} (h : s.phase ≠ .idle) : ¬ Handed s d :=
  fun hhanded => h hhanded.1

/-- `start` of the new dialer is entered. -/
theorem Fresh.dial {s : SyncDialer ι} {d : Dialer ι} {i : ι} {sv xcred : Bool} (h : Fresh s)
    (hd : Dialer.step k timeout_ns Dialer.new (.start i sv true xcred) = some d) :
    Running k d { s with dialer := some d, phase := .starting i } := by
  have hdialed := Dialer.dialed_start hd
  obtain ⟨hcalls, hresult, hstart⟩ := Dialer.start_eq hd
  refine ⟨hdialed, fun j => ?_, fun _ => nofun, ?_, nofun, ?_, ?_, h.set_again, h.asserted⟩
  · rw [hstart j]
    constructor
    · rintro rfl
      rfl
    · intro heq
      cases heq
      rfl
  · rw [hcalls]
    exact h.promise
  · rw [if_neg (not_handed (by nofun))]
    exact h.returns
  · rw [hresult]
    exact h.futures

/-- `get` returns the value of the promise. -/
theorem Running.get {s : SyncDialer ι} {d : Dialer ι} {i : ι} {transp : Bool} (h : Running k d s)
    (hphase : s.phase = .waiting i) (hset : s.dial_promise = some transp) :
    Running k d { s with phase := .idle, returns := s.returns ++ [transp] } := by
  have hresult := h.waits i hphase
  refine ⟨h.dialed, fun j => ?_, fun _ => nofun, h.promise, fun _ _ => ?_, ?_, h.futures,
    h.set_again, h.asserted⟩
  · rw [h.start j, hphase]
    exact ⟨nofun, nofun⟩
  · show s.dial_promise ≠ none
    rw [hset]
    nofun
  · have hbefore : s.returns.count true = 0 := by
      rw [h.handed, if_neg]
      apply not_handed
      rw [hphase]
      nofun
    have hiff : Handed { s with phase := .idle, returns := s.returns ++ [transp] } d ↔
        transp = true := by
      simp [Handed, hresult, hset]
    rw [List.count_append, hbefore]
    cases transp with
    | true =>
      rw [if_pos (hiff.mpr rfl)]
      rfl
    | false =>
      rw [if_neg fun hh => by simpa using hiff.mp hh]
      rfl

/-- The dialer takes a step in which it neither calls back nor leaves `start`. -/
theorem Running.quiet {s : SyncDialer ι} {d d' : Dialer ι} (h : Running k d s)
    (hdialed : d'.Dialed k) (hstart : ∀ i, (d'.pcs i).in_start ↔ (d.pcs i).in_start)
    (hcalls : d'.calls = d.calls) (hresult : d'.result = d.result) :
    Running k d' { s with dialer := some d' } := by
  refine ⟨hdialed, fun i => (hstart i).trans (h.start i), ?_, ?_, ?_, ?_, ?_, h.set_again, h.asserted⟩
  · rw [hresult]
    exact h.waits
  · rw [hcalls]
    exact h.promise
  · rw [hresult]
    exact h.got
  · simp only [Handed, hresult]
    exact h.handed
  · rw [hresult]
    exact h.futures

omit [DecidableEq ι] in
theorem after_call {s : SyncDialer ι} {c : DialerCall} (hc : c ≠ .stopped_cb)
    (hnone : s.dial_promise = none) :
    s.after (.call c) = { s with dial_promise := some c.value } := by
  cases c with
  | dialed_cb success => simp only [after, on_dialed, set_value, hnone, DialerCall.value]
  | timeouted_cb => simp only [after, on_timeouted, set_value, hnone, DialerCall.value]
  | stopped_cb => exact absurd rfl hc

/-- The dialer calls back. -/
theorem Running.called {s : SyncDialer ι} {d d' : Dialer ι} {c : DialerCall} (h : Running k d s)
    (hdialed : d'.Dialed k) (hstart : ∀ i, (d'.pcs i).in_start ↔ (d.pcs i).in_start)
    (hnone : d.calls = []) (hcalls : d'.calls = [c]) (hresult : d'.result = d.result) :
    Running k d' (({ s with dialer := some d' } : SyncDialer ι).after (.call c)) := by
  have hunset : s.dial_promise = none := by
    rw [h.promise, hnone]
    rfl
  have hc : c ≠ .stopped_cb := by
    rintro rfl
    exact hdialed.unstopped.calls (hcalls ▸ List.mem_singleton_self _)
  -- `get` has not returned before the promise is set
  have hnot : ¬ (s.phase = .idle ∧ d.result = some error_none) :=
    fun hgot => h.got hgot.1 hgot.2 hunset
  rw [after_call hc (show ({ s with dialer := some d' } : SyncDialer ι).dial_promise = none from hunset)]
  refine ⟨hdialed, fun i => (hstart i).trans (h.start i), ?_, ?_, fun _ _ => nofun, ?_, ?_,
    h.set_again, h.asserted⟩
  · rw [hresult]
    exact h.waits
  · rw [hcalls]
    rfl
  · have hbefore : s.returns.count true = 0 := by
      rw [h.handed, if_neg fun hh => hnot ⟨hh.1, hh.2.1⟩]
    rw [if_neg, hbefore]
    intro hh
    exact hnot ⟨hh.1, hresult ▸ hh.2.1⟩
  · rw [hresult]
    exact h.futures

/-- `start` returns. -/
theorem Running.started {s : SyncDialer ι} {d d' : Dialer ι} {i : ι} {ec : ErrorCode}
    (h : Running k d s) (hphase : s.phase = .starting i) (hdialed : d'.Dialed k)
    (hstart : ∀ j, ¬ (d'.pcs j).in_start) (hpending : d.result = none) (hcalls : d'.calls = d.calls)
    (hresult : d'.result = some ec) :
    Running k d' (({ s with dialer := some d' } : SyncDialer ι).after (.start_return ec)) := by
  have hbefore : s.returns.count true = 0 := by
    rw [h.handed, if_neg]
    apply not_handed
    rw [hphase]
    nofun
  have hfutures : s.futures = 0 := by
    rw [h.futures, hpending, if_neg nofun]
  simp only [after, SyncDialer.started, hphase]
  split
  · next hec =>
    refine ⟨hdialed, fun j => ?_, fun _ _ => ?_, ?_, nofun, ?_, ?_, h.set_again, h.asserted⟩
    · exact ⟨fun hin => absurd hin (hstart j), nofun⟩
    · rw [hresult, hec]
    · rw [hcalls]
      exact h.promise
    · rw [if_neg (not_handed (by nofun))]
      exact hbefore
    · rw [hresult, hec, if_pos rfl]
      exact congrArg (· + 1) hfutures
  · next hec =>
    have hfailed : ¬ d'.result = some error_none := by
      rw [hresult]
      exact fun heq => hec (Option.some.inj heq)
    refine ⟨hdialed, fun j => ?_, fun _ => nofun, ?_, ?_, ?_, ?_, h.set_again, h.asserted⟩
    · exact ⟨fun hin => absurd hin (hstart j), nofun⟩
    · rw [hcalls]
      exact h.promise
    · exact fun _ hnone => absurd hnone hfailed
    · rw [List.count_append, hbefore, if_neg fun hh => hfailed hh.2.1]
      rfl
    · rw [if_neg hfailed]
      exact hfutures

omit [DecidableEq ι] in
/-- The steps that `dial` or a callback of its has something to do with. -/
theorem after_cases (pc : DialerPc) :
    (∃ c, pc = .call c) ∨ (∃ ec, pc = .start_return ec) ∨
      pc.called = [] ∧ pc.returned = none ∧ ∀ s : SyncDialer ι, s.after pc = s := by
  cases pc with
  | call c => exact Or.inl ⟨c, rfl⟩
  | start_return ec => exact Or.inr (Or.inl ⟨ec, rfl⟩)
  | _ => exact Or.inr (Or.inr ⟨rfl, rfl, fun _ => rfl⟩)

omit [DecidableEq ι] in
theorem after_dialer (s : SyncDialer ι) (pc : DialerPc) : (s.after pc).dialer = s.dialer := by
  unfold after
  split
  · unfold on_dialed set_value
    split <;> rfl
  · unfold on_timeouted set_value
    split <;> rfl
  · rfl
  · unfold SyncDialer.started
    split
    · split <;> rfl
    · rfl
  · rfl

/-- A step of the dialer. -/
theorem Running.step {s : SyncDialer ι} {d d' : Dialer ι} {l : DialerLabel ι} (h : Running k d s)
    (hmay : s.may l = true) (hstep : d.step k timeout_ns l = some d') :
    Running k d' (({ s with dialer := some d' } : SyncDialer ι).after (d.at l)) := by
  have hnostart : ∀ i sv cbs xcred, l ≠ .start i sv cbs xcred := by
    rintro i sv cbs xcred rfl
    cases hmay
  have hnostop : ∀ i, l ≠ .stop i := by
    rintro i rfl
    cases hmay
  have honce : Dialer.starts_once d l = true := by
    cases l with
    | start i sv cbs xcred => exact absurd rfl (hnostart i sv cbs xcred)
    | stop | send_event | timeout | channel_event | handshake | step => rfl
  have hdialed := Dialer.dialed_step h.dialed honce hnostop hstep
  obtain ⟨hcalls, hresult⟩ := Dialer.step_record hstep
  rcases after_cases (ι := ι) (d.at l) with ⟨c, hpc⟩ | ⟨ec, hpc⟩ | ⟨hnocall, hnoret, hafter⟩
  · obtain ⟨i, ok, rfl, hi⟩ := Dialer.step_of_at hpc nofun
    have hnone := (h.dialed.one.due i c hi).1
    rw [hpc] at hcalls hresult ⊢
    rw [hnone] at hcalls
    refine h.called hdialed (Dialer.in_start_step hstep hnostart ?_) hnone hcalls hresult
    rw [hpc]
    rfl
  · obtain ⟨i, ok, rfl, hi⟩ := Dialer.step_of_at hpc nofun
    have hin : (d.pcs i).in_start := by
      rw [hi]
      trivial
    rw [hpc] at hcalls hresult ⊢
    exact h.started ((h.start i).mp hin) hdialed (Dialer.returned_step h.dialed.single hi hstep)
      (h.dialed.single.pending i hin) (hcalls.trans (List.append_nil _)) hresult
  · rw [hafter]
    refine h.quiet hdialed (Dialer.in_start_step hstep hnostart hnoret) ?_ ?_
    · rw [hcalls, hnocall, List.append_nil]
    · rw [hresult, hnoret, Option.none_or]

theorem Sound.fresh {s : SyncDialer ι} (h : Sound k s) (hnone : s.dialer = none) : Fresh s := by
  unfold Sound at h
  rwa [hnone] at h

theorem Sound.of_fresh {s : SyncDialer ι} (hnone : s.dialer = none) (h : Fresh s) : Sound k s := by
  unfold Sound
  rwa [hnone]

theorem Sound.running {s : SyncDialer ι} {d : Dialer ι} (h : Sound k s) (hd : s.dialer = some d) :
    Running k d s := by
  unfold Sound at h
  rwa [hd] at h

theorem Sound.of_running {s : SyncDialer ι} {d : Dialer ι} (hd : s.dialer = some d)
    (h : Running k d s) : Sound k s := by
  unfold Sound
  rwa [hd]

/-- **Steps.** A call of `dial` creates the dialer or returns at once, the
    dialer takes a step, or the promise is read. -/
theorem step_cases {s s' : SyncDialer ι} {l : SyncLabel ι} (h : step k timeout_ns s l = some s') :
    (∃ i sv xcred d, s.dialer = none ∧
        Dialer.step k timeout_ns Dialer.new (.start i sv true xcred) = some d ∧
        s' = { s with dialer := some d, phase := .starting i }) ∨
      s' = { s with returns := s.returns ++ [false] } ∨
      (∃ d l d', s.dialer = some d ∧ s.may l = true ∧ d.step k timeout_ns l = some d' ∧
        s' = ({ s with dialer := some d' } : SyncDialer ι).after (d.at l)) ∨
      ∃ i transp, s.phase = .waiting i ∧ s.dial_promise = some transp ∧
        s' = { s with phase := .idle, returns := s.returns ++ [transp] } := by
  cases l with
  | dial i sv xcred created =>
    simp only [step] at h
    split at h
    · cases h
    split at h
    · cases h
      exact Or.inr (Or.inl rfl)
    next hnone =>
    split at h
    · obtain ⟨d, hd, rfl⟩ := Option.map_eq_some_iff.mp h
      exact Or.inl ⟨i, sv, xcred, d, hnone, hd, rfl⟩
    · cases h
      exact Or.inr (Or.inl rfl)
  | dialer l =>
    simp only [step] at h
    split at h
    · cases h
    next d hd =>
    split at h
    · next hmay =>
      obtain ⟨d', hd', rfl⟩ := Option.map_eq_some_iff.mp h
      exact Or.inr (Or.inr (Or.inl ⟨d, l, d', hd, hmay, hd', rfl⟩))
    · cases h
  | get =>
    simp only [step] at h
    split at h
    · next i transp hphase hset =>
      cases h
      exact Or.inr (Or.inr (Or.inr ⟨i, transp, hphase, hset, rfl⟩))
    · cases h

theorem sound_step {s s' : SyncDialer ι} {l : SyncLabel ι} (hinv : Sound k s)
    (h : step k timeout_ns s l = some s') : Sound k s' := by
  rcases step_cases h with ⟨i, sv, xcred, d, hnone, hd, rfl⟩ | rfl |
    ⟨d, l, d', hd, hmay, hd', rfl⟩ | ⟨i, transp, hphase, hset, rfl⟩
  · exact .of_running rfl ((hinv.fresh hnone).dial hd)
  · rcases s.dialer.eq_none_or_eq_some with hd | ⟨d, hd⟩
    · exact .of_fresh hd (hinv.fresh hd).refused
    · exact .of_running hd (hinv.running hd).refused
  · exact .of_running (after_dialer _ _) ((hinv.running hd).step hmay hd')
  · rcases s.dialer.eq_none_or_eq_some with hd | ⟨d, hd⟩
    · rw [(hinv.fresh hd).phase] at hphase
      cases hphase
    · exact .of_running hd ((hinv.running hd).get hphase hset)

/-- `dial` waits for a dialer that will call nobody. -/
structure Hangs (i : ι) (s : SyncDialer ι) : Prop where
  waits : s.phase = .waiting i
  promise : s.dial_promise = none
  mute : ∃ d, s.dialer = some d ∧ d.Mute

/-- The answer of a dialer that has come to an end. -/
theorem Running.answer {s : SyncDialer ι} {d : Dialer ι} {i : ι} (h : Running k d s)
    (hd : s.dialer = some d) (hwaits : s.phase = .waiting i) (hover : d.state.dial_over) :
    s.dial_promise ≠ none ∨ (∃ j c, d.pcs j = .call c) ∨
      k = .tls ∧ d.state = state_error ∧ Hangs i s := by
  by_cases hdue : ∃ j c, d.pcs j = .call c
  · exact Or.inr (Or.inl hdue)
  have hset : d.calls ≠ [] → s.dial_promise ≠ none := by
    intro hcalls
    rw [h.promise, ne_eq, Option.map_eq_none_iff, List.head?_eq_none_iff]
    exact hcalls
  by_cases hcalls : d.calls = []
  · right
    right
    rcases h.dialed.settled.ended (Or.inl (h.waits i hwaits)) hover with hne | hdue' | ⟨hk, herror⟩
    · exact absurd hcalls hne
    · exact absurd hdue' hdue
    · refine ⟨hk, herror, hwaits, ?_, d, hd, hover, fun j c hj => hdue ⟨j, c, hj⟩, hcalls⟩
      rw [h.promise, hcalls]
      rfl
  · exact Or.inl (hset hcalls)

end SyncDialer

end Pump
