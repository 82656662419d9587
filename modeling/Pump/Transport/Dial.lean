import Pump.Once
import Pump.Transport.Dialer

/-! # One callback for a dial

    The steps of a dialer by what they do to its state, and from that: over
    every interleaving of `start`, `stop`, the connect event, the dial timer,
    channel events and handshake callbacks there is at most one of
    `dialed_cb`, `timeouted_cb` and `stopped_cb`. -/

namespace Pump

open TransportState ErrorCode TimerState

/-! ## Section 1: What a step does -/

/-- A terminal state. -/
def TransportState.dial_over : TransportState → Prop
  | state_finished | state_error | state_timeouted | state_stopped => True
  | _ => False

/-- The thread is inside `start`. -/
def DialerPc.in_start : DialerPc → Prop
  | start_state | start_stages _ | start_started | start_stop_timer | start_error
  | start_return _ => True
  | _ => False

/-- The thread may be where a timer has been created. -/
def DialerPc.timer_armed : DialerPc → Prop
  | start_stages _ | timer_started | timer_pending | timeout_state => True
  | _ => False

/-- The callback the thread calls next. -/
def DialerPc.called : DialerPc → List DialerCall
  | .call c => [c]
  | _ => []

theorem DialerPc.called_eq_nil {pc : DialerPc} (h : ∀ c, pc ≠ .call c) : pc.called = [] := by
  unfold called
  split
  · next c => exact absurd rfl (h c)
  · rfl

/-- What `start` returns next. -/
def DialerPc.returned : DialerPc → Option ErrorCode
  | .start_return ec => some ec
  | _ => none

theorem DialerPc.eq_of_returned {pc : DialerPc} {ec : ErrorCode} (h : pc.returned = some ec) :
    pc = .start_return ec := by
  unfold returned at h
  split at h
  · rw [Option.some.inj h]
  · exact absurd h nofun

namespace Dialer

variable {ι : Type} {k : DialerKind} {timeout_ns : Nat}

/-- A compare and exchange of the state that succeeds: who does it, from
    which state to which, and where the thread goes. -/
inductive Move (k : DialerKind) :
    DialerPc → TransportState → TransportState → DialerPc → Prop
  | start_state : Move k .start_state state_none state_starting (.start_stages k.stages)
  | start_started : Move k .start_started state_starting state_started (.start_return error_none)
  | start_error : Move k .start_error state_starting state_error (.start_return error_fault)
  | stop_started : Move k .stop_started state_started state_stopping .stop_timer
  | stop_handshaking : Move k .stop_handshaking state_handshaking state_stopping .stop_post
  | stop_timeouting : Move k .stop_timeouting state_timeouting state_stopping .idle
  | send_starting (success ok : Bool) : Move k (.send_starting success) state_starting
      (action.next_status k success) (action.won k success ok)
  | send_started (success ok : Bool) : Move k (.send_started success) state_started
      (action.next_status k success) (action.won k success ok)
  | send_failed : Move k .send_failed state_handshaking state_error (.call (.dialed_cb false))
  | timeout_state : Move k .timeout_state state_started state_timeouting .timeout_post
  | channel_timeouting :
      Move k .channel_timeouting state_timeouting state_timeouted (.call .timeouted_cb)
  | channel_stopping : Move k .channel_stopping state_stopping state_stopped (.call .stopped_cb)
  | handshaked (success ok : Bool) : Move k (.handshaked success) state_handshaking state_finished
      (.call (.dialed_cb (success && ok)))

section Fields

variable (s : Dialer ι) (expected desired : TransportState) (before after : TimerState)
  (st : DialStage) (ok : Bool)

/-- Only the state changes. -/
theorem set_state_eq : ∃ st, (s.set_state expected desired).2 = { s with state := st } := by
  unfold set_state
  split
  · exact ⟨desired, rfl⟩
  · exact ⟨s.state, rfl⟩

@[simp] theorem set_state_connect_timer :
    (s.set_state expected desired).2.connect_timer = s.connect_timer := by
  obtain ⟨st, hst⟩ := s.set_state_eq expected desired
  rw [hst]

/-- Only the state of the timer changes. -/
theorem set_timer_eq : ∃ t, (s.set_timer before after).2 = { s with connect_timer := t } ∧
    (t.isSome = true → s.connect_timer.isSome = true) := by
  unfold set_timer
  split
  · next h => exact ⟨_, rfl, fun _ => by rw [h]; rfl⟩
  · exact ⟨s.connect_timer, rfl, id⟩

variable (timeout_ns) in
/-- A stage sets up the timer or the tracker. -/
theorem stage_eq : ∃ t tracker, (s.stage timeout_ns st ok).2 =
    { s with connect_timer := t, tracker := tracker } := by
  cases st with
  | open_dial_flow => exact ⟨_, _, rfl⟩
  | start_dial_timer =>
    by_cases h : timeout_ns = 0
    · exact ⟨s.connect_timer, s.tracker, by simp [stage, h]⟩
    · cases ok with
      | true => exact ⟨some timer_state_started, s.tracker, by simp [stage, h]⟩
      | false => exact ⟨some timer_state_none, s.tracker, by simp [stage, h]⟩
  | post_connect => exact ⟨_, _, rfl⟩
  | install_dial_tracker => exact ⟨_, _, rfl⟩

end Fields

/-- The record of the run and the threads, after a step of the thread at `pc`. -/
structure Recorded (s : Dialer ι) (pc : DialerPc) (s' : Dialer ι) : Prop where
  pcs : s'.pcs = s.pcs
  starts : s'.starts = s.starts
  calls : s'.calls = s.calls ++ pc.called
  result : s'.result = pc.returned.or s.result
  timer_ran : s'.timer_ran = (decide (pc = .timeout_state) || s.timer_ran)

variable (k timeout_ns) in
theorem action_recorded (s : Dialer ι) (ok : Bool) (pc : DialerPc) :
    Recorded s pc (s.action k timeout_ns ok pc).2 := by
  have hsame : ∀ s' : Dialer ι, pc.called = [] → pc.returned = none → pc ≠ .timeout_state →
      (∃ st t tracker posted handshaker,
        s' = { s with state := st, connect_timer := t, tracker := tracker, posted := posted,
                      handshaker := handshaker }) → Recorded s pc s' := by
    rintro s' hcalled hreturned htimer ⟨st, t, tracker, posted, handshaker, rfl⟩
    refine ⟨rfl, rfl, ?_, ?_, ?_⟩
    · rw [hcalled, List.append_nil]
    · rw [hreturned, Option.none_or]
    · rw [decide_eq_false htimer, Bool.false_or]
  cases pc with
  | start_stages rest =>
    rcases rest with _ | ⟨st, rest⟩
    · exact hsame _ rfl rfl (by nofun) ⟨_, _, _, _, _, rfl⟩
    · obtain ⟨t, tracker, hstage⟩ := stage_eq timeout_ns s st ok
      exact hsame _ rfl rfl (by nofun) ⟨_, _, _, _, _, hstage⟩
  | timer_started =>
    obtain ⟨t, htimer, -⟩ := s.set_timer_eq timer_state_started timer_state_pending
    exact hsame _ rfl rfl (by nofun) ⟨_, _, _, _, _, htimer⟩
  | timer_pending =>
    obtain ⟨t, htimer, -⟩ := s.set_timer_eq timer_state_pending timer_state_finished
    exact hsame _ rfl rfl (by nofun) ⟨_, _, _, _, _, htimer⟩
  | send_handshaker =>
    cases ok with
    | true => exact hsame _ rfl rfl (by nofun) ⟨_, _, _, _, _, rfl⟩
    | false => exact hsame _ rfl rfl (by nofun) ⟨_, _, _, _, _, rfl⟩
  | start_state | start_started | start_error | stop_started | stop_handshaking | stop_timeouting
  | send_starting | send_started | send_failed | channel_timeouting | channel_stopping
  | handshaked =>
    obtain ⟨st, hst⟩ := s.set_state_eq _ _
    exact hsame _ rfl rfl (by nofun) ⟨st, _, _, _, _, hst⟩
  | timeout_state =>
    obtain ⟨st, hst⟩ := s.set_state_eq state_started state_timeouting
    simp only [action, hst]
    exact ⟨rfl, rfl, (List.append_nil _).symm, rfl, rfl⟩
  | start_return ec => exact ⟨rfl, rfl, (List.append_nil _).symm, rfl, rfl⟩
  | call c => exact ⟨rfl, rfl, rfl, rfl, rfl⟩
  | _ => exact hsame _ rfl rfl (by nofun) ⟨_, _, _, _, _, rfl⟩

/-- What the thread at `pc` does to the state and where it goes: it leaves
    the state alone and brings no callback due, or is one of the moves. -/
def StateEffect (k : DialerKind) (s : Dialer ι) (pc : DialerPc) (r : DialerPc × Dialer ι) : Prop :=
  (r.2.state = s.state ∧ ∀ c, r.1 ≠ .call c) ∨ Move k pc s.state r.2.state r.1

theorem set_state_effect {pc won lost : DialerPc} {expected desired : TransportState}
    (hmove : Move k pc expected desired won) (hlost : ∀ c, lost ≠ .call c) (s : Dialer ι) :
    StateEffect k s pc (if (s.set_state expected desired).1 then won else lost,
      (s.set_state expected desired).2) := by
  unfold set_state
  by_cases h : s.state = expected
  · right
    rw [if_pos h]
    show Move k pc s.state desired won
    rw [h]
    exact hmove
  · left
    rw [if_neg h]
    exact ⟨rfl, hlost⟩

/-- The same for a step that does not look at the result. -/
theorem set_state_effect' {pc pc' : DialerPc} {expected desired : TransportState}
    (hmove : Move k pc expected desired pc') (hpc' : ∀ c, pc' ≠ .call c) (s : Dialer ι) :
    StateEffect k s pc (pc', (s.set_state expected desired).2) := by
  have h := set_state_effect hmove hpc' s
  rwa [ite_self] at h

theorem stage_effect (s : Dialer ι) (st : DialStage) (rest : List DialStage) (ok : Bool) :
    StateEffect k s (.start_stages (st :: rest))
      (s.action k timeout_ns ok (.start_stages (st :: rest))) := by
  left
  obtain ⟨t, tracker, hstage⟩ := stage_eq timeout_ns s st ok
  refine ⟨?_, ?_⟩
  · show (s.stage timeout_ns st ok).2.state = s.state
    rw [hstage]
  · intro c
    show (if (s.stage timeout_ns st ok).1 then DialerPc.start_stages rest
      else .start_stop_timer) ≠ .call c
    split <;> nofun

theorem set_timer_effect {pc won lost : DialerPc} {expected desired : TimerState}
    (hwon : ∀ c, won ≠ .call c) (hlost : ∀ c, lost ≠ .call c) (s : Dialer ι) :
    StateEffect k s pc (if (s.set_timer expected desired).1 then won else lost,
      (s.set_timer expected desired).2) := by
  left
  unfold set_timer
  split
  · exact ⟨rfl, hwon⟩
  · exact ⟨rfl, hlost⟩

variable (timeout_ns) in
/-- **The state.** Every step has such an effect. -/
theorem action_state (s : Dialer ι) (ok : Bool) (pc : DialerPc) :
    StateEffect k s pc (s.action k timeout_ns ok pc) := by
  have hquiet : ∀ (pc' : DialerPc) (s' : Dialer ι), s'.state = s.state → (∀ c, pc' ≠ .call c) →
      StateEffect k s pc (pc', s') := fun _ _ hs hpc => Or.inl ⟨hs, hpc⟩
  -- the steps that may set the state say which callback they make due
  cases pc with
  | idle => exact hquiet _ _ rfl nofun
  | start_state => exact set_state_effect .start_state (by nofun) s
  | start_stages rest =>
    rcases rest with _ | ⟨st, rest⟩
    · exact hquiet _ _ rfl nofun
    · exact stage_effect s st rest ok
  | start_started => exact set_state_effect .start_started (by nofun) s
  | start_stop_timer => exact hquiet _ _ rfl nofun
  | start_error => exact set_state_effect' .start_error (by nofun) s
  | start_return ec => exact hquiet _ _ rfl nofun
  | stop_started =>
    cases k with
    | tcp => exact set_state_effect .stop_started (by nofun) s
    | tls => exact set_state_effect .stop_started (by nofun) s
  | stop_timer => exact hquiet _ _ rfl nofun
  | stop_post => exact hquiet _ _ rfl nofun
  | stop_handshaking => exact set_state_effect .stop_handshaking (by nofun) s
  | stop_timeouting => exact set_state_effect' .stop_timeouting (by nofun) s
  | send_stop_timer => exact hquiet _ _ rfl nofun
  | send_uninstall => exact hquiet _ _ rfl nofun
  | send_connect => exact hquiet _ _ rfl nofun
  | send_starting success => exact set_state_effect (.send_starting success ok) (by nofun) s
  | send_started success => exact set_state_effect (.send_started success ok) (by nofun) s
  | send_handshaker =>
    cases ok with
    | true => exact hquiet _ _ rfl nofun
    | false => exact hquiet _ _ rfl nofun
  | send_handshaker_start =>
    cases ok with
    | true => exact hquiet _ _ rfl nofun
    | false => exact hquiet _ _ rfl nofun
  | send_failed => exact set_state_effect .send_failed (by nofun) s
  | timer_started => exact set_timer_effect (by nofun) (by nofun) s
  | timer_pending => exact set_timer_effect (by nofun) (by nofun) s
  | timeout_state => exact set_state_effect .timeout_state (by nofun) s
  | timeout_post => exact hquiet _ _ rfl nofun
  | channel_timeouting => exact set_state_effect .channel_timeouting (by nofun) s
  | channel_stopping => exact set_state_effect .channel_stopping (by nofun) s
  | handshaked success => exact set_state_effect (.handshaked success ok) (by nofun) s
  | call c => exact hquiet _ _ rfl nofun

variable [DecidableEq ι]

/-- A step in which the idle thread `i` enters a function of the dialer. -/
structure Entered (s : Dialer ι) (l : DialerLabel ι) (i : ι) (pc : DialerPc) (s' : Dialer ι) :
    Prop where
  idle : s.pcs i = .idle
  pcs : s'.pcs = Function.update s.pcs i pc
  state : s'.state = s.state
  calls : s'.calls = s.calls
  result : s'.result = s.result
  timer_ran : s'.timer_ran = s.timer_ran
  connect_timer : s'.connect_timer = s.connect_timer
  no_call : ∀ c, pc ≠ .call c
  start : pc.in_start → (∃ sv cbs xcred, l = .start i sv cbs xcred) ∧
    s'.starts = s.starts + 1 ∧ (pc = .start_state ∨ pc = .start_return error_invalid)
  no_start : ¬ pc.in_start → s'.starts = s.starts
  timer : pc.timer_armed → s.connect_timer.isSome = true

theorem Entered.self {s s' : Dialer ι} {l : DialerLabel ι} {i : ι} {pc : DialerPc}
    (he : Entered s l i pc s') : s'.pcs i = pc := by
  rw [he.pcs, Function.update_self]

theorem Entered.other {s s' : Dialer ι} {l : DialerLabel ι} {i j : ι} {pc : DialerPc}
    (he : Entered s l i pc s') (hj : j ≠ i) : s'.pcs j = s.pcs j := by
  rw [he.pcs, Function.update_of_ne hj]

theorem enter_eq {s s' : Dialer ι} {i : ι} {pc : DialerPc} (h : s.enter i pc = some s') :
    s.pcs i = .idle ∧ s' = s.goto i pc := by
  unfold enter at h
  split at h
  · next hidle =>
    cases h
    exact ⟨hidle, rfl⟩
  · cases h

/-- A function other than `start` is entered. -/
theorem entered_of_enter {s s' : Dialer ι} {i : ι} (l : DialerLabel ι) (pc : DialerPc) (posted : Nat)
    (h : ({ s with posted := posted } : Dialer ι).enter i pc = some s') (hcall : ∀ c, pc ≠ .call c)
    (hstart : ¬ pc.in_start) (htimer : pc.timer_armed → s.connect_timer.isSome = true) :
    Entered s l i pc s' := by
  obtain ⟨hidle, rfl⟩ := enter_eq h
  exact ⟨hidle, rfl, rfl, rfl, rfl, rfl, rfl, hcall, fun hin => absurd hin hstart, fun _ => rfl,
    htimer⟩

/-- **Steps.** A thread enters a function or takes its next step. -/
theorem step_cases {s s' : Dialer ι} {l : DialerLabel ι} (h : step k timeout_ns s l = some s') :
    (∃ i pc, Entered s l i pc s') ∨
      ∃ i ok, l = .step i ok ∧ s' = (s.action k timeout_ns ok (s.pcs i)).2.goto i
        (s.action k timeout_ns ok (s.pcs i)).1 := by
  cases l with
  | start i sv cbs xcred =>
    left
    obtain ⟨pc, hpc⟩ : ∃ pc, pc = if sv && cbs && (k = .tcp || xcred) then DialerPc.start_state
      else .start_return error_invalid := ⟨_, rfl⟩
    have hcases : pc = .start_state ∨ pc = .start_return error_invalid := by
      rw [hpc]
      split
      · exact Or.inl rfl
      · exact Or.inr rfl
    simp only [step, ← hpc] at h
    obtain ⟨hidle, rfl⟩ := enter_eq h
    have hin : pc.in_start := by
      rcases hcases with rfl | rfl
      · trivial
      · trivial
    refine ⟨i, pc, hidle, rfl, rfl, rfl, rfl, rfl, rfl, ?_, fun _ => ⟨⟨sv, cbs, xcred, rfl⟩, rfl, hcases⟩,
      fun hno => absurd hin hno, ?_⟩
    · rcases hcases with rfl | rfl
      · nofun
      · nofun
    · rcases hcases with rfl | rfl
      · exact fun h => h.elim
      · exact fun h => h.elim
  | stop i =>
    exact Or.inl ⟨i, _, entered_of_enter _ .stop_started s.posted h (by nofun) id
      fun h => h.elim⟩
  | send_event i =>
    simp only [step] at h
    split at h
    · exact Or.inl ⟨i, _, entered_of_enter _ .send_stop_timer s.posted h (by nofun) id
        fun h => h.elim⟩
    · cases h
  | timeout i =>
    simp only [step] at h
    split at h
    · next htimer =>
      exact Or.inl ⟨i, _, entered_of_enter _ .timer_started s.posted h (by nofun) id
        fun _ => htimer⟩
    · cases h
  | channel_event i =>
    simp only [step] at h
    split at h
    · exact Or.inl ⟨i, _, entered_of_enter _ .channel_timeouting (s.posted - 1) h (by nofun) id
        fun h => h.elim⟩
    · cases h
  | handshake i success =>
    simp only [step] at h
    split at h
    · exact Or.inl ⟨i, _, entered_of_enter _ (.handshaked success) s.posted h (by nofun) id
        fun h => h.elim⟩
    · cases h
  | step i ok =>
    right
    cases h
    exact ⟨i, ok, rfl, rfl⟩

omit [DecidableEq ι] in
/-- A thread inside `start` has come through `start`, which it has not left. -/
theorem action_in_start (s : Dialer ι) (ok : Bool) (pc : DialerPc)
    (h : (s.action k timeout_ns ok pc).1.in_start) : pc.in_start ∧ pc.returned = none := by
  cases pc with
  | start_state | start_stages | start_started | start_stop_timer | start_error =>
    exact ⟨trivial, rfl⟩
  | send_starting success | send_started success =>
    simp only [action, action.won] at h
    cases k <;> cases success <;> split at h <;> exact h.elim
  | stop_started =>
    simp only [action] at h
    cases k <;> split at h <;> exact h.elim
  | stop_handshaking | send_failed | timer_started | timer_pending | timeout_state
  | channel_timeouting | channel_stopping | handshaked | send_handshaker
  | send_handshaker_start =>
    simp only [action] at h
    split at h <;> exact h.elim
  | _ => exact h.elim

omit [DecidableEq ι] in
theorem won_unarmed (success ok : Bool) : ¬ (action.won k success ok).timer_armed := by
  cases k <;> cases success <;> exact id

omit [DecidableEq ι] in
/-- Where a timer is or may have been created. -/
theorem action_timer (s : Dialer ι) (ok : Bool) (pc : DialerPc) :
    ((s.action k timeout_ns ok pc).2.connect_timer.isSome = true →
      s.connect_timer.isSome = true ∨ pc.timer_armed) ∧
    ((s.action k timeout_ns ok pc).1.timer_armed →
      pc.timer_armed ∨ (s.action k timeout_ns ok pc).2.state ≠ state_none) := by
  cases pc with
  | start_stages | timer_started | timer_pending | timeout_state =>
    exact ⟨fun _ => Or.inr trivial, fun _ => Or.inl trivial⟩
  | start_state =>
    refine ⟨fun h => Or.inl ?_, fun h => Or.inr ?_⟩
    · simp only [action, set_state_connect_timer] at h
      exact h
    · simp only [action, set_state] at h ⊢
      split at h
      · next hnone =>
        rw [if_pos hnone]
        nofun
      · exact h.elim
  | start_error | stop_timeouting =>
    refine ⟨fun h => Or.inl ?_, fun h => h.elim⟩
    simp only [action, set_state_connect_timer] at h
    exact h
  | start_started | stop_handshaking | send_failed | channel_timeouting | channel_stopping
  | handshaked =>
    refine ⟨fun h => Or.inl ?_, fun h => ?_⟩
    · simp only [action, set_state_connect_timer] at h
      exact h
    · simp only [action] at h
      split at h <;> exact h.elim
  | stop_started =>
    refine ⟨fun h => Or.inl ?_, fun h => ?_⟩
    · simp only [action, set_state_connect_timer] at h
      exact h
    · simp only [action] at h
      cases k <;> split at h <;> exact h.elim
  | send_starting success | send_started success =>
    refine ⟨fun h => Or.inl ?_, fun h => ?_⟩
    · simp only [action, set_state_connect_timer] at h
      exact h
    · simp only [action] at h
      split at h
      · exact absurd h (won_unarmed success ok)
      · exact h.elim
  | start_stop_timer | send_stop_timer | stop_timer =>
    refine ⟨fun h => Or.inl ?_, fun h => h.elim⟩
    simp only [action, stop_dial_timer, Option.isSome_map] at h
    exact h
  | send_handshaker | send_handshaker_start =>
    cases ok with
    | true => exact ⟨Or.inl, fun h => h.elim⟩
    | false => exact ⟨Or.inl, fun h => h.elim⟩
  | _ => exact ⟨Or.inl, fun h => h.elim⟩

omit [DecidableEq ι] in
/-- `start` returns `error_none` where it has set `state_started`. -/
theorem action_succeeds (s : Dialer ι) (ok : Bool) (pc : DialerPc)
    (h : (s.action k timeout_ns ok pc).1 = .start_return error_none) :
    (s.action k timeout_ns ok pc).2.state = state_started := by
  cases pc with
  | start_started =>
    simp only [action, set_state] at h ⊢
    split at h
    · next hst => rw [if_pos hst]
    · cases h
  | start_stages rest =>
    rcases rest with _ | ⟨st, rest⟩
    · cases h
    · simp only [action] at h
      split at h <;> cases h
  | send_starting success | send_started success =>
    simp only [action, action.won] at h
    cases k <;> cases success <;> split at h <;> cases h
  | stop_started =>
    simp only [action] at h
    cases k <;> split at h <;> cases h
  | start_state | stop_handshaking | send_failed | timer_started | timer_pending | timeout_state
  | channel_timeouting | channel_stopping | handshaked | send_handshaker
  | send_handshaker_start =>
    simp only [action] at h
    split at h <;> cases h
  | _ => cases h

/-- A step of the thread `i`, which goes to `pc`. -/
structure Stepped (k : DialerKind) (s : Dialer ι) (i : ι) (pc : DialerPc) (s' : Dialer ι) :
    Prop where
  starts : s'.starts = s.starts
  calls : s'.calls = s.calls ++ (s.pcs i).called
  result : s'.result = (s.pcs i).returned.or s.result
  timer_ran : s'.timer_ran = (decide (s.pcs i = .timeout_state) || s.timer_ran)
  self : s'.pcs i = pc
  other : ∀ j, j ≠ i → s'.pcs j = s.pcs j
  state : (s'.state = s.state ∧ ∀ c, pc ≠ .call c) ∨ Move k (s.pcs i) s.state s'.state pc
  in_start : pc.in_start → (s.pcs i).in_start ∧ (s.pcs i).returned = none
  timer : s'.connect_timer.isSome = true → s.connect_timer.isSome = true ∨ (s.pcs i).timer_armed
  armed : pc.timer_armed → (s.pcs i).timer_armed ∨ s'.state ≠ state_none
  timeout : s.pcs i = .timeout_state → s'.state ≠ state_started
  succeeds : pc = .start_return error_none → s'.state = state_started

/-- The next step of a thread is such a step. -/
theorem stepped (s : Dialer ι) (i : ι) (ok : Bool) :
    Stepped k s i (s.action k timeout_ns ok (s.pcs i)).1
      ((s.action k timeout_ns ok (s.pcs i)).2.goto i (s.action k timeout_ns ok (s.pcs i)).1) := by
  have hrec := action_recorded k timeout_ns s ok (s.pcs i)
  refine ⟨hrec.starts, hrec.calls, hrec.result, hrec.timer_ran, ?_, ?_,
    action_state timeout_ns s ok (s.pcs i), action_in_start s ok (s.pcs i),
    (action_timer s ok (s.pcs i)).1, (action_timer s ok (s.pcs i)).2, ?_,
    action_succeeds s ok (s.pcs i)⟩
  · show Function.update _ i _ i = _
    rw [Function.update_self]
  · intro j hj
    show Function.update _ i _ j = _
    rw [Function.update_of_ne hj, hrec.pcs]
  · intro htimeout
    show (s.action k timeout_ns ok (s.pcs i)).2.state ≠ _
    rw [htimeout]
    simp only [action, set_state]
    split
    · nofun
    · next hne => exact hne

/-- **Steps.** A thread enters a function or takes its next step. -/
theorem step_effect {s s' : Dialer ι} {l : DialerLabel ι} (h : step k timeout_ns s l = some s') :
    (∃ i pc, Entered s l i pc s') ∨ ∃ i ok pc, l = .step i ok ∧ Stepped k s i pc s' := by
  rcases step_cases h with he | ⟨i, ok, hl, rfl⟩
  · exact Or.inl he
  · exact Or.inr ⟨i, ok, _, hl, stepped s i ok⟩

/-! ## Section 2: One callback at most -/

/-- No callback, one that is due, or one that was called; the latter two in
    a terminal state. -/
structure OneCall (s : Dialer ι) : Prop where
  due : ∀ i c, s.pcs i = .call c → s.calls = [] ∧ s.state.dial_over
  unique : ∀ i j c d, s.pcs i = .call c → s.pcs j = .call d → i = j
  called : s.calls ≠ [] → s.calls.length = 1 ∧ s.state.dial_over

omit [DecidableEq ι] in
theorem oneCall_new : OneCall (new : Dialer ι) :=
  ⟨fun _ _ => nofun, fun _ _ _ _ => nofun, fun h => absurd rfl h⟩

/-- No move leaves a terminal state, and one that brings a callback due leads
    to one. -/
theorem Move.over {pc pc' : DialerPc} {st st' : TransportState} (h : Move k pc st st' pc') :
    ¬ st.dial_over ∧ (∀ c, pc ≠ .call c) ∧ ((∃ c, pc' = .call c) → st'.dial_over) := by
  cases h with
  | start_state | start_started | start_error | stop_started | stop_handshaking | stop_timeouting
  | timeout_state => exact ⟨id, fun _ => nofun, fun ⟨_, h⟩ => by cases h⟩
  | send_starting success ok =>
    refine ⟨id, fun _ => nofun, ?_⟩
    rintro ⟨c, hc⟩
    cases k <;> cases success <;> trivial
  | send_started success ok =>
    refine ⟨id, fun _ => nofun, ?_⟩
    rintro ⟨c, hc⟩
    cases k <;> cases success <;> trivial
  | send_failed | channel_timeouting | channel_stopping | handshaked =>
    exact ⟨id, fun _ => nofun, fun _ => trivial⟩

omit [DecidableEq ι] in
theorem oneCall_iff {s : Dialer ι} :
    OneCall s ↔ Once (fun i => ∃ c, s.pcs i = .call c) s.calls.length s.state.dial_over := by
  constructor
  · intro h
    refine ⟨?_, ?_, ?_⟩
    · rintro i ⟨c, hc⟩
      obtain ⟨hnone, hover⟩ := h.due i c hc
      exact ⟨List.length_eq_zero_iff.mpr hnone, hover⟩
    · rintro i j ⟨c, hc⟩ ⟨d, hd⟩
      exact h.unique i j c d hc hd
    · intro hmade
      exact h.called fun hnone => hmade (List.length_eq_zero_iff.mpr hnone)
  · intro h
    refine ⟨?_, ?_, ?_⟩
    · intro i c hc
      obtain ⟨hnone, hover⟩ := h.due_ended i ⟨c, hc⟩
      exact ⟨List.length_eq_zero_iff.mp hnone, hover⟩
    · intro i j c d hc hd
      exact h.unique i j ⟨c, hc⟩ ⟨d, hd⟩
    · intro hcalls
      exact h.made_ended fun hzero => hcalls (List.length_eq_zero_iff.mp hzero)

theorem oneCall_step {s s' : Dialer ι} {l : DialerLabel ι} (hinv : OneCall s)
    (h : step k timeout_ns s l = some s') : OneCall s' := by
  rw [oneCall_iff] at hinv ⊢
  rcases step_effect h with ⟨i, pc, he⟩ | ⟨i, ok, pc, -, hs⟩
  · -- the callbacks that are due are those of before
    rw [he.calls, he.state]
    apply hinv.aside (i := i)
    · rintro ⟨c, hc⟩
      rw [he.self] at hc
      exact he.no_call c hc
    · intro j hji hj
      rwa [he.other hji] at hj
    · exact id
  · have hother : ∀ j, j ≠ i → (∃ c, s'.pcs j = .call c) → ∃ c, s.pcs j = .call c := by
      intro j hji hj
      rwa [hs.other j hji] at hj
    by_cases hcall : ∃ c, s.pcs i = .call c
    · -- the callback is called
      obtain ⟨c, hc⟩ := hcall
      have hquiet : s'.state = s.state ∧ ∀ c, pc ≠ .call c := by
        rcases hs.state with hq | hm
        · exact hq
        · exact absurd hc (hm.over.2.1 c)
      have hmade : s'.calls.length = s.calls.length + 1 := by
        rw [hs.calls, hc, List.length_append]
        rfl
      rw [hmade, hquiet.1]
      apply hinv.call ⟨c, hc⟩ _ hother
      rintro ⟨d, hd⟩
      rw [hs.self] at hd
      exact hquiet.2 d hd
    · have hsame : s'.calls = s.calls := by
        rw [hs.calls, DialerPc.called_eq_nil fun c hc => hcall ⟨c, hc⟩, List.append_nil]
      rw [hsame]
      rcases hs.state with ⟨hst, hquiet⟩ | hm
      · -- nothing changes
        rw [hst]
        apply hinv.aside _ hother id
        rintro ⟨c, hc⟩
        rw [hs.self] at hc
        exact hquiet c hc
      · -- the state was not terminal, so no callback was due or called
        obtain ⟨hnot, -, hwin⟩ := hm.over
        by_cases hdue : ∃ c, pc = .call c
        · exact hinv.win hnot (hwin hdue) hother
        · apply hinv.aside _ hother fun hover => absurd hover hnot
          rw [hs.self]
          exact hdue

theorem oneCall_reachable {ok : Dialer ι → DialerLabel ι → Prop} {s : Dialer ι}
    (h : Reachable (step k timeout_ns) ok new s) : OneCall s :=
  h.invariant oneCall_new fun _ _ _ hinv _ hs => oneCall_step hinv hs

/-- **At most one callback.** -/
theorem calls_length_le_one {s : Dialer ι} (h : Reachable (step k timeout_ns) AnyStep new s) :
    s.calls.length ≤ 1 := by
  by_cases hcalls : s.calls = []
  · rw [hcalls]
    exact Nat.zero_le 1
  · exact ((oneCall_reachable h).called hcalls).1.le

/-- Thread 0 starts a `tcp_dialer`, the connect event follows in thread 1. -/
def dials : List (DialerLabel (Fin 2)) :=
  [DialerLabel.start 0 true true true] ++ List.replicate 8 (DialerLabel.step 0 true) ++
    [DialerLabel.send_event 1] ++ List.replicate 6 (DialerLabel.step 1 true)

theorem calls_length_le_one_dials : ∃ s : Dialer (Fin 2), exec (step .tcp 1000) new dials = some s ∧
    s.calls = [.dialed_cb true] ∧ s.calls.length ≤ 1 := by
  obtain ⟨s, hexec, hcalls⟩ : ∃ s : Dialer (Fin 2), exec (step .tcp 1000) new dials = some s ∧
      s.calls = [.dialed_cb true] := ⟨_, rfl, rfl⟩
  exact ⟨s, hexec, hcalls, calls_length_le_one (.of_exec hexec (meets_anyStep _ _ _))⟩

end Dialer

end Pump
