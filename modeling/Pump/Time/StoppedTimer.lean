import Pump.Time.Firing

/-! # A stopped timer

    `stop` stores the state and waits for nobody. No exchange leaves that
    state, so the timer is neither started nor handled any more; but the worker
    may have made its last exchange already, and then it calls back once. -/

namespace Pump

open TimerState

variable {ι τ : Type} [DecidableEq τ]

namespace TimeoutPc

/-- The worker has made the last exchange before it calls `t` back. -/
def passed (t : τ) : TimeoutPc τ → ℕ
  | .restart_enqueue t' _ | .call t' _ => if t' = t then 1 else 0
  | _ => 0

/-- The call that the worker makes in a callback. -/
def inner : TimeoutPc τ → TimerCall τ
  | .callback _ _ c => c
  | _ => .idle

end TimeoutPc

namespace Engine

/-! ## Section 1: The state is not left -/

/-- `t` is stopped, and with the callback that the worker is about to invoke
    it is called back `n` times at most. -/
def Halted (t : τ) (n : ℕ) (s : Engine ι τ) : Prop :=
  s.state t = timer_state_stopped ∧ s.events.count (.called t) + s.worker.passed t ≤ n

/-- A call of `start_timer` or `stop` finds a stopped timer, and leaves it. -/
theorem CallEffect.halted {s : Engine ι τ} {c : TimerCall τ} {r : TimerCall τ × Engine ι τ}
    {t : τ} (h : CallEffect s c r) (hstate : s.state t = timer_state_stopped) :
    r.2.state t = timer_state_stopped ∧ r.2.events.count (.called t) = s.events.count (.called t) := by
  cases h with
  | quiet _ _ _ _ _ _ => exact ⟨hstate, rfl⟩
  | start t' hroom =>
    have hne : t ≠ t' := by
      intro heq
      rw [← heq, hstate] at hroom
      cases hroom
    refine ⟨?_, ?_⟩
    · show Function.update s.state t' _ t = _
      rw [Function.update_of_ne hne]
      exact hstate
    · show (s.events ++ [_]).count _ = _
      rw [List.count_append]
      rfl
  | enqueue t' => exact ⟨hstate, rfl⟩
  | stop t' =>
    refine ⟨?_, rfl⟩
    show Function.update s.state t' timer_state_stopped t = timer_state_stopped
    by_cases heq : t = t'
    · rw [heq, Function.update_self]
    · rw [Function.update_of_ne heq]
      exact hstate
  | stopped t' =>
    refine ⟨hstate, ?_⟩
    show (s.events ++ [_]).count _ = _
    rw [List.count_append]
    rfl

/-- An exchange of another state than the stopped one leaves a stopped timer,
    and fails where the timer is the one it is about. -/
theorem set_state_halted {s : Engine ι τ} {t : τ} (t' : τ) {expected : TimerState}
    (desired : TimerState) (hstate : s.state t = timer_state_stopped)
    (hne : expected ≠ timer_state_stopped) :
    (s.set_state t' expected desired).2.state t = timer_state_stopped ∧
      ((s.set_state t' expected desired).1 = true → t' ≠ t) := by
  unfold set_state
  by_cases hst : s.state t' = expected
  · -- the exchange succeeds, so it is about another timer
    have htt : t' ≠ t := by
      intro heq
      rw [heq, hstate] at hst
      exact hne hst.symm
    simp only [if_pos hst]
    refine ⟨?_, fun _ => htt⟩
    rw [Function.update_of_ne htt.symm]
    exact hstate
  · simp only [if_neg hst]
    refine ⟨hstate, ?_⟩
    intro h
    cases h

theorem set_state_events (s : Engine ι τ) (t : τ) (expected desired : TimerState) :
    (s.set_state t expected desired).2.events = s.events := by
  unfold set_state
  split
  · rfl
  · rfl

/-- The worker calls a stopped timer back only where it has made its last
    exchange. -/
theorem worker_halted {s : Engine ι τ} {t : τ} (ok : Bool) (hsound : s.worker.Sound s.repeated)
    (hstate : s.state t = timer_state_stopped) :
    (s.worker_step ok s.worker).2.state t = timer_state_stopped ∧
      (s.worker_step ok s.worker).2.events.count (.called t) +
          (s.worker_step ok s.worker).1.passed t ≤
        s.events.count (.called t) + s.worker.passed t := by
  cases hworker : s.worker with
  | dequeue =>
    simp only [worker_step]
    split
    · exact ⟨hstate, le_refl _⟩
    · exact ⟨hstate, le_refl _⟩
  | lock l =>
    cases l with
    | nil => exact ⟨hstate, le_refl _⟩
    | cons t' rest =>
      refine ⟨hstate, ?_⟩
      cases ok with
      | true => exact le_refl _
      | false => exact le_refl _
  | set_pending t' rest =>
    -- this is not the last exchange, so nothing is passed by it
    have hset := set_state_halted t' timer_state_pending hstate
      (show timer_state_started ≠ timer_state_stopped by decide)
    refine ⟨hset.1, ?_⟩
    simp only [worker_step]
    rw [set_state_events]
    split
    · split
      · exact le_refl _
      · exact le_refl _
    · exact le_refl _
  | restart_check t' rest =>
    refine ⟨hstate, ?_⟩
    simp only [worker_step]
    split
    · exact le_refl _
    · exact le_refl _
  | restart_exchange t' rest =>
    have hset := set_state_halted t' timer_state_started hstate
      (show timer_state_pending ≠ timer_state_stopped by decide)
    refine ⟨hset.1, ?_⟩
    simp only [worker_step]
    rw [set_state_events]
    split
    · next htrue =>
      simp only [TimeoutPc.passed, if_neg (hset.2 htrue)]
      exact le_refl _
    · exact le_refl _
  | restart_enqueue t' rest => exact ⟨hstate, le_refl _⟩
  | set_finished t' rest =>
    have hset := set_state_halted t' timer_state_finished hstate
      (show timer_state_pending ≠ timer_state_stopped by decide)
    refine ⟨hset.1, ?_⟩
    simp only [worker_step]
    rw [set_state_events]
    split
    · next htrue =>
      simp only [TimeoutPc.passed, if_neg (hset.2 htrue)]
      exact le_refl _
    · exact le_refl _
  | call t' rest =>
    -- the invocation was counted where the last exchange was made
    refine ⟨hstate, ?_⟩
    show (s.events ++ [_]).count _ + 0 ≤ _
    rw [List.count_append, List.count_singleton]
    simp only [beq_iff_eq, TimerEvent.called.injEq, TimeoutPc.passed]
    exact le_refl _
  | callback t' rest c =>
    -- a callback may call `start` and `stop` as a thread of the user does
    rw [hworker] at hsound
    have hhalted := (call_effect s c hsound).halted hstate
    cases c with
    | idle => exact ⟨hstate, le_refl _⟩
    | _ => exact ⟨hhalted.1, hhalted.2.le⟩

omit [DecidableEq τ] in
/-- The observer leaves the states of the timers alone, and calls nobody. -/
theorem observer_halted [DecidableEq τ] (s : Engine ι τ) (now later : Nat) (ok : Bool) (t : τ) :
    (s.observer_step now later ok s.observer).2.state = s.state ∧
      (s.observer_step now later ok s.observer).2.events.count (.called t) =
        s.events.count (.called t) ∧
      ∀ t', TimerEvent.stopped t' ∈ (s.observer_step now later ok s.observer).2.events →
        TimerEvent.stopped t' ∈ s.events := by
  cases hobs : s.observer with
  | check =>
    simp only [observer_step]
    split
    · refine ⟨rfl, ?_, ?_⟩
      · rw [List.count_append, count_expired_ne _ (by simp), Nat.add_zero]
      · intro t' hmem
        simpa using hmem
    · exact ⟨rfl, rfl, fun _ h => h⟩
  | dequeue tl =>
    simp only [observer_step]
    split
    · exact ⟨rfl, rfl, fun _ h => h⟩
    · exact ⟨rfl, rfl, fun _ h => h⟩
  | drain tl now' left =>
    simp only [observer_step]
    split
    · exact ⟨rfl, rfl, fun _ h => h⟩
    · exact ⟨rfl, rfl, fun _ h => h⟩
  | _ => exact ⟨rfl, rfl, fun _ h => h⟩

variable [DecidableEq ι]

/-- **Step lemma.** A stopped timer stays stopped, and no step brings the
    worker to a callback of it. -/
theorem step_halted {s s' : Engine ι τ} {l : EngineLabel ι τ} {t : τ} {n : ℕ} (h : FiringInv s)
    (hhalted : s.Halted t n) (hs : s.step l = some s') : s'.Halted t n := by
  obtain ⟨hstate, hcount⟩ := hhalted
  cases l with
  | start_timer i t' =>
    simp only [step] at hs
    split at hs
    · cases hs
      exact ⟨hstate, hcount⟩
    · cases hs
  | stop i t' =>
    simp only [step] at hs
    split at hs
    · cases hs
      exact ⟨hstate, hcount⟩
    · cases hs
  | step i =>
    cases hs
    have heffect := call_effect s (s.calls i) (h.calls i)
    have hcall := heffect.halted hstate
    refine ⟨hcall.1, ?_⟩
    show (s.call_step (s.calls i)).2.events.count _ +
      (s.call_step (s.calls i)).2.worker.passed t ≤ n
    rw [hcall.2, heffect.same.2.2.1]
    exact hcount
  | observer now later ok =>
    cases hs
    have hobs := observer_halted s now later ok t
    have hsame := observer_same s now later ok s.observer
    refine ⟨?_, ?_⟩
    · show (s.observer_step now later ok s.observer).2.state t = _
      rw [hobs.1]
      exact hstate
    · show (s.observer_step now later ok s.observer).2.events.count _ +
        (s.observer_step now later ok s.observer).2.worker.passed t ≤ n
      rw [hobs.2.1, hsame.2.1]
      exact hcount
  | worker ok =>
    cases hs
    have hworker := worker_halted ok h.worker hstate
    exact ⟨hworker.1, hworker.2.trans hcount⟩
  | worker_start t' =>
    -- only an idle callback is entered
    simp only [step, worker_enter] at hs
    split at hs
    · next hworker =>
      cases hs
      rw [hworker] at hcount
      exact ⟨hstate, hcount⟩
    · cases hs
  | worker_stop t' =>
    simp only [step, worker_enter] at hs
    split at hs
    · next hworker =>
      cases hs
      rw [hworker] at hcount
      exact ⟨hstate, hcount⟩
    · cases hs
  | engine_stop =>
    cases hs
    exact ⟨hstate, hcount⟩

/-! ## Section 2: After a stop -/

/-- Where `stop` has stored the state, or has returned, the timer is stopped. -/
structure StopInv (s : Engine ι τ) : Prop where
  calls : ∀ i t, s.calls i = .stop_return t → s.state t = timer_state_stopped
  worker : ∀ t, s.worker.inner = .stop_return t → s.state t = timer_state_stopped
  events : ∀ t, .stopped t ∈ s.events → s.state t = timer_state_stopped

omit [DecidableEq ι] in
/-- A call of `stop` stores the state before it returns. -/
theorem CallEffect.stops {s : Engine ι τ} {c : TimerCall τ} {r : TimerCall τ × Engine ι τ}
    (h : CallEffect s c r) (hc : ∀ t, c = .stop_return t → s.state t = timer_state_stopped)
    (t : τ) : (r.1 = .stop_return t → r.2.state t = timer_state_stopped) ∧
      (.stopped t ∈ r.2.events → .stopped t ∈ s.events ∨ s.state t = timer_state_stopped) := by
  cases h with
  | quiet _ c' _ _ _ hne => exact ⟨fun h => absurd h (hne t), Or.inl⟩
  | start t' _ =>
    refine ⟨nofun, ?_⟩
    intro hmem
    rcases List.mem_append.mp hmem with hmem | hmem
    · exact .inl hmem
    · cases List.mem_singleton.mp hmem
  | enqueue t' => exact ⟨nofun, Or.inl⟩
  | stop t' =>
    refine ⟨?_, Or.inl⟩
    intro h
    cases h
    exact Function.update_self _ _ _
  | stopped t' =>
    refine ⟨nofun, ?_⟩
    intro hmem
    rcases List.mem_append.mp hmem with hmem | hmem
    · exact .inl hmem
    · cases List.mem_singleton.mp hmem
      exact .inr (hc t rfl)

omit [DecidableEq ι] in
/-- The worker records no return of `stop` but in a callback. -/
theorem worker_stops {s : Engine ι τ} (ok : Bool) (hsound : s.worker.Sound s.repeated)
    (hinv : StopInv s) (t : τ) :
    ((s.worker_step ok s.worker).1.inner = .stop_return t →
        (s.worker_step ok s.worker).2.state t = timer_state_stopped) ∧
      (.stopped t ∈ (s.worker_step ok s.worker).2.events →
        .stopped t ∈ s.events ∨ s.state t = timer_state_stopped) := by
  cases hworker : s.worker with
  | dequeue =>
    simp only [worker_step]
    split
    · exact ⟨by rintro ⟨⟩, Or.inl⟩
    · exact ⟨by rintro ⟨⟩, Or.inl⟩
  | lock l =>
    cases l with
    | nil => exact ⟨by rintro ⟨⟩, Or.inl⟩
    | cons t' rest =>
      cases ok with
      | true => exact ⟨by rintro ⟨⟩, Or.inl⟩
      | false => exact ⟨by rintro ⟨⟩, Or.inl⟩
  | set_pending t' rest =>
    simp only [worker_step]
    rw [set_state_events]
    refine ⟨?_, Or.inl⟩
    intro h
    split at h
    · split at h
      · cases h
      · cases h
    · cases h
  | restart_check t' rest =>
    simp only [worker_step]
    refine ⟨?_, Or.inl⟩
    intro h
    split at h
    · cases h
    · cases h
  | restart_exchange t' rest =>
    simp only [worker_step]
    rw [set_state_events]
    refine ⟨?_, Or.inl⟩
    intro h
    split at h
    · cases h
    · cases h
  | restart_enqueue t' rest => exact ⟨by rintro ⟨⟩, Or.inl⟩
  | set_finished t' rest =>
    simp only [worker_step]
    rw [set_state_events]
    refine ⟨?_, Or.inl⟩
    intro h
    split at h
    · cases h
    · cases h
  | call t' rest =>
    refine ⟨by rintro ⟨⟩, ?_⟩
    intro hmem
    rcases List.mem_append.mp hmem with hmem | hmem
    · exact .inl hmem
    · cases List.mem_singleton.mp hmem
  | callback t' rest c =>
    -- the callback is a call of a thread like any other
    rw [hworker] at hsound
    have hstop : ∀ t, c = .stop_return t → s.state t = timer_state_stopped := by
      intro t hc
      apply hinv.worker
      rw [hworker]
      exact hc
    have hcall := (call_effect s c hsound).stops hstop t
    cases c with
    | idle => exact ⟨by rintro ⟨⟩, Or.inl⟩
    | _ => exact hcall

omit [DecidableEq ι] [DecidableEq τ] in
theorem new_stopInv (repeated : τ → Bool) (timeout_ns : τ → Nat) :
    StopInv (new repeated timeout_ns : Engine ι τ) :=
  ⟨fun _ _ => nofun, fun _ => nofun, fun _ => nofun⟩

omit [DecidableEq ι] [DecidableEq τ] in
/-- A step that leaves the threads of the user alone. -/
theorem StopInv.aside {s s' : Engine ι τ} (hinv : StopInv s)
    (hstays : ∀ t, s.state t = timer_state_stopped → s'.state t = timer_state_stopped)
    (hcalls : s'.calls = s.calls)
    (hworker : ∀ t, s'.worker.inner = .stop_return t → s'.state t = timer_state_stopped)
    (hevents : ∀ t, .stopped t ∈ s'.events → .stopped t ∈ s.events ∨
      s.state t = timer_state_stopped) : StopInv s' := by
  refine ⟨?_, hworker, ?_⟩
  · intro i t hi
    rw [hcalls] at hi
    exact hstays t (hinv.calls i t hi)
  · intro t hmem
    apply hstays
    rcases hevents t hmem with hmem | hstate
    · exact hinv.events t hmem
    · exact hstate

omit [DecidableEq τ] in
/-- A call begins. -/
theorem StopInv.goto {s : Engine ι τ} {i : ι} {c : TimerCall τ} (hinv : StopInv s)
    (hc : ∀ t, c ≠ .stop_return t) : StopInv (s.goto i c) := by
  refine ⟨?_, hinv.worker, hinv.events⟩
  intro j t hj
  have hj' : Function.update s.calls i c j = .stop_return t := hj
  by_cases hij : j = i
  · rw [hij, Function.update_self] at hj'
    exact absurd hj' (hc t)
  · rw [Function.update_of_ne hij] at hj'
    exact hinv.calls j t hj'

theorem step_stopInv {s s' : Engine ι τ} {l : EngineLabel ι τ} (h : FiringInv s)
    (hinv : StopInv s) (hs : s.step l = some s') : StopInv s' := by
  -- what the invariant says of a timer stays true, whoever takes the step
  have hstays : ∀ t, s.state t = timer_state_stopped → s'.state t = timer_state_stopped := by
    intro t hstate
    exact (step_halted h ⟨hstate, le_refl _⟩ hs).1
  cases l with
  | start_timer i t' =>
    simp only [step] at hs
    split at hs
    · cases hs
      exact hinv.goto (fun _ => by simp)
    · cases hs
  | stop i t' =>
    simp only [step] at hs
    split at hs
    · cases hs
      exact hinv.goto (fun _ => by simp)
    · cases hs
  | step i =>
    cases hs
    have heffect := call_effect s (s.calls i) (h.calls i)
    have hstops := heffect.stops (hinv.calls i)
    refine ⟨?_, ?_, ?_⟩
    · intro j t hj
      have hj' : Function.update (s.call_step (s.calls i)).2.calls i (s.call_step (s.calls i)).1 j =
        .stop_return t := hj
      by_cases hij : j = i
      · rw [hij, Function.update_self] at hj'
        exact (hstops t).1 hj'
      · rw [Function.update_of_ne hij, heffect.same.2.1] at hj'
        exact hstays t (hinv.calls j t hj')
    · intro t ht
      have ht' : (s.call_step (s.calls i)).2.worker.inner = .stop_return t := ht
      rw [heffect.same.2.2.1] at ht'
      exact hstays t (hinv.worker t ht')
    · intro t hmem
      apply hstays
      rcases (hstops t).2 hmem with hmem | hstate
      · exact hinv.events t hmem
      · exact hstate
  | observer now later ok =>
    cases hs
    have hsame := observer_same s now later ok s.observer
    apply hinv.aside hstays
    case hcalls => exact hsame.1
    case hworker =>
      intro t ht
      have ht' : (s.observer_step now later ok s.observer).2.worker.inner = .stop_return t := ht
      rw [hsame.2.1] at ht'
      exact hstays t (hinv.worker t ht')
    case hevents =>
      intro t hmem
      exact .inl ((observer_halted s now later ok t).2.2 t hmem)
  | worker ok =>
    cases hs
    apply hinv.aside hstays
    case hcalls => exact (worker_same s ok s.worker h.worker).1
    case hworker => exact fun t => (worker_stops ok h.worker hinv t).1
    case hevents => exact fun t => (worker_stops ok h.worker hinv t).2
  | worker_start t' =>
    simp only [step, worker_enter] at hs
    split at hs
    · cases hs
      exact ⟨hinv.calls, fun _ => by rintro ⟨⟩, hinv.events⟩
    · cases hs
  | worker_stop t' =>
    simp only [step, worker_enter] at hs
    split at hs
    · cases hs
      exact ⟨hinv.calls, fun _ => by rintro ⟨⟩, hinv.events⟩
    · cases hs
  | engine_stop =>
    cases hs
    exact ⟨hinv.calls, hinv.worker, hinv.events⟩

theorem reachable_stopInv {repeated : τ → Bool} {timeout_ns : τ → Nat} {s : Engine ι τ}
    (h : Reachable step AnyStep (new repeated timeout_ns) s) : FiringInv s ∧ StopInv s := by
  apply h.invariant (I := fun s => FiringInv s ∧ StopInv s)
  · exact ⟨new_firingInv repeated timeout_ns, new_stopInv repeated timeout_ns⟩
  · intro _ _ _ hinv _ hs
    exact ⟨step_firingInv hinv.1 hs, step_stopInv hinv.1 hinv.2 hs⟩

/-- **A stopped timer**: once `stop` has returned, at most one invocation of
    the callback begins in the rest of the run, and only if the worker had made
    its last exchange by then. -/
theorem stopped_calls_once {repeated : τ → Bool} {timeout_ns : τ → Nat} {s s' : Engine ι τ} {t : τ}
    (h : Reachable step AnyStep (new repeated timeout_ns) s) (hstopped : .stopped t ∈ s.events)
    (h' : Reachable step AnyStep s s') :
    s'.events.count (.called t) ≤ s.events.count (.called t) + s.worker.passed t := by
  obtain ⟨hfiring, hstop⟩ := reachable_stopInv h
  have hinv : FiringInv s' ∧ s'.Halted t (s.events.count (.called t) + s.worker.passed t) := by
    apply h'.invariant
    · exact ⟨hfiring, hstop.events t hstopped, le_refl _⟩
    · intro _ _ _ hinv _ hs
      exact ⟨step_firingInv hinv.1 hs, step_halted hinv.1 hinv.2 hs⟩
  obtain ⟨-, -, hcount⟩ := hinv
  omega

/-- The worker has made its last exchange when `stop` returns. -/
def late_labels : List (EngineLabel Bool Nat) :=
  [EngineLabel.start_timer true 0] ++ List.replicate 4 (EngineLabel.step true) ++
    [EngineLabel.observer 5 5 false, EngineLabel.observer 6 6 true,
      EngineLabel.observer 0 0 false, EngineLabel.observer 20 21 false,
      EngineLabel.observer 0 0 false, EngineLabel.observer 0 0 false] ++
    List.replicate 4 (EngineLabel.worker true) ++
    [EngineLabel.stop false 0, EngineLabel.step false, EngineLabel.step false]

theorem stopped_calls_once_late :
    ∃ s s' : Engine Bool Nat, TimerEvent.stopped 0 ∈ s.events ∧
      s'.events = [.started 0, .expired 0, .stopped 0, .called 0] ∧
      s'.events.count (.called 0) ≤ s.events.count (.called 0) + s.worker.passed 0 := by
  have hexec : (exec step (new (fun _ => false) fun _ => 10) late_labels).map
      (fun s => (s.events, (s.step (.worker true)).map events)) =
        some ([.started 0, .expired 0, .stopped 0],
          some [.started 0, .expired 0, .stopped 0, .called 0]) := by decide
  obtain ⟨s, hs, heq⟩ := Option.map_eq_some_iff.mp hexec
  obtain ⟨hevents, hnext⟩ := Prod.mk.inj heq
  obtain ⟨s', hs', hevents'⟩ := Option.map_eq_some_iff.mp hnext
  have hmem : TimerEvent.stopped 0 ∈ s.events := by
    rw [hevents]
    decide
  have hreach := Reachable.of_exec hs (meets_anyStep step _ _)
  exact ⟨s, s', hmem, hevents', stopped_calls_once hreach hmem (.step .init trivial hs')⟩

/-- An invocation of the callback begins after `stop` has returned. -/
theorem not_stopped_silent :
    ∃ s s' : Engine Bool Nat, Reachable step AnyStep (new (fun _ => false) fun _ => 10) s ∧
      TimerEvent.stopped 0 ∈ s.events ∧ Reachable step AnyStep s s' ∧
      s'.events = s.events ++ [.called 0] := by
  have hexec : (exec step (new (fun _ => false) fun _ => 10) late_labels).map
      (fun s => (s.events, (s.step (.worker true)).map events)) =
        some ([.started 0, .expired 0, .stopped 0],
          some [.started 0, .expired 0, .stopped 0, .called 0]) := by decide
  obtain ⟨s, hs, heq⟩ := Option.map_eq_some_iff.mp hexec
  obtain ⟨hevents, hnext⟩ := Prod.mk.inj heq
  obtain ⟨s', hs', hevents'⟩ := Option.map_eq_some_iff.mp hnext
  refine ⟨s, s', Reachable.of_exec hs (meets_anyStep step _ _), ?_, .step .init trivial hs', ?_⟩
  · rw [hevents]
    decide
  · rw [hevents, hevents']
    rfl

end Engine

end Pump
