import Pump.Transport.Dial

/-! # What start says and what comes of it

    The connect event and the dial timer are live before `start` has moved
    the state from `state_starting` to `state_started`. What comes in that
    window decides whether the result of `start`, the callbacks and the
    timeout agree. -/

namespace Pump

open TransportState ErrorCode TimerState

namespace Dialer

variable {ι : Type} [DecidableEq ι] {k : DialerKind} {timeout_ns : Nat}

/-! ## Section 1: A single start -/

/-- `start` is called once. -/
def starts_once (s : Dialer ι) : DialerLabel ι → Bool
  | .start _ _ _ _ => s.starts == 0
  | _ => true

/-- Every step of a thread meets `p` of where it is and of the state. -/
def at_step (p : DialerPc → TransportState → Bool) (s : Dialer ι) : DialerLabel ι → Bool
  | .step i _ => p (s.pcs i) s.state
  | _ => true

/-- Runs with one call of `start` whose steps meet `p`. -/
def OneStart (p : DialerPc → TransportState → Bool) (s : Dialer ι) (l : DialerLabel ι) : Prop :=
  starts_once s l = true ∧ at_step p s l = true

instance (p : DialerPc → TransportState → Bool) (s : Dialer ι) (l : DialerLabel ι) :
    Decidable (OneStart p s l) :=
  inferInstanceAs (Decidable (_ ∧ _))

/-- At most one thread is inside `start`, and `start` has not returned then. -/
structure SingleStart (s : Dialer ι) : Prop where
  unique : ∀ i j, (s.pcs i).in_start → (s.pcs j).in_start → i = j
  pending : ∀ i, (s.pcs i).in_start → s.result = none
  fresh : s.starts = 0 → s.result = none ∧ ∀ i, ¬ (s.pcs i).in_start

omit [DecidableEq ι] in
theorem singleStart_new : SingleStart (new : Dialer ι) :=
  ⟨fun _ _ h => h.elim, fun _ h => h.elim, fun _ => ⟨rfl, fun _ h => h⟩⟩

theorem singleStart_step {s s' : Dialer ι} {l : DialerLabel ι} (hinv : SingleStart s)
    (honce : starts_once s l = true) (h : step k timeout_ns s l = some s') : SingleStart s' := by
  rcases step_effect h with ⟨i, pc, he⟩ | ⟨i, ok, pc, -, hs⟩
  · by_cases hin : pc.in_start
    · -- the first call of `start`
      obtain ⟨⟨sv, cbs, xcred, rfl⟩, hstarts, -⟩ := he.start hin
      obtain ⟨hres, hnone⟩ := hinv.fresh (eq_of_beq honce)
      have honly : ∀ j, (s'.pcs j).in_start → j = i := by
        intro j hj
        by_contra hji
        rw [he.other hji] at hj
        exact hnone j hj
      refine ⟨fun j j' hj hj' => (honly j hj).trans (honly j' hj').symm, fun _ _ => ?_, ?_⟩
      · rw [he.result]
        exact hres
      · intro h0
        omega
    · have hstart : ∀ j, (s'.pcs j).in_start → (s.pcs j).in_start := by
        intro j hj
        by_cases hji : j = i
        · rw [hji, he.self] at hj
          exact absurd hj hin
        · rwa [he.other hji] at hj
      refine ⟨fun j j' hj hj' => hinv.unique j j' (hstart j hj) (hstart j' hj'), ?_, ?_⟩
      · intro j hj
        rw [he.result]
        exact hinv.pending j (hstart j hj)
      · intro h0
        rw [he.no_start hin] at h0
        obtain ⟨hres, hnone⟩ := hinv.fresh h0
        exact ⟨he.result.trans hres, fun j hj => hnone j (hstart j hj)⟩
  · have hstart : ∀ j, (s'.pcs j).in_start → (s.pcs j).in_start := by
      intro j hj
      by_cases hji : j = i
      · rw [hji, hs.self] at hj
        rw [hji]
        exact (hs.in_start hj).1
      · rwa [hs.other j hji] at hj
    -- `start` is left where it returns
    have hresult : ∀ j, (s'.pcs j).in_start → s'.result = s.result := by
      intro j hj
      rw [hs.result]
      rcases hret : (s.pcs i).returned with _ | ec
      · rfl
      · exfalso
        have hin : (s.pcs i).in_start := by
          rw [DialerPc.eq_of_returned hret]
          trivial
        rw [hinv.unique j i (hstart j hj) hin, hs.self] at hj
        rw [(hs.in_start hj).2] at hret
        exact absurd hret nofun
    refine ⟨fun j j' hj hj' => hinv.unique j j' (hstart j hj) (hstart j' hj'), ?_, ?_⟩
    · intro j hj
      rw [hresult j hj]
      exact hinv.pending j (hstart j hj)
    · intro h0
      rw [hs.starts] at h0
      obtain ⟨hres, hnone⟩ := hinv.fresh h0
      refine ⟨?_, fun j hj => hnone j (hstart j hj)⟩
      rw [hs.result, hres]
      rcases hret : (s.pcs i).returned with _ | ec
      · rfl
      · have hin : (s.pcs i).in_start := by
          rw [DialerPc.eq_of_returned hret]
          trivial
        exact absurd hin (hnone i)

/-- `start` has returned `error_none`, or is about to. -/
def Succeeded (s : Dialer ι) : Prop :=
  s.result = some error_none ∨ ∃ i, s.pcs i = .start_return error_none

theorem Succeeded.step {s s' : Dialer ι} {l : DialerLabel ι} (hsingle : SingleStart s)
    (hsucc : Succeeded s) (h : step k timeout_ns s l = some s') : Succeeded s' := by
  rcases step_effect h with ⟨i, pc, he⟩ | ⟨i, ok, pc, rfl, hs⟩
  · rcases hsucc with hres | ⟨j, hj⟩
    · exact Or.inl (he.result.trans hres)
    · refine Or.inr ⟨j, (he.other ?_).trans hj⟩
      rintro rfl
      rw [he.idle] at hj
      cases hj
  · rcases hsucc with hres | ⟨j, hj⟩
    · -- `start` does not return twice
      rcases hret : (s.pcs i).returned with _ | ec
      · exact Or.inl (by rw [hs.result, hret, hres]; rfl)
      · have hin : (s.pcs i).in_start := by
          rw [DialerPc.eq_of_returned hret]
          trivial
        rw [hsingle.pending i hin] at hres
        cases hres
    · by_cases hji : j = i
      · exact Or.inl (by rw [hs.result, ← hji, hj]; rfl)
      · exact Or.inr ⟨j, (hs.other j hji).trans hj⟩

/-- `start` succeeds where the state becomes `state_started`. -/
theorem succeeded_of_step {s s' : Dialer ι} {l : DialerLabel ι} (hsucc : Succeeded s')
    (h : Dialer.step k timeout_ns s l = some s') : Succeeded s ∨ s'.state = state_started := by
  rcases step_effect h with ⟨i, pc, he⟩ | ⟨i, ok, pc, rfl, hs⟩
  · left
    rcases hsucc with hres | ⟨j, hj⟩
    · exact Or.inl (he.result.symm.trans hres)
    · by_cases hji : j = i
      · rw [hji, he.self] at hj
        rcases (he.start (by rw [hj]; trivial)).2.2 with hpc | hpc
        · rw [hpc] at hj
          cases hj
        · rw [hpc] at hj
          cases hj
      · exact Or.inr ⟨j, (he.other hji).symm.trans hj⟩
  · rcases hsucc with hres | ⟨j, hj⟩
    · left
      rw [hs.result] at hres
      rcases hret : (s.pcs i).returned with _ | ec
      · rw [hret, Option.none_or] at hres
        exact Or.inl hres
      · rw [hret, Option.some_or] at hres
        exact Or.inr ⟨i, by rw [DialerPc.eq_of_returned hret, Option.some.inj hres]⟩
    · by_cases hji : j = i
      · rw [hji, hs.self] at hj
        exact Or.inr (hs.succeeds hj)
      · exact Or.inl (Or.inr ⟨j, (hs.other j hji).symm.trans hj⟩)

/-! ## Section 2: A failed start is silent -/

/-- The connect event does not win the state that `start` has yet to leave; a
    `tls_dialer` may, with a failed connect. -/
def no_early_connect (k : DialerKind) : DialerPc → TransportState → Bool
  | .send_starting success, state_starting => k = .tls && !success
  | _, _ => true

/-- If `start` has returned an error, no callback was called. -/
def FailsSilently (s : Dialer ι) : Prop :=
  ∀ ec, s.result = some ec → ec ≠ error_none → s.calls = []

/-- Nothing has been won from `start`. -/
structure Silent (s : Dialer ι) : Prop where
  state : s.state = state_none ∨ s.state = state_starting ∨ s.state = state_error
  due : ∀ i c, s.pcs i ≠ .call c
  calls : s.calls = []

/-- From these states only `start` moves on, unless the connect event comes early. -/
theorem Move.of_silent {pc pc' : DialerPc} {st st' : TransportState} (h : Move k pc st st' pc')
    (hst : st = state_none ∨ st = state_starting ∨ st = state_error)
    (hearly : no_early_connect k pc st = true)
    (hpc' : pc' ≠ .start_return error_none) :
    (st' = state_none ∨ st' = state_starting ∨ st' = state_error) ∧ ∀ c, pc' ≠ .call c := by
  cases h with
  | start_state => exact ⟨Or.inr (Or.inl rfl), nofun⟩
  | start_error => exact ⟨Or.inr (Or.inr rfl), nofun⟩
  | start_started => exact absurd rfl hpc'
  | send_starting success ok =>
    cases k with
    | tcp => exact absurd hearly nofun
    | tls =>
      cases success with
      | true => exact absurd hearly nofun
      | false => exact ⟨Or.inr (Or.inr rfl), nofun⟩
  | stop_started | stop_handshaking | stop_timeouting | send_started | send_failed | timeout_state
  | channel_timeouting | channel_stopping | handshaked => simp at hst

theorem silent_step {s s' : Dialer ι} {l : DialerLabel ι} (hsingle : SingleStart s)
    (hinv : Succeeded s ∨ Silent s) (hearly : at_step (no_early_connect k) s l = true)
    (h : step k timeout_ns s l = some s') : Succeeded s' ∨ Silent s' := by
  rcases hinv with hsucc | hsil
  · exact Or.inl (hsucc.step hsingle h)
  by_cases hsucc : Succeeded s'
  · exact Or.inl hsucc
  right
  rcases step_effect h with ⟨i, pc, he⟩ | ⟨i, ok, pc, rfl, hs⟩
  · refine ⟨?_, ?_, he.calls.trans hsil.calls⟩
    · rw [he.state]
      exact hsil.state
    · intro j c hj
      by_cases hji : j = i
      · rw [hji, he.self] at hj
        exact he.no_call c hj
      · rw [he.other hji] at hj
        exact hsil.due j c hj
  · have hmove : (s'.state = state_none ∨ s'.state = state_starting ∨ s'.state = state_error) ∧
        ∀ c, pc ≠ .call c := by
      rcases hs.state with ⟨hst, hquiet⟩ | hm
      · rw [hst]
        exact ⟨hsil.state, hquiet⟩
      · refine hm.of_silent hsil.state hearly ?_
        intro hpc
        exact hsucc (Or.inr ⟨i, hs.self.trans hpc⟩)
    refine ⟨hmove.1, ?_, ?_⟩
    · intro j c hj
      by_cases hji : j = i
      · rw [hji, hs.self] at hj
        exact hmove.2 c hj
      · rw [hs.other j hji] at hj
        exact hsil.due j c hj
    · rw [hs.calls, hsil.calls, DialerPc.called_eq_nil (hsil.due i)]
      rfl

/-- **A failed start is silent**, if the connect event does not come before
    `start` has left `state_starting`. -/
theorem fails_silently {s : Dialer ι}
    (h : Reachable (step k timeout_ns) (OneStart (no_early_connect k)) new s) : FailsSilently s := by
  intro ec hresult hec
  have hinv : SingleStart s ∧ (Succeeded s ∨ Silent s) :=
    h.invariant (I := fun s => SingleStart s ∧ (Succeeded s ∨ Silent s))
      ⟨singleStart_new, Or.inr ⟨Or.inl rfl, nofun, rfl⟩⟩
      fun _ _ _ hi hok hs => ⟨singleStart_step hi.1 hok.1 hs, silent_step hi.1 hi.2 hok.2 hs⟩
  obtain ⟨hsingle, hsucc | hsil⟩ := hinv
  · exfalso
    rcases hsucc with hres | ⟨i, hi⟩
    · rw [hresult] at hres
      exact hec (Option.some.inj hres)
    · have hnone := hsingle.pending i (by rw [hi]; trivial)
      rw [hresult] at hnone
      cases hnone
  · exact hsil.calls

/-- `start` with a flow that does not open. -/
def open_fails : List (DialerLabel (Fin 2)) :=
  [DialerLabel.start 0 true true true, .step 0 true, .step 0 false] ++
    List.replicate 3 (DialerLabel.step 0 true)

theorem fails_silently_open : ∃ s : Dialer (Fin 2), exec (step .tls 1000) new open_fails = some s ∧
    s.result = some error_fault ∧ FailsSilently s := by
  obtain ⟨s, hexec, hresult⟩ : ∃ s : Dialer (Fin 2),
      exec (step .tls 1000) new open_fails = some s ∧ s.result = some error_fault := ⟨_, rfl, rfl⟩
  exact ⟨s, hexec, hresult, fails_silently (.of_exec hexec (by decide))⟩

/-- The connect event is handled by thread 1 while thread 0 is about to set
    `state_started`. -/
def early_connect : List (DialerLabel (Fin 2)) :=
  [DialerLabel.start 0 true true true] ++ List.replicate 6 (DialerLabel.step 0 true) ++
    [DialerLabel.send_event 1] ++ List.replicate 5 (DialerLabel.step 1 true) ++
    List.replicate 4 (DialerLabel.step 0 true)

/-- `start` returns `error_fault` and `dialed_cb` has been called. -/
theorem not_fails_silently : ¬ ∀ s : Dialer (Fin 2),
    Reachable (step .tcp 1000) (OneStart fun _ _ => true) new s → FailsSilently s := by
  intro hclaim
  obtain ⟨s, hexec, hresult, hcalls⟩ : ∃ s : Dialer (Fin 2),
      exec (step .tcp 1000) new early_connect = some s ∧ s.result = some error_fault ∧
      s.calls = [.dialed_cb true] := ⟨_, rfl, rfl, rfl⟩
  have hnone := hclaim s (.of_exec hexec (by decide)) error_fault hresult nofun
  rw [hcalls] at hnone
  cases hnone

/-! ## Section 3: A dial timeout is kept -/

/-- The timer does not find the state that `start` has yet to leave. -/
def no_early_timeout : DialerPc → TransportState → Bool
  | .timeout_state, state_starting => false
  | _, _ => true

/-- A started dial whose one timer has run already: nothing will end it. -/
def TimeoutLost (s : Dialer ι) : Prop :=
  s.state = state_started ∧ s.result = some error_none ∧ s.timer_ran = true

/-- Once the timer has run the state is past `state_started`; where a timer
    may be, it is past `state_none`. -/
structure TimerKept (s : Dialer ι) : Prop where
  created : s.connect_timer.isSome = true → s.state ≠ state_none
  armed : ∀ i, (s.pcs i).timer_armed → s.state ≠ state_none
  ran : s.timer_ran = true →
    s.state ≠ state_none ∧ s.state ≠ state_starting ∧ s.state ≠ state_started

/-- No move leads back. -/
theorem Move.onwards {pc pc' : DialerPc} {st st' : TransportState} (h : Move k pc st st' pc') :
    st' ≠ state_none ∧ (st ≠ state_none ∧ st ≠ state_starting →
      st' ≠ state_starting ∧ st' ≠ state_started) := by
  cases h with
  | start_state => exact ⟨nofun, fun h => absurd rfl h.1⟩
  | start_started | start_error => exact ⟨nofun, fun h => absurd rfl h.2⟩
  | send_starting success ok => exact ⟨by cases k <;> cases success <;> nofun, fun h => absurd rfl h.2⟩
  | send_started success ok =>
    cases k <;> cases success <;> exact ⟨nofun, fun _ => ⟨nofun, nofun⟩⟩
  | stop_started | stop_handshaking | stop_timeouting | send_failed | timeout_state
  | channel_timeouting | channel_stopping | handshaked =>
    exact ⟨nofun, fun _ => ⟨nofun, nofun⟩⟩

omit [DecidableEq ι] in
theorem timerKept_new : TimerKept (new : Dialer ι) :=
  ⟨nofun, fun _ h => h.elim, nofun⟩

theorem timerKept_step {s s' : Dialer ι} {l : DialerLabel ι} (hinv : TimerKept s)
    (hearly : at_step no_early_timeout s l = true) (h : step k timeout_ns s l = some s') :
    TimerKept s' := by
  rcases step_effect h with ⟨i, pc, he⟩ | ⟨i, ok, pc, rfl, hs⟩
  · refine ⟨?_, ?_, ?_⟩
    · rw [he.connect_timer, he.state]
      exact hinv.created
    · intro j hj
      rw [he.state]
      by_cases hji : j = i
      · rw [hji, he.self] at hj
        exact hinv.created (he.timer hj)
      · rw [he.other hji] at hj
        exact hinv.armed j hj
    · rw [he.timer_ran, he.state]
      exact hinv.ran
  · -- a state past `state_none` stays so
    have hpast : s.state ≠ state_none → s'.state ≠ state_none := by
      intro hne
      rcases hs.state with ⟨hst, -⟩ | hm
      · rwa [hst]
      · exact hm.onwards.1
    refine ⟨?_, ?_, ?_⟩
    · intro htimer
      rcases hs.timer htimer with hsome | harmed
      · exact hpast (hinv.created hsome)
      · exact hpast (hinv.armed i harmed)
    · intro j hj
      by_cases hji : j = i
      · rw [hji, hs.self] at hj
        rcases hs.armed hj with harmed | hne
        · exact hpast (hinv.armed i harmed)
        · exact hne
      · rw [hs.other j hji] at hj
        exact hpast (hinv.armed j hj)
    · intro hran
      by_cases hpc : s.pcs i = .timeout_state
      · -- the timer runs: it finds the state past `state_starting`
        have hne : s.state ≠ state_none := hinv.armed i (by rw [hpc]; trivial)
        have hnot : s.state ≠ state_starting := by
          intro hst
          simp only [at_step, hpc, hst] at hearly
          exact absurd hearly nofun
        refine ⟨hpast hne, ?_, hs.timeout hpc⟩
        rcases hs.state with ⟨hst, -⟩ | hm
        · rwa [hst]
        · exact (hm.onwards.2 ⟨hne, hnot⟩).1
      · rw [hs.timer_ran, decide_eq_false hpc, Bool.false_or] at hran
        obtain ⟨hne, hnot, hnot'⟩ := hinv.ran hran
        rcases hs.state with ⟨hst, -⟩ | hm
        · rw [hst]
          exact ⟨hne, hnot, hnot'⟩
        · exact ⟨hm.onwards.1, hm.onwards.2 ⟨hne, hnot⟩⟩

/-- **A dial timeout is kept**, if the timer does not run before `start` has
    left `state_starting`. -/
theorem timeout_not_lost {s : Dialer ι}
    (h : Reachable (step k timeout_ns) (fun s l => at_step no_early_timeout s l = true) new s) :
    ¬ TimeoutLost s := by
  rintro ⟨hstate, -, hran⟩
  have hinv := h.invariant timerKept_new fun _ _ _ hi hok hs => timerKept_step hi hok hs
  exact (hinv.ran hran).2.2 hstate

/-- The timer runs when `start` has returned. -/
def times_out : List (DialerLabel (Fin 2)) :=
  [DialerLabel.start 0 true true true] ++ List.replicate 8 (DialerLabel.step 0 true) ++
    [DialerLabel.timeout 1] ++ List.replicate 3 (DialerLabel.step 1 true)

theorem timeout_not_lost_times_out : ∃ s : Dialer (Fin 2),
    exec (step .tcp 1000) new times_out = some s ∧ s.result = some error_none ∧
    s.timer_ran = true ∧ ¬ TimeoutLost s := by
  obtain ⟨s, hexec, hresult, hran⟩ : ∃ s : Dialer (Fin 2),
      exec (step .tcp 1000) new times_out = some s ∧ s.result = some error_none ∧
      s.timer_ran = true := ⟨_, rfl, rfl, rfl⟩
  exact ⟨s, hexec, hresult, hran, timeout_not_lost (.of_exec hexec (by decide))⟩

/-- The timer runs in thread 1 when thread 0 has just started it. -/
def early_timeout : List (DialerLabel (Fin 2)) :=
  [DialerLabel.start 0 true true true] ++ List.replicate 3 (DialerLabel.step 0 true) ++
    [DialerLabel.timeout 1] ++ List.replicate 3 (DialerLabel.step 1 true) ++
    List.replicate 5 (DialerLabel.step 0 true)

/-- The timer finds `state_starting` and does nothing; it does not run again. -/
theorem timeout_lost : ¬ ∀ s : Dialer (Fin 2),
    Reachable (step .tcp 1000) AnyStep new s → ¬ TimeoutLost s := by
  intro hclaim
  obtain ⟨s, hexec, hlost⟩ : ∃ s : Dialer (Fin 2),
      exec (step .tcp 1000) new early_timeout = some s ∧ TimeoutLost s := ⟨_, rfl, rfl, rfl, rfl⟩
  exact hclaim s (.of_exec hexec (meets_anyStep _ _ _)) hlost

/-! ## Section 4: A TLS dial ends with a callback -/

/-- A failed connect does not win the state from a dial that was started. -/
def no_failed_connect : DialerPc → TransportState → Bool
  | .send_started false, state_started => false
  | _, _ => true

/-- A dial that was started and has ended, with no posted event outstanding
    and no callback due, has called exactly one callback. -/
def EndsOnce (s : Dialer ι) : Prop :=
  s.result = some error_none → s.state.dial_over → s.posted = 0 → (∀ i c, s.pcs i ≠ .call c) →
    s.calls.length = 1

/-- A terminal state comes with a callback, or `start` has not succeeded; it
    has not while it has yet to set `state_started`. -/
structure Answered (s : Dialer ι) : Prop where
  ended : s.state.dial_over → s.calls ≠ [] ∨ (∃ i c, s.pcs i = .call c) ∨ ¬ Succeeded s
  started : Succeeded s → s.state ≠ state_none ∧ s.state ≠ state_starting

/-- A move to a terminal state brings a callback due, or `start` fails. -/
theorem Move.answered {pc pc' : DialerPc} {st st' : TransportState} (h : Move .tls pc st st' pc')
    (hfailed : no_failed_connect pc st = true) (hover : st'.dial_over) :
    (∃ c, pc' = .call c) ∨ st = state_starting := by
  cases h with
  | start_error => exact Or.inr rfl
  | send_failed | channel_timeouting | channel_stopping | handshaked => exact Or.inl ⟨_, rfl⟩
  | send_starting success ok => exact Or.inr rfl
  | send_started success ok =>
    cases success with
    | true => exact hover.elim
    | false => exact absurd hfailed nofun
  | start_state | start_started | stop_started | stop_handshaking | stop_timeouting
  | timeout_state => exact hover.elim

theorem answered_started {s s' : Dialer ι} {l : DialerLabel ι} (hinv : Answered s)
    (h : step k timeout_ns s l = some s') (hsucc : Succeeded s') :
    s'.state ≠ state_none ∧ s'.state ≠ state_starting := by
  rcases succeeded_of_step hsucc h with hbefore | hst
  · rcases step_effect h with ⟨i, pc, he⟩ | ⟨i, ok, pc, rfl, hs⟩
    · rw [he.state]
      exact hinv.started hbefore
    · rcases hs.state with ⟨hst, -⟩ | hm
      · rw [hst]
        exact hinv.started hbefore
      · exact ⟨hm.onwards.1, (hm.onwards.2 (hinv.started hbefore)).1⟩
  · rw [hst]
    exact ⟨nofun, nofun⟩

theorem answered_over {s s' : Dialer ι} {l : DialerLabel ι} (hinv : Answered s)
    (hfailed : at_step no_failed_connect s l = true) (h : step .tls timeout_ns s l = some s')
    (hover : s'.state.dial_over) : s'.calls ≠ [] ∨ (∃ i c, s'.pcs i = .call c) ∨ ¬ Succeeded s' := by
  -- `start` does not succeed in a terminal state
  have hkeep : ¬ Succeeded s → ¬ Succeeded s' := by
    intro hnot hsucc
    rcases succeeded_of_step hsucc h with hbefore | hst
    · exact hnot hbefore
    · rw [hst] at hover
      exact hover
  rcases step_effect h with ⟨i, pc, he⟩ | ⟨i, ok, pc, rfl, hs⟩
  · rw [he.state] at hover
    rcases hinv.ended hover with hcalls | ⟨j, c, hj⟩ | hnot
    · exact Or.inl (by rwa [he.calls])
    · refine Or.inr (Or.inl ⟨j, c, (he.other ?_).trans hj⟩)
      rintro rfl
      rw [he.idle] at hj
      cases hj
    · exact Or.inr (Or.inr (hkeep hnot))
  · rcases hs.state with ⟨hst, -⟩ | hm
    · rw [hst] at hover
      rcases hinv.ended hover with hcalls | ⟨j, c, hj⟩ | hnot
      · refine Or.inl ?_
        rw [hs.calls]
        exact List.append_ne_nil_of_left_ne_nil hcalls _
      · by_cases hji : j = i
        · -- the callback is called
          refine Or.inl ?_
          rw [hs.calls, ← hji, hj]
          exact List.append_ne_nil_of_right_ne_nil _ (List.cons_ne_nil c [])
        · exact Or.inr (Or.inl ⟨j, c, (hs.other j hji).trans hj⟩)
      · exact Or.inr (Or.inr (hkeep hnot))
    · rcases hm.answered hfailed hover with ⟨c, hc⟩ | hst
      · exact Or.inr (Or.inl ⟨i, c, hs.self.trans hc⟩)
      · refine Or.inr (Or.inr (hkeep fun hsucc => ?_))
        exact (hinv.started hsucc).2 hst

omit [DecidableEq ι] in
theorem answered_new : Answered (new : Dialer ι) := by
  refine ⟨fun h => h.elim, ?_⟩
  rintro (hres | ⟨i, hi⟩)
  · cases hres
  · cases hi

/-- **A TLS dial ends with one callback**, if a failed connect does not win
    the state of a started dial. -/
theorem ends_once {s : Dialer ι}
    (h : Reachable (step .tls timeout_ns) (fun s l => at_step no_failed_connect s l = true) new s) :
    EndsOnce s := by
  intro hresult hover _ hquiet
  have hans : Answered s := h.invariant answered_new fun _ _ _ hi hok hs =>
    ⟨answered_over hi hok hs, answered_started hi hs⟩
  rcases hans.ended hover with hcalls | ⟨i, c, hi⟩ | hnot
  · exact ((oneCall_reachable h).called hcalls).1
  · exact absurd hi (hquiet i c)
  · exact absurd (Or.inl hresult) hnot

/-- Thread 0 starts, thread 1 handles the connect event and the handshake. -/
def handshakes : List (DialerLabel (Fin 2)) :=
  [DialerLabel.start 0 true true true] ++ List.replicate 8 (DialerLabel.step 0 true) ++
    [DialerLabel.send_event 1] ++ List.replicate 7 (DialerLabel.step 1 true) ++
    [DialerLabel.handshake 1 true, .step 1 true, .step 1 true]

theorem ends_once_handshakes : ∃ s : Dialer (Fin 2),
    exec (step .tls 1000) new handshakes = some s ∧ s.result = some error_none ∧
    s.state.dial_over ∧ s.calls = [.dialed_cb true] ∧ EndsOnce s := by
  obtain ⟨s, hexec, hresult, hover, hcalls⟩ : ∃ s : Dialer (Fin 2),
      exec (step .tls 1000) new handshakes = some s ∧ s.result = some error_none ∧
      s.state.dial_over ∧ s.calls = [.dialed_cb true] := ⟨_, rfl, rfl, trivial, rfl⟩
  exact ⟨s, hexec, hresult, hover, hcalls, ends_once (.of_exec hexec (by decide))⟩

/-- `connect` fails after `start` has returned. -/
def connect_fails : List (DialerLabel (Fin 2)) :=
  [DialerLabel.start 0 true true true] ++ List.replicate 8 (DialerLabel.step 0 true) ++
    [DialerLabel.send_event 1, .step 1 true, .step 1 true, .step 1 false] ++
    List.replicate 3 (DialerLabel.step 1 true)

/-- The state is `state_error` already when `on_send_event` asks for
    `state_handshaking` in order to call back. -/
theorem not_ends_once : ¬ ∀ s : Dialer (Fin 2),
    Reachable (step .tls 1000) AnyStep new s → EndsOnce s := by
  intro hclaim
  obtain ⟨s, hexec, hresult, hover, hposted, hquiet, hcalls⟩ : ∃ s : Dialer (Fin 2),
      exec (step .tls 1000) new connect_fails = some s ∧ s.result = some error_none ∧
      s.state.dial_over ∧ s.posted = 0 ∧ (∀ i, s.pcs i = .idle) ∧ s.calls = [] :=
    ⟨_, rfl, rfl, trivial, rfl, by decide, rfl⟩
  have hone := hclaim s (.of_exec hexec (meets_anyStep _ _ _)) hresult hover hposted
    fun i c hi => nomatch (hquiet i).symm.trans hi
  rw [hcalls] at hone
  cases hone

end Dialer

end Pump
