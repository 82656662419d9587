import Pump.Total
import Pump.Transport.Terminal

/-! # Stop closes the gate

    `send` and `async_read` add to `pending_opt_cnt_` and then look at the
    state again; `stop` exchanges the state and then waits until
    `pending_opt_cnt_` is zero. So a call that still passes the second look is
    waited for. `async_read` of a `tls_transport` that reads by loop does not
    look a second time. -/

namespace Pump

open TransportState ErrorCode ChannelEvent Tracker ReadMode

namespace TransportPc

/-- The thread is counted in `pending_opt_cnt_`. -/
def pending : TransportPc → ℤ
  | .read_started | .read_change | .read_unread | .read_post | .read_start | .read_sub _
  | .send_started _ _ | .send_create _ | .send_push _ _ | .send_add _ | .send_disconnecting _
  | .send_post _ | .send_sub _ _
  | .once (.async _) | .once_pop (.async _) _ | .once_size (.async _) | .once_want (.async _)
  | .flow_send (.async _) | .handle_sent (.async _) | .handle_clear (.async _)
  | .sub_size (.async _) | .sub (.async _) _ | .sub_compare (.async _) _ _
  | .start_tracker (.async _) => 1
  | _ => 0

/-- The thread is going to enqueue its buffer in a call of `send`, or to change
    the read state or arm the read tracker in a call of `async_read`. -/
def opens : TransportPc → Prop
  | .send_create _ | .send_push _ _ | .read_change | .read_unread | .read_post | .read_start =>
    True
  | _ => False

/-- The thread waits in `stop` or `force_stop`. -/
def waits : TransportPc → Prop
  | .stop_wait _ => True
  | _ => False

instance : DecidablePred opens := fun pc => by
  apply TransportPc.casesOn (motive := fun pc => Decidable (opens pc)) pc <;> intros <;>
    unfold opens <;> infer_instance

instance : DecidablePred waits := fun pc => by
  apply TransportPc.casesOn (motive := fun pc => Decidable (waits pc)) pc <;> intros <;>
    unfold waits <;> infer_instance

theorem pending_of_opens {pc : TransportPc} (h : pc.opens) : pc.pending = 1 := by
  cases pc with
  | send_create | send_push | read_change | read_unread | read_post | read_start => rfl
  | _ => exact h.elim

theorem pending_nonneg (pc : TransportPc) : 0 ≤ pc.pending := by
  unfold pending
  split
  all_goals decide

end TransportPc

/-- A transport is being stopped, or was. -/
def TransportState.closing : TransportState → Prop
  | state_stopping | state_stopped => True
  | _ => False

instance : DecidablePred TransportState.closing := fun st => by
  cases st <;> unfold TransportState.closing <;> infer_instance

namespace BaseTransport

variable {ι : Type} {k : TransportKind}

/-! ## Section 1: What a step does -/

/-- What a step at `pc` adds to `pending_opt_cnt_`. -/
def opt_change : TransportPc → ℤ
  | .read_opt | .send_opt _ _ => 1
  | .read_sub _ | .send_sub _ _ => -1
  | _ => 0

variable (k) in
theorem action_opt_cnt (s : BaseTransport ι) (ok : Bool) (n : Int) (pc : TransportPc) :
    (s.action k ok n pc).2.pending_opt_cnt = s.pending_opt_cnt + opt_change pc := by
  have hset := s.set_state_frame (P := fun s' => s'.pending_opt_cnt = s.pending_opt_cnt) fun _ => rfl
  have hread := s.change_read_state_frame (P := fun s' => s'.pending_opt_cnt = s.pending_opt_cnt) fun _ => rfl
  have hpost := s.post_channel_event_frame (P := fun s' => s'.pending_opt_cnt = s.pending_opt_cnt)
    (fun _ => rfl) ok
  have hflow := s.flow_send_frame (P := fun s' => s'.pending_opt_cnt = s.pending_opt_cnt) (fun _ _ => rfl) n
  have hqueue := s.sendlist_step_frame (P := fun s' => s'.pending_opt_cnt = s.pending_opt_cnt)
    (fun _ _ => rfl) ok
  cases pc with
  | read_opt | send_opt | read_sub | send_sub => rfl
  | start_stages rest =>
    rcases rest with _ | ⟨st, rest⟩
    · exact (add_zero _).symm
    · exact (add_zero _).symm
  | start_state | once_size | once_want | flow_send | handle_sent =>
    simp only [action, opt_change, add_zero]
    repeat' split
    all_goals
      first
      | rfl
      | exact hset _ _
      | exact hflow _
      | exact hpost _
  | _ =>
    simp only [action, opt_change, add_zero, hset, hread, hpost, hqueue]
    try rfl

variable (k) in
/-- A thread is counted from its addition to its subtraction. One that calls
    `pump_abort` stays counted. -/
theorem pending_of_action (s : BaseTransport ι) (ok : Bool) (n : Int) (pc : TransportPc) :
    (s.action k ok n pc).1.pending ≤ pc.pending + opt_change pc := by
  cases pc with
  | start_stages rest =>
    rcases rest with _ | ⟨st, rest⟩
    · exact le_refl _
    · simp only [action]
      split
      · exact le_refl _
      · exact le_refl _
  | once w | once_pop w op | once_size w | once_want w | flow_send w | handle_sent w
  | handle_clear w | sub_size w | sub w size | sub_compare w old size | start_tracker w =>
    -- the same thread sends on, or returns to the call it is in
    rcases w with iob | _ | _
    all_goals
      simp only [action, send_failed, send_more, send_done]
      repeat' split
      all_goals
        first
        | exact le_refl _
        | exact Int.le_of_lt Int.one_pos
  | _ =>
    simp only [action]
    repeat' split
    all_goals exact le_refl _

variable (k) in
/-- What opens the gate: a look at the state, or the addition of an
    `async_read` that does not look again. -/
theorem opens_of_action (s : BaseTransport ι) (ok : Bool) (n : Int) (pc : TransportPc)
    (h : (s.action k ok n pc).1.opens) :
    pc.opens ∨ s.state = state_started ∨
      (pc = .read_opt ∧ k = .tls ∧ s.rmode = read_mode_loop) := by
  cases pc with
  | send_create | send_push | read_change | read_unread | read_post | read_start =>
    exact Or.inl trivial
  | read_opt =>
    simp only [action] at h
    split at h
    · next hloop => exact Or.inr (Or.inr ⟨rfl, hloop⟩)
    · exact h.elim
  | read_started | send_started =>
    simp only [action] at h
    repeat' split at h
    all_goals
      first
      | exact h.elim
      | next hst => exact Or.inr (Or.inl hst)
      | next hst _ => exact Or.inr (Or.inl (not_not.mp hst))
  | start_stages rest =>
    rcases rest with _ | ⟨st, rest⟩
    · exact h.elim
    · simp only [action] at h
      split at h
      · exact h.elim
      · exact h.elim
  | once_want w | flow_send w | sub_compare w old size | start_tracker w =>
    rcases w with iob | _ | _
    all_goals
      simp only [action, send_failed, send_more, send_done] at h
      repeat' split at h
      all_goals exact h.elim
  | _ =>
    simp only [action] at h
    repeat' split at h
    all_goals exact h.elim

variable (k) in
/-- A thread begins to wait where it has stopped the transport. -/
theorem waits_of_action (s : BaseTransport ι) (ok : Bool) (n : Int) (pc : TransportPc)
    (h : (s.action k ok n pc).1.waits) :
    pc.waits ∨ (s.state = state_started ∧ (s.action k ok n pc).2.state = state_stopping) := by
  cases pc with
  | stop_wait force => exact Or.inl trivial
  | stop_started force =>
    right
    by_cases hst : s.state = state_started
    · refine ⟨hst, ?_⟩
      simp [action, set_state, hst]
    · simp [action, set_state, hst, TransportPc.waits] at h
  | start_stages rest =>
    rcases rest with _ | ⟨st, rest⟩
    · exact h.elim
    · simp only [action] at h
      split at h
      · exact h.elim
      · exact h.elim
  | once_want w | flow_send w | sub_compare w old size | start_tracker w =>
    rcases w with iob | _ | _
    all_goals
      simp only [action, send_failed, send_more, send_done] at h
      repeat' split at h
      all_goals exact h.elim
  | _ =>
    simp only [action] at h
    repeat' split at h
    all_goals exact h.elim

variable [DecidableEq ι]

/-- A function was entered, and the thread is not counted yet. -/
structure EnteredOutside (s s' : BaseTransport ι) : Prop where
  pcs : ∃ i pc, s'.pcs = Function.update s.pcs i pc ∧ s.pcs i = .idle ∧ pc.pending = 0 ∧
    ¬ pc.opens ∧ ¬ pc.waits
  state : s'.state = s.state
  opt_cnt : s'.pending_opt_cnt = s.pending_opt_cnt

theorem enteredOutside {s s₀ s' : BaseTransport ι} {i : ι} {pc : TransportPc}
    (h : s₀.enter i pc = some s') (hpcs : s₀.pcs = s.pcs) (hstate : s₀.state = s.state)
    (hcnt : s₀.pending_opt_cnt = s.pending_opt_cnt) (hpending : pc.pending = 0)
    (hopens : ¬ pc.opens) (hwaits : ¬ pc.waits) : EnteredOutside s s' := by
  obtain ⟨hidle, rfl⟩ := enter_eq h
  rw [hpcs] at hidle
  refine ⟨⟨i, pc, ?_, hidle, hpending, hopens, hwaits⟩, hstate, hcnt⟩
  rw [← hpcs]
  rfl

/-- **The steps.** A function is entered, or a thread takes its next step. -/
theorem step_outside {s s' : BaseTransport ι} {l : TransportLabel ι} (h : step k s l = some s') :
    EnteredOutside s s' ∨
      ∃ i ok n, l = .step i ok n ∧
        s' = (s.action k ok n (s.pcs i)).2.goto i (s.action k ok n (s.pcs i)).1 := by
  cases l with
  | start i valid mode sent_cb =>
    left
    cases valid
    · exact enteredOutside h rfl rfl rfl rfl id id
    · exact enteredOutside h rfl rfl rfl rfl id id
  | stop i => exact Or.inl (enteredOutside h rfl rfl rfl rfl id id)
  | force_stop i => exact Or.inl (enteredOutside h rfl rfl rfl rfl id id)
  | async_read i => exact Or.inl (enteredOutside h rfl rfl rfl rfl id id)
  | send i size copied =>
    simp only [step] at h
    split at h
    · left
      split at h
      · exact enteredOutside h rfl rfl rfl rfl id id
      · exact enteredOutside h rfl rfl rfl rfl id id
    · cases h
  | read_event i =>
    simp only [step] at h
    split at h
    · exact Or.inl (enteredOutside h rfl rfl rfl rfl id id)
    · cases h
  | send_event i =>
    simp only [step] at h
    split at h
    · exact Or.inl (enteredOutside h rfl rfl rfl rfl id id)
    · cases h
  | channel_event i ev =>
    simp only [step] at h
    split at h
    · left
      cases ev with
      | channel_event_disconnected => exact enteredOutside h rfl rfl rfl rfl id id
      | channel_event_buffer_sent iob => exact enteredOutside h rfl rfl rfl rfl id id
      | channel_event_read =>
        simp only at h
        split at h
        · exact enteredOutside h rfl rfl rfl rfl id id
        · exact enteredOutside h rfl rfl rfl rfl id id
    · cases h
  | step i ok n =>
    cases h
    exact Or.inr ⟨i, ok, n, rfl, rfl⟩

/-! ## Section 2: The gate -/

/-- The threads that are counted, and the one that waits. -/
structure GateInv (s : BaseTransport ι) : Prop where
  counted : ∃ n ≤ s.pending_opt_cnt, Total (fun i => (s.pcs i).pending) n
  closing : ∀ i, (s.pcs i).waits → s.state.closing
  unique : ∀ i j, (s.pcs i).waits → (s.pcs j).waits → i = j

omit [DecidableEq ι] in
theorem new_gateInv : GateInv (new : BaseTransport ι) :=
  ⟨⟨0, le_refl _, Total.start fun _ => rfl⟩, fun _ h => h.elim, fun _ _ h => h.elim⟩

/-- A stopped transport is not started again. -/
theorem Move.closing {pc pc' : TransportPc} {st st' : TransportState} (h : Move k pc st st' pc')
    (hclosing : st.closing) : st'.closing := by
  cases h with
  | event_stopped | channel_stopped => trivial
  | _ => exact hclosing.elim

omit [DecidableEq ι] in
theorem closing_of_action {s : BaseTransport ι} {ok : Bool} {n : Int} {pc : TransportPc}
    (h : s.state.closing) : (s.action k ok n pc).2.state.closing := by
  rcases action_state k s ok n pc with ⟨hstate, -⟩ | hmove
  · rw [hstate]
    exact h
  · exact hmove.closing h

/-- A step of thread `i` to `pc`, which is counted while it is pending. -/
theorem GateInv.keep {s s' : BaseTransport ι} {i : ι} {p : TransportPc} (h : GateInv s)
    (hpcs : s'.pcs = Function.update s.pcs i p)
    (hcnt : p.pending - (s.pcs i).pending ≤ s'.pending_opt_cnt - s.pending_opt_cnt)
    (hclosing : s.state.closing → s'.state.closing)
    (hwaits : p.waits → (s.pcs i).waits ∨ (¬ s.state.closing ∧ s'.state.closing)) :
    GateInv s' := by
  have hcases : ∀ j, (s'.pcs j).waits → (s.pcs j).waits ∨
      (j = i ∧ ¬ s.state.closing ∧ s'.state.closing) := by
    intro j hj
    rw [hpcs] at hj
    by_cases hji : j = i
    · rw [hji, Function.update_self] at hj
      rcases hwaits hj with hw | hw
      · left
        rw [hji]
        exact hw
      · exact Or.inr ⟨hji, hw⟩
    · rw [Function.update_of_ne hji] at hj
      exact Or.inl hj
  refine ⟨?_, ?_, ?_⟩
  · obtain ⟨m, hle, htotal⟩ := h.counted
    refine ⟨m - (s.pcs i).pending + p.pending, by omega, ?_⟩
    rw [hpcs]
    exact htotal.move i p
  · intro j hj
    rcases hcases j hj with hw | ⟨-, -, hst⟩
    · exact hclosing (h.closing j hw)
    · exact hst
  · intro j j' hj hj'
    rcases hcases j hj with hw | ⟨rfl, hnot, -⟩
    · rcases hcases j' hj' with hw' | ⟨-, hnot, -⟩
      · exact h.unique j j' hw hw'
      · exact absurd (h.closing j hw) hnot
    · rcases hcases j' hj' with hw' | ⟨rfl, -⟩
      · exact absurd (h.closing j' hw') hnot
      · rfl

theorem gateInv_step {s s' : BaseTransport ι} {l : TransportLabel ι} (hinv : GateInv s)
    (h : step k s l = some s') : GateInv s' := by
  rcases step_outside h with ⟨⟨i, pc, hpcs, hidle, hpending, -, hwaits⟩, hstate, hcnt⟩ |
    ⟨i, ok, n, -, rfl⟩
  · apply hinv.keep hpcs
    · rw [hidle, hpending, hcnt]
      show (0 : ℤ) - 0 ≤ _
      omega
    · rw [hstate]
      exact id
    · intro hw
      exact absurd hw hwaits
  · have hpcs := (action_recorded k s ok n (s.pcs i)).pcs
    apply hinv.keep (i := i) (p := (s.action k ok n (s.pcs i)).1)
    · show Function.update (s.action k ok n (s.pcs i)).2.pcs i _ = _
      rw [hpcs]
    · show _ ≤ (s.action k ok n (s.pcs i)).2.pending_opt_cnt - _
      have hle := pending_of_action k s ok n (s.pcs i)
      rw [action_opt_cnt]
      omega
    · exact closing_of_action
    · intro hw
      rcases waits_of_action k s ok n (s.pcs i) hw with hw | ⟨hst, hst'⟩
      · exact Or.inl hw
      · right
        refine ⟨?_, ?_⟩
        · rw [hst]
          exact id
        · show (s.action k ok n (s.pcs i)).2.state.closing
          rw [hst']
          trivial

theorem reachable_gateInv {ok : BaseTransport ι → TransportLabel ι → Prop} {s : BaseTransport ι}
    (h : Reachable (step k) ok new s) : GateInv s := by
  apply h.invariant
  · exact new_gateInv
  · intro s l s' hinv _ hstep
    exact gateInv_step hinv hstep

/-- The condition on a step: an `async_read` of a `tls_transport` that reads
    by loop does not come after `stop`, unless `stop` still waits. -/
def InTime (k : TransportKind) (s : BaseTransport ι) : TransportLabel ι → Prop
  | .step i _ _ =>
    s.pcs i = .read_opt → k = .tls → s.rmode = read_mode_loop → s.state.closing →
      ∃ j, (s.pcs j).waits
  | _ => True

instance [Fintype ι] (s : BaseTransport ι) : DecidablePred (InTime k s) := fun l => by
  cases l <;> unfold InTime <;> infer_instance

/-- The gate is closed. -/
structure Closed (s : BaseTransport ι) : Prop where
  closing : s.state.closing
  waits : ∀ i, ¬ (s.pcs i).waits
  opens : ∀ i, ¬ (s.pcs i).opens

theorem closed_step {s s' : BaseTransport ι} {l : TransportLabel ι} (hclosed : Closed s)
    (hok : InTime k s l) (h : step k s l = some s') : Closed s' := by
  -- the gate opens only in the started state, which is over
  have hnot : s.state ≠ state_started := by
    intro hst
    have hclosing := hclosed.closing
    rw [hst] at hclosing
    exact hclosing
  obtain ⟨i, pc, hpcs, hstate, hwaits, hopens⟩ : ∃ i pc, s'.pcs = Function.update s.pcs i pc ∧
      s'.state.closing ∧ ¬ pc.waits ∧ ¬ pc.opens := by
    rcases step_outside h with ⟨⟨i, pc, hpcs, -, -, hopens, hwaits⟩, hstate, -⟩ |
      ⟨i, ok, n, rfl, rfl⟩
    · refine ⟨i, pc, hpcs, ?_, hwaits, hopens⟩
      rw [hstate]
      exact hclosed.closing
    · refine ⟨i, (s.action k ok n (s.pcs i)).1, ?_, closing_of_action hclosed.closing, ?_, ?_⟩
      · show Function.update (s.action k ok n (s.pcs i)).2.pcs i _ = _
        rw [(action_recorded k s ok n (s.pcs i)).pcs]
      · intro hw
        rcases waits_of_action k s ok n (s.pcs i) hw with hw | ⟨hst, -⟩
        · exact hclosed.waits i hw
        · exact hnot hst
      · intro ho
        rcases opens_of_action k s ok n (s.pcs i) ho with ho | hst | ⟨hpc, hk, hloop⟩
        · exact hclosed.opens i ho
        · exact hnot hst
        · -- nobody waits for this call
          obtain ⟨j, hj⟩ := hok hpc hk hloop hclosed.closing
          exact hclosed.waits j hj
  refine ⟨hstate, ?_, ?_⟩
  · rw [hpcs, Function.forall_update_iff s.pcs fun _ p => ¬ p.waits]
    exact ⟨hwaits, fun j _ => hclosed.waits j⟩
  · rw [hpcs, Function.forall_update_iff s.pcs fun _ p => ¬ p.opens]
    exact ⟨hopens, fun j _ => hclosed.opens j⟩

/-- The gate closes with the step in which the thread stops waiting. -/
theorem closed_of_left {s s' : BaseTransport ι} {i : ι} {ok : Bool} {n : Int} (hinv : GateInv s)
    (hwaits : (s.pcs i).waits) (h : step k s (.step i ok n) = some s')
    (hleft : ¬ (s'.pcs i).waits) : Closed s' := by
  obtain ⟨force, hpc⟩ : ∃ force, s.pcs i = .stop_wait force := by
    rcases hpc : s.pcs i with _ | _
    case stop_wait force => exact ⟨force, rfl⟩
    all_goals
      rw [hpc] at hwaits
      exact hwaits.elim
  obtain ⟨pc, hpcs, hstate, hself⟩ : ∃ pc, s'.pcs = Function.update s.pcs i pc ∧
      s'.state = s.state ∧ pc = (s.action k ok n (.stop_wait force)).1 := by
    cases h
    rw [hpc]
    exact ⟨_, rfl, rfl, rfl⟩
  have hi : s'.pcs i = pc := by
    rw [hpcs, Function.update_self]
  rw [hi] at hleft
  -- a thread leaves the wait only when nothing is pending
  have hzero : s.pending_opt_cnt = 0 := by
    by_contra hne
    apply hleft
    rw [hself]
    simp only [action, if_pos hne]
    trivial
  obtain ⟨m, hle, htotal⟩ := hinv.counted
  have hothers : ∀ j, j ≠ i → s'.pcs j = s.pcs j := by
    intro j hji
    rw [hpcs, Function.update_of_ne hji]
  refine ⟨?_, ?_, ?_⟩
  · rw [hstate]
    exact hinv.closing i hwaits
  · intro j hj
    by_cases hji : j = i
    · rw [hji, hi] at hj
      exact hleft hj
    · rw [hothers j hji] at hj
      exact hji (hinv.unique j i hj hwaits)
  · intro j hj
    by_cases hji : j = i
    · rw [hji, hi, hself] at hj
      simp only [action] at hj
      repeat' split at hj
      all_goals exact hj
    · -- nobody is counted
      rw [hothers j hji] at hj
      have hone := TransportPc.pending_of_opens hj
      have hpending := htotal.le (fun j => (s.pcs j).pending_nonneg) j
      omega

/-- **The gate.** Once `stop` or `force_stop` has left its wait, no `send`
    enqueues a buffer and no `async_read` changes the read state or arms the
    read tracker, in every run in which a `tls_transport` that reads by loop
    counts its `async_read` in time. -/
theorem stop_closes_gate {s s₁ s' : BaseTransport ι} {i : ι} {ok : Bool} {n : Int}
    (h : Reachable (step k) (InTime k) new s) (hwaits : (s.pcs i).waits)
    (hstep : step k s (.step i ok n) = some s₁) (hleft : ¬ (s₁.pcs i).waits)
    (hrun : Reachable (step k) (InTime k) s₁ s') : ∀ j, ¬ (s'.pcs j).opens := by
  have hclosed : Closed s' := by
    apply hrun.invariant
    · exact closed_of_left (reachable_gateInv h) hwaits hstep hleft
    · intro s l s' hclosed hok hstep
      exact closed_step hclosed hok hstep
  exact hclosed.opens

/-- Thread 1 begins to read, and thread 0 has begun to stop the transport. -/
def stopping_labels (k : TransportKind) (mode : ReadMode) : List (TransportLabel (Fin 2)) :=
  started_labels 0 k mode false ++
    [TransportLabel.async_read 1, .step 1 true 0, .stop 0] ++
    List.replicate 2 (TransportLabel.step 0 true 0)

/-- Thread 1 is too late. -/
theorem stop_closes_gate_tcp :
    ∃ s s₁ s' : BaseTransport (Fin 2),
      exec (step .tcp) new (stopping_labels .tcp read_mode_loop) = some s ∧
      step .tcp s (.step 0 true 0) = some s₁ ∧
      exec (step .tcp) s₁ (List.replicate 4 (.step 1 true 0)) = some s' ∧
      (s'.pcs 1 = .idle ∧ s'.rstate = .read_none) ∧ ∀ j, ¬ (s'.pcs j).opens := by
  have hrun : (exec (step .tcp) new (stopping_labels .tcp read_mode_loop)).bind (fun s =>
      (step .tcp s (.step 0 true 0)).bind fun s₁ =>
        (exec (step .tcp) s₁ (List.replicate 4 (.step 1 true 0))).map fun s' =>
          (decide (s.pcs 0).waits, decide (s₁.pcs 0).waits, s'.pcs 1, s'.rstate)) =
      some (true, false, .idle, .read_none) := by
    decide
  obtain ⟨s, hexec, hrest⟩ := Option.bind_eq_some_iff.mp hrun
  obtain ⟨s₁, hstep, hrest⟩ := Option.bind_eq_some_iff.mp hrest
  obtain ⟨s', hexec', hs⟩ := Option.map_eq_some_iff.mp hrest
  simp only [Prod.mk.injEq, decide_eq_true_eq, decide_eq_false_iff_not] at hs
  obtain ⟨hwaits, hleft, hpc, hrstate⟩ := hs
  have hok : ∀ (s : BaseTransport (Fin 2)) l, AnyStep s l → InTime .tcp s l := by
    intro s l _
    cases l with
    | step i ok n =>
      intro _ hk
      cases hk
    | _ => trivial
  refine ⟨s, s₁, s', hexec, hstep, hexec', ⟨hpc, hrstate⟩, ?_⟩
  exact stop_closes_gate ((Reachable.of_exec hexec (meets_anyStep _ _ _)).mono hok) hwaits hstep
    hleft ((Reachable.of_exec hexec' (meets_anyStep _ _ _)).mono hok)

/-- A `tls_transport` that reads by loop arms the read tracker after it was
    stopped. -/
theorem not_stop_closes_gate :
    ¬ ∀ (k : TransportKind) (s s₁ s' : BaseTransport (Fin 2)) (i : Fin 2) (ok : Bool) (n : Int),
      Reachable (step k) AnyStep new s → (s.pcs i).waits → step k s (.step i ok n) = some s₁ →
      ¬ (s₁.pcs i).waits → Reachable (step k) AnyStep s₁ s' → ∀ j, ¬ (s'.pcs j).opens := by
  intro hall
  have hrun : (exec (step .tls) new (stopping_labels .tls read_mode_loop)).bind (fun s =>
      (step .tls s (.step 0 true 0)).bind fun s₁ =>
        (exec (step .tls) s₁ (List.replicate 2 (.step 1 true 0))).map fun s' =>
          (decide (s.pcs 0).waits, decide (s₁.pcs 0).waits, decide (s'.pcs 1).opens)) =
      some (true, false, true) := by
    decide
  obtain ⟨s, hexec, hrest⟩ := Option.bind_eq_some_iff.mp hrun
  obtain ⟨s₁, hstep, hrest⟩ := Option.bind_eq_some_iff.mp hrest
  obtain ⟨s', hexec', hs⟩ := Option.map_eq_some_iff.mp hrest
  simp only [Prod.mk.injEq, decide_eq_true_eq, decide_eq_false_iff_not] at hs
  obtain ⟨hwaits, hleft, hopens⟩ := hs
  exact hall .tls s s₁ s' 0 true 0 (.of_exec hexec (meets_anyStep _ _ _)) hwaits hstep hleft
    (.of_exec hexec' (meets_anyStep _ _ _)) 1 hopens

end BaseTransport

end Pump
