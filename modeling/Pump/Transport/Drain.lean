import Pump.Transport.Gate
import Pump.Transport.SingleSender

/-! # A graceful stop

    `stop` does not shut the transport down while bytes are pending: it leaves
    that to the poller, which exchanges the state to `state_stopped` after the
    last of them. Once the gate is closed nothing is added, so the first to
    see `pending_send_size_` at zero sees the end. The poller does not read it
    again: it goes by the subtraction it has made. -/

namespace Pump

open TransportState ErrorCode ReadMode Tracker ChannelEvent
open M2m (Op Ops Slot Turn)

namespace TransportPc

/-- The thread has passed the second look at the state in `send`, and its
    buffer is not counted. -/
def adds : TransportPc → Prop
  | .send_create _ | .send_push _ _ | .send_add _ => True
  | _ => False

/-- Where no thread is while nothing fails, nobody reads and `force_stop` is
    not called. -/
def astray : TransportPc → Prop
  | .stop_loop force | .stop_started force | .stop_wait force => force = true
  | .send_disconnecting _ | .send_post _ | .event_disconnecting | .event_disconnected
  | .data_wait | .data_read | .data_change _ | .data_start _ | .data_call _ _
  | .data_disconnecting | .data_disconnected => True
  | _ => False

/-- The thread is about to shut the transport down or to call `stopped_cb`
    after that. -/
def concludes : TransportPc → Prop
  | .stop_post | .channel_disconnected | .channel_stopped => True
  | .call c => c = .stopped_cb
  | _ => False

instance : DecidablePred adds := fun p => by
  apply TransportPc.casesOn (motive := fun p => Decidable (adds p)) p <;> intros <;>
    unfold adds <;> infer_instance

theorem pending_of_adds {p : TransportPc} (h : p.adds) : p.pending = 1 := by
  cases p with
  | send_create | send_push | send_add => rfl
  | _ => exact h.elim

end TransportPc

namespace BaseTransport

variable {ι : Type} {k : TransportKind} {s s' : BaseTransport ι} {i : ι} {p : TransportPc}

/-! ## Section 1: What every step keeps -/

theorem adds_of_action (s : BaseTransport ι) (ok : Bool) (n : Int)
    (h : (s.action k ok n p).1.adds) : p.adds ∨ s.state = state_started := by
  cases p with
  | send_create | send_push | send_add => exact Or.inl trivial
  | send_started iob copied =>
    -- the second look at the state
    simp only [action] at h
    split at h
    · exact h.elim
    · next hst => exact Or.inr (not_not.mp hst)
  | start_stages rest =>
    rcases rest with _ | ⟨st, rest⟩
    · exact h.elim
    · simp only [action] at h
      split at h
      · exact h.elim
      · exact h.elim
  | once_want w | flow_send w | sub_compare w old size | start_tracker w =>
    rcases w with iob | _ | _
    all_goals
      simp only [action, send_failed, send_more, send_done] at h
      repeat' split at h
      all_goals exact h.elim
  | _ =>
    simp only [action] at h
    repeat' split at h
    all_goals exact h.elim

/-- A buffer is taken where it is counted. -/
theorem taken_of_action (s : BaseTransport ι) (ok : Bool) (n : Int) {v : Nat}
    (h : (s.action k ok n p).1.taken = some v) : p.taken = some v ∨ p.adds := by
  cases p with
  | send_create | send_push | send_add => exact Or.inr trivial
  | once w | once_pop w op | once_size w | once_want w | flow_send w | handle_sent w
  | handle_clear w | sub_size w | sub w size | sub_compare w old size | start_tracker w =>
    -- the thread sends on for the same call, or returns to it
    left
    rcases w with iob | _ | _
    all_goals
      simp only [action, send_failed, send_more, send_done] at h
      repeat' split at h
      all_goals
        first
        | exact h
        | cases h
  | send_sub iob ec =>
    left
    cases ec <;> exact h
  | start_stages rest =>
    rcases rest with _ | ⟨st, rest⟩
    · cases h
    · simp only [action] at h
      split at h
      · cases h
      · cases h
  | _ =>
    simp only [action] at h
    repeat' split at h
    all_goals cases h

/-- A buffer only gets shorter. -/
theorem size_of_action (s : BaseTransport ι) (ok : Bool) (n : Int) (p : TransportPc) (v : Nat) :
    (s.action k ok n p).2.iob_size v ≤ s.iob_size v := by
  have hqueue := s.sendlist_step_frame (P := fun s' => s'.iob_size = s.iob_size)
    (fun _ _ => rfl) ok
  rcases action_sends k s ok n p with howns | ⟨iob, op, rfl⟩ | ⟨iob, rfl⟩ | ⟨w, old, size, rfl⟩ |
    ⟨hsame, -⟩
  · cases p with
    | flow_send w =>
      simp only [action]
      split
      · exact le_refl _
      · next iob _ =>
        show (s.flow_send iob n).2.iob_size v ≤ _
        unfold flow_send
        split
        · exact le_refl _
        · split
          · exact le_refl _
          · -- what is left of the buffer
            have hleft : Function.update s.iob_size iob (s.iob_size iob - n.toNat) v ≤
                s.iob_size v := by
              by_cases hv : v = iob
              · rw [hv, Function.update_self]
                exact Nat.sub_le _ _
              · rw [Function.update_of_ne hv]
            simp only
            split
            · exact hleft
            · exact hleft
    | once_pop w op =>
      simp only [action]
      rw [hqueue]
    | handle_sent w =>
      simp only [action]
      split
      · exact le_refl _
      · split
        · exact s.post_channel_event_frame (P := fun s' => s'.iob_size v ≤ s.iob_size v)
            (fun _ => le_refl _) ok _
        · exact le_refl _
    | once_size w | once_want w =>
      simp only [action]
      split
      · exact le_refl _
      · exact le_refl _
    | sub_compare | once | handle_clear | sub_size | sub | start_tracker | event_last =>
      exact le_refl _
    | _ => exact howns.elim
  · simp only [action]
    rw [hqueue]
  · exact le_refl _
  · exact le_refl _
  · rw [hsame.iob_size]

/-- What a step of thread `i` to `p` keeps: a transport that is stopped stays
    so, and takes no buffer that was not on its way. -/
structure Onward (s : BaseTransport ι) (i : ι) (p : TransportPc) (s' : BaseTransport ι) : Prop where
  closing : s.state.closing → s'.state.closing
  adds : p.adds → (s.pcs i).adds ∨ s.state = state_started
  taken : ∀ v, p.taken = some v → (s.pcs i).taken = some v ∨ (s.pcs i).adds
  results : s'.results = s.results ++ (s.pcs i).returned
  size : ∀ v, v < s.iobs → s'.iob_size v ≤ s.iob_size v

theorem action_onward (s : BaseTransport ι) (i : ι) (ok : Bool) (n : Int) :
    Onward s i (s.action k ok n (s.pcs i)).1 (s.action k ok n (s.pcs i)).2 :=
  ⟨closing_of_action, adds_of_action s ok n, fun _ => taken_of_action s ok n,
    (action_recorded k s ok n (s.pcs i)).results, fun v _ => size_of_action s ok n (s.pcs i) v⟩

variable [DecidableEq ι]

theorem step_onward {l : TransportLabel ι} (h : step k s l = some s') :
    ∃ i p, s'.pcs = Function.update s.pcs i p ∧ Onward s i p s' := by
  have hkeep : ∀ {s₀ : BaseTransport ι} {i p}, s₀.enter i p = some s' → s₀.pcs = s.pcs →
      s₀.state = s.state → s₀.results = s.results →
      (∀ v, v < s.iobs → s₀.iob_size v ≤ s.iob_size v) → ¬ p.adds → p.taken = none →
      ∃ i p, s'.pcs = Function.update s.pcs i p ∧ Onward s i p s' := by
    intro s₀ i p henter hpcs hstate hresults hsize hadds htaken
    obtain ⟨hidle, rfl⟩ := enter_eq henter
    rw [hpcs] at hidle
    refine ⟨i, p, ?_, ?_, fun hp => absurd hp hadds, ?_, ?_, hsize⟩
    · rw [← hpcs]
      rfl
    · intro hclosing
      show s₀.state.closing
      rw [hstate]
      exact hclosing
    · intro v hv
      rw [htaken] at hv
      cases hv
    · rw [hidle]
      exact hresults.trans (List.append_nil _).symm
  have hsame : ∀ v, v < s.iobs → s.iob_size v ≤ s.iob_size v := fun v _ => le_refl _
  cases l with
  | start i valid mode sent_cb =>
    cases valid
    · exact hkeep h rfl rfl rfl hsame id rfl
    · exact hkeep h rfl rfl rfl hsame id rfl
  | stop i | force_stop i | async_read i => exact hkeep h rfl rfl rfl hsame id rfl
  | send i size copied =>
    simp only [step] at h
    split at h
    · -- the new buffer is none of those that there are
      have hsize : ∀ v, v < s.iobs →
          Function.update s.iob_size s.iobs size v ≤ s.iob_size v := by
        intro v hv
        rw [Function.update_of_ne hv.ne]
      split at h
      · exact hkeep h rfl rfl rfl hsize id rfl
      · exact hkeep h rfl rfl rfl hsize id rfl
    · cases h
  | read_event i | send_event i =>
    simp only [step] at h
    split at h
    · exact hkeep h rfl rfl rfl hsame id rfl
    · cases h
  | channel_event i ev =>
    simp only [step] at h
    split at h
    · cases ev with
      | channel_event_disconnected | channel_event_buffer_sent =>
        exact hkeep h rfl rfl rfl hsame id rfl
      | channel_event_read =>
        simp only at h
        split at h
        · exact hkeep h rfl rfl rfl hsame id rfl
        · exact hkeep h rfl rfl rfl hsame id rfl
    · cases h
  | step i ok n =>
    cases h
    have honward := action_onward (k := k) s i ok n
    refine ⟨i, (s.action k ok n (s.pcs i)).1, ?_, honward.closing, honward.adds, honward.taken,
      honward.results, honward.size⟩
    show Function.update (s.action k ok n (s.pcs i)).2.pcs i _ = _
    rw [(action_recorded k s ok n (s.pcs i)).pcs]

/-! ## Section 2: The end of what is sent -/

/-- The transport is stopped, and no buffer is on its way into the list. -/
structure Shut (s : BaseTransport ι) : Prop where
  closing : s.state.closing
  adds : ∀ i, ¬ (s.pcs i).adds

/-- Everything that `send` has taken is sent, for good. -/
structure Done (s : BaseTransport ι) : Prop where
  shut : Shut s
  sent : ∀ v, s.Taken v → s.iob_size v = 0

theorem shut_step {l : TransportLabel ι} (h : Shut s) (hstep : step k s l = some s') : Shut s' := by
  obtain ⟨i, p, hpcs, honward⟩ := step_onward hstep
  refine ⟨honward.closing h.closing, ?_⟩
  intro j hj
  rcases Stock.pcs_cases hpcs j with ⟨-, hpcj⟩ | ⟨-, hpcj⟩
  · rw [hpcj] at hj
    rcases honward.adds hj with hadds | hstarted
    · exact h.adds i hadds
    · -- the second look has found the state that it is not
      have hclosing := h.closing
      rw [hstarted] at hclosing
      exact hclosing
  · rw [hpcj] at hj
    exact h.adds j hj

omit [DecidableEq ι] in
theorem returned_taken {v : Nat} (h : (v, error_none) ∈ p.returned) : p.taken = some v := by
  cases p with
  | send_return iob ec =>
    cases List.mem_singleton.mp h
    rfl
  | _ => cases h

theorem done_step {l : TransportLabel ι} (hinv : SendInv s) (h : Done s)
    (hstep : step k s l = some s') : Done s' := by
  refine ⟨shut_step h.shut hstep, ?_⟩
  obtain ⟨i, p, hpcs, honward⟩ := step_onward hstep
  -- nothing is taken any more, and what was taken stays sent
  have htaken : ∀ v, s'.Taken v → s.Taken v := by
    intro v hv
    rcases hv with hv | ⟨j, hv⟩
    · rw [honward.results, List.mem_append] at hv
      rcases hv with hv | hv
      · exact Or.inl hv
      · exact Or.inr ⟨i, returned_taken hv⟩
    · rcases Stock.pcs_cases hpcs j with ⟨-, hpcj⟩ | ⟨-, hpcj⟩
      · rw [hpcj] at hv
        rcases honward.taken v hv with hv | hadds
        · exact Or.inr ⟨i, hv⟩
        · exact absurd hadds (h.shut.adds i)
      · rw [hpcj] at hv
        exact Or.inr ⟨j, hv⟩
  intro v hv
  have hv' := htaken v hv
  obtain ⟨slots, free, reads, counted, flight, lost, -, hr⟩ := hinv
  have hlt := (hr.account v hv').1
  have hzero := h.sent v hv'
  have hle := honward.size v hlt
  omega

omit [DecidableEq ι] in
/-- Where nothing is pending, nothing that was taken is unsent. -/
theorem sent_of_pending (h : SendInv s) (hzero : s.pending_send_size = 0) {v : Nat}
    (hv : s.Taken v) : s.iob_size v = 0 := by
  obtain ⟨slots, free, reads, counted, flight, lost, -, hr⟩ := h
  have hload := hr.pending
  rw [hzero] at hload
  -- the counter is what is counted and in flight, and each part is zero
  have hnothing : s.load counted flight = 0 := by
    have h0 : (0 : BitVec 32).toInt = 0 := by decide
    rw [h0] at hload
    omega
  unfold load at hnothing
  rcases (hr.account v hv).2 with hcounted | ⟨hpos, -⟩ | hsent
  · have hle := Finset.single_le_sum (f := s.iob_size) (fun _ _ => Nat.zero_le _) hcounted
    omega
  · omega
  · exact hsent

/-! ## Section 3: Every run -/

def PcGraceful (ok : Bool) (n : Int) : TransportPc → Prop
  | .flow_send _ => n ≠ 0
  | .start_tracker _ => ok = true
  | _ => True

/-- Nobody reads or calls `force_stop`, no send of the flow reports
    `error_fault` and no send tracker fails to start in the system. -/
def Graceful (s : BaseTransport ι) : TransportLabel ι → Prop
  | .force_stop _ | .async_read _ | .read_event _ => False
  | .step i ok n => PcGraceful ok n (s.pcs i)
  | _ => True

/-- The condition on a step: where the poller exchanges `state_stopping`,
    nothing is pending and no `send` is on its way. -/
def Emptied (s : BaseTransport ι) : TransportLabel ι → Prop
  | .step i _ _ => s.pcs i = .event_stopped → s.state = state_stopping →
    s.pending_send_size = 0 ∧ ∀ j, ¬ (s.pcs j).adds
  | _ => True

instance (ok : Bool) (n : Int) : DecidablePred (PcGraceful ok n) := fun p => by
  apply TransportPc.casesOn (motive := fun p => Decidable (PcGraceful ok n p)) p <;> intros <;>
    unfold PcGraceful <;> infer_instance

instance (s : BaseTransport ι) : DecidablePred s.Graceful := fun l => by
  apply TransportLabel.casesOn (motive := fun l => Decidable (s.Graceful l)) l <;> intros <;>
    unfold Graceful <;> infer_instance

instance [Fintype ι] (s : BaseTransport ι) : DecidablePred s.Emptied := fun l => by
  apply TransportLabel.casesOn (motive := fun l => Decidable (s.Emptied l)) l <;> intros <;>
    unfold Emptied <;> infer_instance

/-- No buffer that `send` has taken is unsent where `stop` shuts the transport
    down at once, or where `stopped_cb` was called. -/
structure Drained (s : BaseTransport ι) : Prop where
  shutdown : ∀ i, s.pcs i = .stop_post → ∀ v, s.Taken v → s.iob_size v = 0
  stopped : .stopped_cb ∈ s.calls → ∀ v, s.Taken v → s.iob_size v = 0

/-- The transport is shut down, or will be without another look at what is
    pending. -/
def Concluded (s : BaseTransport ι) : Prop :=
  (∃ i, (s.pcs i).concludes) ∨ channel_event_disconnected ∈ s.posted ∨ .stopped_cb ∈ s.calls

structure Draining (s : BaseTransport ι) : Prop where
  astray : ∀ i, ¬ (s.pcs i).astray
  tracker : s.s_tracker ≠ tracker_failed
  shut : ∀ i, s.pcs i = .stop_pending → Shut s
  done : Concluded s → Done s

omit [DecidableEq ι] in
theorem new_draining : Draining (new : BaseTransport ι) := by
  refine ⟨fun _ => id, nofun, nofun, ?_⟩
  rintro (⟨i, hi⟩ | hposted | hcalls)
  · exact hi.elim
  · cases hposted
  · cases hcalls

omit [DecidableEq ι] in
/-- The send tracker fails only in the system. -/
theorem tracker_of_action (ok : Bool) (n : Int) (h : s.s_tracker ≠ tracker_failed)
    (hgraceful : PcGraceful ok n p) : (s.action .tcp ok n p).2.s_tracker ≠ tracker_failed := by
  have hqueue := s.sendlist_step_frame (P := fun s' => s'.s_tracker ≠ tracker_failed)
    (fun _ _ => h) ok
  rcases action_sends .tcp s ok n p with howns | ⟨iob, op, rfl⟩ | ⟨iob, rfl⟩ | ⟨w, old, size, rfl⟩ |
    ⟨hsame, -⟩
  · cases p with
    | start_tracker w =>
      have hok : ok = true := hgraceful
      show (Tracker.start s.s_tracker ok).2 ≠ tracker_failed
      rw [hok]
      unfold Tracker.start
      split
      · nofun
      · exact h
    | flow_send w =>
      simp only [action]
      split
      · exact h
      · exact s.flow_send_frame (P := fun s' => s'.s_tracker ≠ tracker_failed) (fun _ _ => h) n _
    | once_pop w op => exact hqueue op
    | handle_sent w =>
      simp only [action]
      split
      · exact h
      · split
        · exact s.post_channel_event_frame (P := fun s' => s'.s_tracker ≠ tracker_failed)
            (fun _ => h) ok _
        · exact h
    | once_size w | once_want w =>
      simp only [action]
      split
      · exact h
      · exact h
    | sub_compare | once | handle_clear | sub_size | sub | event_last => exact h
    | _ => exact howns.elim
  · exact hqueue op
  · exact h
  · exact h
  · rw [hsame.s_tracker]
    exact h

omit [DecidableEq ι] in
theorem flow_send_reports (s : BaseTransport ι) (iob : Nat) {n : Int} (hn : n ≠ 0) :
    (s.flow_send iob n).1 = error_none ∨ (s.flow_send iob n).1 = error_again := by
  unfold flow_send
  rw [if_neg hn]
  split
  · exact Or.inr rfl
  · simp only
    split
    · exact Or.inl rfl
    · exact Or.inr rfl

omit [DecidableEq ι] in
theorem not_astray_of_action (hinv : SendInv s) (htracker : s.s_tracker ≠ tracker_failed)
    (ok : Bool) (n : Int) (h : ¬ (s.pcs i).astray) (hgraceful : PcGraceful ok n (s.pcs i)) :
    ¬ (s.action .tcp ok n (s.pcs i)).1.astray := by
  obtain ⟨slots, free, reads, counted, flight, lost, -, hr⟩ := id hinv
  -- the invariant of the senders and the graceful steps leave no way to fail
  cases hp : s.pcs i with
  | once_want w =>
    obtain ⟨-, hsend, ⟨v, hlast⟩, -⟩ := phase_at hr hp trivial
    have hwanted : ¬ (s.last_send_iob = none ∨ s.send_iob ≠ none) := by
      rw [hlast, hsend]
      simp
    simp only [action, if_neg hwanted]
    exact id
  | flow_send w =>
    obtain ⟨-, v, -, hsend, -⟩ := phase_at hr hp trivial
    rw [hp] at hgraceful
    rcases flow_send_reports s v hgraceful with hec | hec
    · simp only [action, hsend, hec]
      exact id
    · simp only [action, hsend, hec]
      exact id
  | start_tracker w =>
    obtain ⟨hi, -⟩ := phase_at hr hp trivial
    rw [hp] at hgraceful
    have hok : ok = true := hgraceful
    have hidle : s.s_tracker = tracker_idle := by
      have hnot := (hr.not_down hi).1
      cases ht : s.s_tracker with
      | tracker_idle => rfl
      | tracker_tracking => exact absurd ht hnot
      | tracker_failed => exact absurd ht htracker
    have hstart : (s.start_send_tracker ok).1 = true := by
      unfold start_send_tracker Tracker.start
      rw [hidle, hok]
      rfl
    simp only [action, hstart, if_true]
    rcases w with iob | _ | _
    · exact id
    · exact id
    · exact id
  | stop_loop force | stop_started force | stop_wait force =>
    rw [hp] at h
    simp only [action]
    repeat' split
    all_goals
      first
      | exact id
      | exact h
  | sub_compare w old size =>
    rcases w with iob | _ | _
    all_goals
      simp only [action, send_more, send_done]
      split
      · exact id
      · exact id
  | start_stages rest =>
    rcases rest with _ | ⟨st, rest⟩
    · exact id
    · simp only [action]
      split
      · exact id
      · exact id
  | send_disconnecting | send_post | event_disconnecting | event_disconnected | data_wait
  | data_read | data_change | data_start | data_call | data_disconnecting | data_disconnected =>
    rw [hp] at h
    exact absurd trivial h
  | _ =>
    simp only [action]
    repeat' split
    all_goals exact id

omit [DecidableEq ι] in
theorem mem_post {s : BaseTransport ι} {ok : Bool} {ev : ChannelEvent}
    (h : channel_event_disconnected ∈ (s.post_channel_event ok ev).posted) :
    ev = channel_event_disconnected ∨ channel_event_disconnected ∈ s.posted := by
  unfold post_channel_event at h
  split at h
  · rcases List.mem_append.mp h with h | h
    · exact Or.inr h
    · exact Or.inl (List.mem_singleton.mp h).symm
  · exact Or.inr h

omit [DecidableEq ι] in
theorem posted_of_action (ok : Bool) (n : Int) (h : ¬ p.astray)
    (hposted : channel_event_disconnected ∈ (s.action .tcp ok n p).2.posted) :
    p.concludes ∨ channel_event_disconnected ∈ s.posted := by
  have hset := s.set_state_frame (P := fun s' => s'.posted = s.posted) fun _ => rfl
  have hread := s.change_read_state_frame (P := fun s' => s'.posted = s.posted) fun _ => rfl
  have hflow := s.flow_send_frame (P := fun s' => s'.posted = s.posted) (fun _ _ => rfl) n
  have hqueue := s.sendlist_step_frame (P := fun s' => s'.posted = s.posted)
    (fun _ _ => rfl) ok
  -- only `stop` and a failed send post it
  cases p with
  | stop_post => exact Or.inl trivial
  | send_post => exact absurd trivial h
  | read_post =>
    rcases mem_post hposted with hev | hmem
    · cases hev
    · exact Or.inr hmem
  | handle_sent w =>
    right
    simp only [action] at hposted
    split at hposted
    · exact hposted
    · split at hposted
      · rcases mem_post hposted with hev | hmem
        · cases hev
        · exact hmem
      · exact hposted
  | start_state | once_size | once_want | flow_send =>
    right
    simp only [action] at hposted
    split at hposted
    all_goals
      first
      | exact hposted
      | rw [hset] at hposted
        exact hposted
      | rw [hflow] at hposted
        exact hposted
  | start_stages rest =>
    right
    rcases rest with _ | ⟨st, rest⟩
    · exact hposted
    · exact hposted
  | _ =>
    right
    simp only [action, hset, hread, hqueue] at hposted
    exact hposted

omit [DecidableEq ι] in
/-- The first to conclude has found nothing pending, or is the poller. -/
theorem concludes_of_action (ok : Bool) (n : Int) (h : ¬ p.astray)
    (hpc : (s.action .tcp ok n p).1.concludes) :
    p.concludes ∨ (p = .stop_pending ∧ s.pending_send_size = 0) ∨
      (p = .event_stopped ∧ s.state = state_stopping) := by
  cases p with
  | channel_disconnected | channel_stopped => exact Or.inl trivial
  | stop_pending =>
    simp only [action] at hpc
    split at hpc
    · next hzero => exact Or.inr (Or.inl ⟨rfl, hzero⟩)
    · exact hpc.elim
  | event_stopped =>
    -- the poller does not look at what is pending
    simp only [action, set_state] at hpc
    split at hpc
    · next hstopping => exact Or.inr (Or.inr ⟨rfl, hstopping⟩)
    · exact hpc.elim
  | stop_wait force =>
    have hforce : ¬ force = true := h
    simp only [action, if_neg hforce] at hpc
    split at hpc
    · exact hpc.elim
    · exact hpc.elim
  | send_disconnecting | send_post | event_disconnecting | event_disconnected | data_wait
  | data_read | data_change | data_start | data_call | data_disconnecting | data_disconnected =>
    exact absurd trivial h
  | once_want w | flow_send w | sub_compare w old size | start_tracker w =>
    rcases w with iob | _ | _
    all_goals
      simp only [action, send_failed, send_more, send_done] at hpc
      repeat' split at hpc
      all_goals exact hpc.elim
  | start_stages rest =>
    rcases rest with _ | ⟨st, rest⟩
    · exact hpc.elim
    · simp only [action] at hpc
      split at hpc
      · exact hpc.elim
      · exact hpc.elim
  | _ =>
    simp only [action] at hpc
    repeat' split at hpc
    all_goals exact hpc.elim

omit [DecidableEq ι] in
/-- What is called next was due. -/
theorem stopped_of_called (h : .stopped_cb ∈ p.called) : p.concludes := by
  cases p with
  | call c => exact (List.mem_singleton.mp h).symm
  | data_call size disconnected => cases List.mem_singleton.mp h
  | _ => cases h

/-- Nobody is counted where the wait in `stop` ends. -/
theorem shut_of_action (hgate : GateInv s) (ok : Bool) (n : Int)
    (hpc : (s.action .tcp ok n (s.pcs i)).1 = .stop_pending) : Shut s := by
  have hwait : ∃ force, s.pcs i = .stop_wait force ∧ s.pending_opt_cnt = 0 := by
    cases hp : s.pcs i with
    | stop_wait force =>
      rw [hp] at hpc
      simp only [action] at hpc
      split at hpc
      · cases hpc
      · next hzero => exact ⟨force, rfl, not_not.mp hzero⟩
    | once_want w | flow_send w | sub_compare w old size | start_tracker w =>
      rw [hp] at hpc
      rcases w with iob | _ | _
      all_goals
        simp only [action, send_failed, send_more, send_done] at hpc
        repeat' split at hpc
        all_goals cases hpc
    | start_stages rest =>
      rw [hp] at hpc
      rcases rest with _ | ⟨st, rest⟩
      · cases hpc
      · simp only [action] at hpc
        split at hpc
        · cases hpc
        · cases hpc
    | _ =>
      rw [hp] at hpc
      simp only [action] at hpc
      repeat' split at hpc
      all_goals cases hpc
  obtain ⟨force, hp, hzero⟩ := hwait
  -- a thread that adds is counted, and the count is zero
  constructor
  · apply hgate.closing i
    rw [hp]
    trivial
  · intro j hj
    obtain ⟨m, hle, htotal⟩ := hgate.counted
    have hone := TransportPc.pending_of_adds hj
    have hpending := htotal.le (fun j => (s.pcs j).pending_nonneg) j
    omega

theorem Draining.next (h : Draining s) (hinv : SendInv s) {l : TransportLabel ι}
    (hstep : step .tcp s l = some s') (hpcs : s'.pcs = Function.update s.pcs i p)
    (hastray : ¬ p.astray) (htracker : s'.s_tracker ≠ tracker_failed)
    (hshut : p = .stop_pending → Shut s)
    (hdone : p.concludes ∨ channel_event_disconnected ∈ s'.posted ∨ .stopped_cb ∈ s'.calls →
      Done s) : Draining s' := by
  refine ⟨?_, htracker, ?_, ?_⟩
  · intro j
    rcases Stock.pcs_cases hpcs j with ⟨-, hpcj⟩ | ⟨-, hpcj⟩
    · rw [hpcj]
      exact hastray
    · rw [hpcj]
      exact h.astray j
  · intro j hj
    apply shut_step _ hstep
    rcases Stock.pcs_cases hpcs j with ⟨-, hpcj⟩ | ⟨-, hpcj⟩
    · exact hshut (hpcj ▸ hj)
    · exact h.shut j (hpcj ▸ hj)
  · -- everything was sent before this step already
    intro hconcluded
    apply done_step hinv _ hstep
    rcases hconcluded with ⟨j, hj⟩ | hrest
    · rcases Stock.pcs_cases hpcs j with ⟨-, hpcj⟩ | ⟨-, hpcj⟩
      · rw [hpcj] at hj
        exact hdone (Or.inl hj)
      · rw [hpcj] at hj
        exact h.done (Or.inl ⟨j, hj⟩)
    · exact hdone (Or.inr hrest)

theorem Draining.enter (h : Draining s) (hinv : SendInv s) {l : TransportLabel ι}
    (hstep : step .tcp s l = some s') {s₀ : BaseTransport ι} (henter : s₀.enter i p = some s')
    (hpcs : s₀.pcs = s.pcs) (htracker : s₀.s_tracker ≠ tracker_failed)
    (hposted : ∀ ev ∈ s₀.posted, ev ∈ s.posted) (hcalls : s₀.calls = s.calls)
    (hastray : ¬ p.astray) (hpending : p ≠ .stop_pending)
    (hconcludes : p.concludes → channel_event_disconnected ∈ s.posted) : Draining s' := by
  obtain ⟨-, rfl⟩ := enter_eq henter
  apply h.next hinv hstep (i := i) (p := p)
  · rw [← hpcs]
    rfl
  · exact hastray
  · exact htracker
  · exact fun hp => absurd hp hpending
  · intro hnext
    apply h.done
    rcases hnext with hp | hmem | hmem
    · exact Or.inr (Or.inl (hconcludes hp))
    · exact Or.inr (Or.inl (hposted _ hmem))
    · right
      right
      rw [← hcalls]
      exact hmem

theorem step_draining {l : TransportLabel ι} (hinv : SendInv s) (hgate : GateInv s)
    (h : Draining s) (hgraceful : s.Graceful l) (hemptied : s.Emptied l)
    (hstep : step .tcp s l = some s') : Draining s' := by
  have hsame : ∀ ev ∈ s.posted, ev ∈ s.posted := fun _ hev => hev
  -- all labels but the last let a thread enter a call
  cases l with
  | start i valid mode sent_cb =>
    apply h.enter hinv hstep hstep rfl h.tracker hsame rfl
    · split
      · exact id
      · exact id
    · split
      · simp
      · simp
    · split
      · exact False.elim
      · exact False.elim
  | stop i => exact h.enter hinv hstep hstep rfl h.tracker hsame rfl (by rintro ⟨⟩) (by simp) False.elim
  | force_stop i | async_read i | read_event i => exact hgraceful.elim
  | send i size copied =>
    have henter := hstep
    simp only [step] at henter
    split at henter
    · apply h.enter hinv hstep henter rfl h.tracker hsame rfl
      · split
        · exact id
        · exact id
      · split
        · simp
        · simp
      · split
        · exact False.elim
        · exact False.elim
    · cases henter
  | send_event i =>
    have henter := hstep
    simp only [step] at henter
    split at henter
    · exact h.enter hinv hstep henter rfl (by simp) hsame rfl id (by simp) False.elim
    · cases henter
  | channel_event i ev =>
    have henter := hstep
    simp only [step] at henter
    split at henter
    · next hmem =>
      apply h.enter hinv hstep henter rfl h.tracker (fun _ hev => List.mem_of_mem_erase hev) rfl
      · cases ev with
        | channel_event_read => exact id
        | _ => exact id
      · cases ev with
        | channel_event_read => simp
        | _ => simp
      · cases ev with
        | channel_event_disconnected => exact fun _ => hmem
        | channel_event_buffer_sent iob => rintro ⟨⟩
        | channel_event_read => exact False.elim
    · cases henter
  | step i ok n =>
    have hrec := action_recorded .tcp s ok n (s.pcs i)
    have hs' := hstep
    cases hs'
    apply h.next hinv hstep (i := i) (p := (s.action .tcp ok n (s.pcs i)).1)
    · show Function.update (s.action .tcp ok n (s.pcs i)).2.pcs i _ = _
      rw [hrec.pcs]
    · exact not_astray_of_action hinv h.tracker ok n (h.astray i) hgraceful
    · exact tracker_of_action ok n h.tracker hgraceful
    · exact shut_of_action hgate ok n
    · -- who concludes has found nothing pending
      rintro (hpc | hposted | hcalls)
      · rcases concludes_of_action ok n (h.astray i) hpc with hold | ⟨hp, hzero⟩ | ⟨hp, hstopping⟩
        · exact h.done (Or.inl ⟨i, hold⟩)
        · -- `stop` has read zero behind the gate
          exact ⟨h.shut i hp, fun v => sent_of_pending hinv hzero⟩
        · -- here the condition is used
          obtain ⟨hzero, hadds⟩ := hemptied hp hstopping
          refine ⟨⟨?_, hadds⟩, fun v => sent_of_pending hinv hzero⟩
          rw [hstopping]
          trivial
      · apply h.done
        rcases posted_of_action ok n (h.astray i) hposted with hold | hmem
        · exact Or.inl ⟨i, hold⟩
        · exact Or.inr (Or.inl hmem)
      · apply h.done
        replace hcalls : .stopped_cb ∈ (s.action .tcp ok n (s.pcs i)).2.calls := hcalls
        rw [hrec.calls, List.mem_append] at hcalls
        rcases hcalls with hmem | hmem
        · exact Or.inr (Or.inr hmem)
        · exact Or.inl ⟨i, stopped_of_called hmem⟩

/-- **A graceful stop drains**, in every state of a run whose steps all meet
    the conditions. -/
theorem stop_drains {s : BaseTransport ι}
    (h : Reachable (step .tcp) (fun s l => s.Graceful l ∧ s.Orderly l ∧ s.Emptied l) new s) :
    Drained s := by
  have hinv : SendInv s ∧ GateInv s ∧ Draining s := by
    apply h.invariant (I := fun s => SendInv s ∧ GateInv s ∧ Draining s)
    · exact ⟨new_sendInv, new_gateInv, new_draining⟩
    · rintro s l s' ⟨hsend, hgate, hdraining⟩ ⟨hgraceful, horderly, hemptied⟩ hstep
      exact ⟨step_sendInv hsend horderly hstep, gateInv_step hgate hstep,
        step_draining hsend hgate hdraining hgraceful hemptied hstep⟩
  obtain ⟨-, -, hdraining⟩ := hinv
  constructor
  · intro i hp
    apply (hdraining.done (Or.inl ⟨i, _⟩)).sent
    rw [hp]
    trivial
  · intro hcalls
    exact (hdraining.done (Or.inr (Or.inr hcalls))).sent

/-- Thread 1 sends to a full socket and stops the transport, and the poller
    sends what is left. -/
def draining_labels : List (TransportLabel (Fin 2)) :=
  started_labels 0 .tcp read_mode_once false ++
    TransportLabel.send 1 10 true :: List.replicate 26 (.step 1 true (-1)) ++
    TransportLabel.stop 1 :: List.replicate 4 (.step 1 true 0) ++
    TransportLabel.send_event 0 :: List.replicate 9 (.step 0 true 100)

theorem stop_drains_poller :
    ∃ s : BaseTransport (Fin 2), exec (step .tcp) new draining_labels = some s ∧
      (s.calls = [.stopped_cb] ∧ s.results = [(0, error_none)]) ∧ Drained s := by
  have hexec : (exec (step .tcp) new draining_labels).map (fun s => (s.calls, s.results)) =
      some ([.stopped_cb], [(0, error_none)]) := by
    decide
  have hmeets : Meets (step .tcp) (fun s l => s.Graceful l ∧ s.Orderly l ∧ s.Emptied l)
      (new : BaseTransport (Fin 2)) draining_labels := by
    decide +kernel
  obtain ⟨s, hs, hresults⟩ := Option.map_eq_some_iff.mp hexec
  rw [Prod.mk.injEq] at hresults
  exact ⟨s, hs, hresults, stop_drains (.of_exec hs hmeets)⟩

/-- A call of `stop`. -/
def stops : TransportLabel ι → Bool
  | .stop _ => true
  | _ => false

/-- The poller has sent the first buffer and is about to look at the state when
    thread 1 sends a second one to a full socket and stops the transport. -/
def unsent_labels : List (TransportLabel (Fin 2)) :=
  started_labels 0 .tcp read_mode_once false ++
    TransportLabel.send 1 10 true :: List.replicate 26 (.step 1 true (-1)) ++
    TransportLabel.send_event 0 :: List.replicate 7 (.step 0 true 100) ++
    TransportLabel.send 1 12 true :: List.replicate 26 (.step 1 true (-1)) ++
    TransportLabel.stop 1 :: List.replicate 4 (.step 1 true 0) ++
    List.replicate 2 (TransportLabel.step 0 true 0)

/-- The poller stops the transport, and twelve bytes are unsent. -/
theorem not_stop_drains :
    ¬ ∀ (ls : List (TransportLabel (Fin 2))) (s : BaseTransport (Fin 2)),
      exec (step .tcp) new ls = some s → Meets (step .tcp) Graceful new ls →
      ls.countP stops = 1 → Drained s := by
  intro hall
  have hexec : (exec (step .tcp) new unsent_labels).map (fun s =>
      (s.calls, s.results, s.iob_size 1)) =
      some ([.stopped_cb], [(0, error_none), (1, error_none)], 12) := by
    decide
  have hmeets : Meets (step .tcp) Graceful (new : BaseTransport (Fin 2)) unsent_labels := by
    decide +kernel
  obtain ⟨s, hs, hend⟩ := Option.map_eq_some_iff.mp hexec
  simp only [Prod.mk.injEq] at hend
  obtain ⟨hcalls, hresults, hsize⟩ := hend
  have hdrained := hall unsent_labels s hs hmeets (by decide)
  have hzero : s.iob_size 1 = 0 := by
    apply hdrained.stopped
    · rw [hcalls]
      exact List.mem_singleton_self _
    · left
      rw [hresults]
      exact List.mem_cons_of_mem _ List.mem_cons_self
  rw [hsize] at hzero
  cases hzero

end BaseTransport

end Pump
