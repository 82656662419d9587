import Pump.Transport.OneReader
import Pump.Transport.SingleSender

/-! # No abort

    `__send_once` aborts where its pop finds nothing. While a thread is in the
    sending role and has nothing in flight there is a counted buffer, so the
    list is not empty: the pop finds its first node, ready or still held by
    its push. -/

namespace Pump

open TransportState ErrorCode ReadMode ReadState Tracker ChannelEvent
open M2m (Op Ops Slot Turn)

namespace BaseTransport

variable {ι : Type} {k : TransportKind} {s s' : BaseTransport ι} {i : ι} {p : TransportPc}

/-! ## Section 1: What the pop finds -/

/-- The condition on the next step of a thread: the pop does not reach a node
    that a push has reserved and has not marked ready. -/
def PcPublished (s : BaseTransport ι) : TransportPc → Prop
  | .once_pop _ (.pop_check _ node) => ∀ j, (M2m.pushing (s.ops j)).map Prod.fst ≠ some node
  | _ => True

/-- The condition on a step of the transport. -/
def Published (s : BaseTransport ι) : TransportLabel ι → Prop
  | .step i _ _ => PcPublished s (s.pcs i)
  | _ => True

instance [Fintype ι] (s : BaseTransport ι) : DecidablePred (PcPublished s) := fun p => by
  apply TransportPc.casesOn (motive := fun p => Decidable (PcPublished s p)) p
  case once_pop =>
    intro w op
    apply Op.casesOn (motive := fun op => Decidable (PcPublished s (.once_pop w op))) op <;> intros <;>
      unfold PcPublished <;> infer_instance
  all_goals
    intros
    unfold PcPublished
    infer_instance

instance [Fintype ι] (s : BaseTransport ι) : DecidablePred s.Published := fun l => by
  apply TransportLabel.casesOn (motive := fun l => Decidable (s.Published l)) l <;> intros <;>
    unfold Published <;> infer_instance

theorem pop_finds (h : SendInv s) {w : Sending} {tail node : Nat}
    (hpc : s.pcs i = .once_pop w (.pop_check tail node))
    (hpublished : ∀ j, (M2m.pushing (s.ops j)).map Prod.fst ≠ some node) :
    s.sendlist.ready node = true := by
  obtain ⟨slots, free, reads, counted, flight, lost, hst, hr⟩ := h
  obtain ⟨hi, -, -, hzero, -⟩ := phase_at hr hpc trivial
  have hreads : reads i = none := by
    apply hst.queue.core.not_taken
    show M2m.reading (s.pcs i).queue_op = none
    rw [hpc]
    rfl
  -- nothing is in flight, so there is a counted buffer
  have hpos := hr.baton.held_pos i hi
  unfold load at hpos
  rw [hzero hreads, Nat.add_zero] at hpos
  obtain ⟨v, hv, -⟩ := Finset.exists_ne_zero_of_sum_ne_zero hpos.ne'
  obtain ⟨⟨n, u, full⟩, hslot, -⟩ := List.mem_map.mp (hst.counted_mem hv).1
  obtain ⟨⟨m, u, full⟩, rest, hslots⟩ := List.exists_cons_of_ne_nil (List.ne_nil_of_mem hslot)
  have hmem : ⟨m, u, full⟩ ∈ slots := by
    rw [hslots]
    exact List.mem_cons_self
  -- the pop looks at the first slot
  have hnode : node = m := by
    have hsound : tail = s.sendlist.tail ∧ node = s.sendlist.next s.sendlist.tail :=
      (hst.pops i w _ hpc).2.1
    have hlinks := hst.queue.core.links.1
    rw [hslots] at hlinks
    exact hsound.2.trans hlinks
  rw [hnode]
  rcases full with _ | _
  · -- a push holds it, and this is what the condition excludes
    obtain ⟨j, hj⟩ := hst.queue.core.pushed m u hmem
    have hj' : M2m.pushing (s.ops j) = some (m, u) := hj
    have hne := hpublished j
    rw [hj', hnode] at hne
    exact absurd rfl hne
  · exact (hst.queue.core.full m u hmem).1

/-- No thread that sends goes to `pump_abort`. -/
theorem action_runs (h : SendInv s) (hpc : s.pcs i ≠ .aborted) (hok : PcPublished s (s.pcs i))
    (ok : Bool) (n : Int) : (s.action k ok n (s.pcs i)).1 ≠ .aborted := by
  have hfailed : ∀ w, send_failed w ≠ .aborted := by
    intro w
    cases w with
    | async iob => exact TransportPc.noConfusion
    | event | again => exact TransportPc.noConfusion
  obtain ⟨slots, free, reads, counted, flight, lost, hst, hr⟩ := id h
  cases hp : s.pcs i with
  | aborted => exact absurd hp hpc
  | once_pop w op =>
    have hvalue := (hst.pops i w op hp).1
    simp only [action]
    rw [(sendlist_step_spec s ok op).1]
    cases op with
    | pop_check tail node =>
      rw [hp] at hok
      have hready := pop_finds h hp hok
      simp only [Op.step, hready, if_true]
      simp
    | pop_exchange tail node =>
      by_cases htail : s.sendlist.tail = tail
      · simp only [Op.step, if_pos htail]
        simp
      · simp only [Op.step, if_neg htail]
        simp
    | pop_load | pop_next | pop_data | pop_ready => rintro ⟨⟩
    | _ => cases hvalue
  | once_size w =>
    obtain ⟨-, -, v, hlast, -⟩ := phase_at hr hp trivial
    simp only [action, hlast]
    simp
  | flow_send w =>
    obtain ⟨-, v, -, hsend, -⟩ := phase_at hr hp trivial
    simp only [action, hsend]
    split
    · simp
    · simp
    · exact hfailed w
  | handle_sent w =>
    obtain ⟨-, -, ⟨v, hlast, -⟩, -⟩ := phase_at hr hp trivial
    simp only [action, hlast]
    simp
  | once_want w =>
    simp only [action]
    split
    · exact hfailed w
    · simp
  | start_tracker w | sub_compare w old size =>
    simp only [action, send_more, send_done]
    cases w with
    | async iob | event | again =>
      split
      · rintro ⟨⟩
      · rintro ⟨⟩
  | start_stages rest =>
    rcases rest with _ | ⟨st, rest⟩
    · rintro ⟨⟩
    · simp only [action]
      split
      · simp
      · simp
  | _ =>
    simp only [action]
    repeat' split
    all_goals simp

/-! ## Section 2: Every run -/

/-- A tcp transport posts no event to read. -/
theorem posting_of_tcp_action (s : BaseTransport ι) (ok : Bool) (n : Int) (p : TransportPc)
    (h : (s.action .tcp ok n p).1.posting) : p.posting := by
  by_cases habout : p.about_reading
  · cases p with
    | read_unread | read_post => trivial
    | read_change =>
      simp only [action] at h
      split at h
      · exact h.elim
      · split at h
        · next htls => cases htls.1
        · exact h.elim
    | read_check | read_opt | read_started | read_start | data_wait | data_read | data_change
    | data_start =>
      simp only [action] at h
      repeat' split at h
      all_goals exact h.elim
    | _ => exact habout.elim
  · have hnot := not_about_reading_of_action .tcp s ok n habout
    cases hp : (s.action .tcp ok n p).1 with
    | read_unread | read_post =>
      rw [hp] at hnot
      exact absurd trivial hnot
    | _ =>
      rw [hp] at h
      exact h.elim

/-- No thread has aborted, and a tcp transport has no event to read, which it
    has no function for. -/
structure Running (k : TransportKind) (s : BaseTransport ι) : Prop where
  pcs : ∀ i, s.pcs i ≠ .aborted
  posted : k = .tcp → channel_event_read ∉ s.posted ∧ ∀ i, ¬ (s.pcs i).posting

variable [DecidableEq ι]

theorem Running.goto (h : Running k s) (hpcs : s'.pcs = s.pcs) (hp : p ≠ .aborted)
    (hposted : k = .tcp → channel_event_read ∉ s'.posted ∧ ¬ p.posting) :
    Running k (s'.goto i p) := by
  have hpcs' : (s'.goto i p).pcs = Function.update s.pcs i p := by
    show Function.update s'.pcs i p = _
    rw [hpcs]
  constructor
  · intro j
    rcases Stock.pcs_cases hpcs' j with ⟨-, hj⟩ | ⟨-, hj⟩
    · rw [hj]
      exact hp
    · rw [hj]
      exact h.pcs j
  · intro hk
    refine ⟨(hposted hk).1, ?_⟩
    intro j
    rcases Stock.pcs_cases hpcs' j with ⟨-, hj⟩ | ⟨-, hj⟩
    · rw [hj]
      exact (hposted hk).2
    · rw [hj]
      exact (h.posted hk).2 j

theorem Running.enter (h : Running k s) {s₀ : BaseTransport ι} (henter : s₀.enter i p = some s')
    (hpcs : s₀.pcs = s.pcs) (hposted : ∀ ev ∈ s₀.posted, ev ∈ s.posted)
    (hp : p ≠ .aborted ∧ ¬ p.posting) : Running k s' := by
  obtain ⟨-, rfl⟩ := enter_eq henter
  apply h.goto hpcs hp.1
  intro hk
  refine ⟨?_, hp.2⟩
  intro hmem
  exact (h.posted hk).1 (hposted _ hmem)

theorem step_running {l : TransportLabel ι} (h : SendInv s) (hr : Running k s)
    (hok : s.Published l) (hstep : step k s l = some s') : Running k s' := by
  cases l with
  | start i valid mode sent_cb =>
    apply hr.enter hstep rfl fun ev hev => hev
    split
    · exact ⟨by simp, id⟩
    · exact ⟨by simp, id⟩
  | stop i | force_stop i | async_read i => exact hr.enter hstep rfl (fun ev hev => hev) ⟨by simp, id⟩
  | send i size copied =>
    simp only [step] at hstep
    split at hstep
    · apply hr.enter hstep rfl fun ev hev => hev
      split
      · exact ⟨by simp, id⟩
      · exact ⟨by simp, id⟩
    · cases hstep
  | read_event i | send_event i =>
    simp only [step] at hstep
    split at hstep
    · exact hr.enter hstep rfl (fun ev hev => hev) ⟨by simp, id⟩
    · cases hstep
  | channel_event i ev =>
    simp only [step] at hstep
    split at hstep
    · next hmem =>
      apply hr.enter hstep rfl fun ev hev => List.mem_of_mem_erase hev
      cases ev with
      | channel_event_read =>
        simp only
        split
        · exact ⟨by simp, id⟩
        · next hk =>
          cases k with
          | tls => exact absurd rfl hk
          | tcp => exact absurd hmem (hr.posted rfl).1
      | _ => exact ⟨by simp, id⟩
    · cases hstep
  | step i ok n =>
    cases hstep
    apply hr.goto (action_recorded k s ok n (s.pcs i)).pcs (action_runs h (hr.pcs i) hok ok n)
    intro hk
    subst hk
    refine ⟨?_, ?_⟩
    · -- the number of events to read does not change
      rcases reads_of_action .tcp s ok n (s.pcs i) with hreads | hposting
      · intro hmem
        have hpos := List.count_pos_iff.mpr hmem
        have hzero := List.count_eq_zero.mpr (hr.posted rfl).1
        unfold reads at hreads
        omega
      · exact absurd hposting ((hr.posted rfl).2 i)
    · intro hposting
      exact (hr.posted rfl).2 i (posting_of_tcp_action s ok n (s.pcs i) hposting)

/-- **The send path does not abort** in any state of a run whose steps all meet
    the conditions. -/
theorem run_never_aborts {s : BaseTransport ι}
    (h : Reachable (step k) (fun s l => s.Orderly l ∧ s.Published l) new s) (i : ι) :
    s.pcs i ≠ .aborted := by
  have hinv : SendInv s ∧ Running k s := by
    apply h.invariant (I := fun s => SendInv s ∧ Running k s)
    · refine ⟨new_sendInv, nofun, ?_⟩
      intro _
      exact ⟨nofun, fun _ => id⟩
    · rintro s l s' ⟨hsend, hrun⟩ ⟨horderly, hpublished⟩ hstep
      exact ⟨step_sendInv hsend horderly hstep, step_running hsend hrun hpublished hstep⟩
  exact hinv.2.pcs i

theorem run_never_aborts_two_buffers :
    ∃ s : BaseTransport (Fin 2), exec (step .tcp) new two_buffers_labels = some s ∧
      s.pending_send_size = 0 ∧ s.pcs 0 ≠ .aborted := by
  have hexec : (exec (step .tcp) new two_buffers_labels).map (·.pending_send_size) = some 0 := by
    decide
  have hmeets : Meets (step .tcp) (fun s l => s.Orderly l ∧ s.Published l)
      (new : BaseTransport (Fin 2)) two_buffers_labels := by
    decide +kernel
  obtain ⟨s, hs, hpending⟩ := Option.map_eq_some_iff.mp hexec
  exact ⟨s, hs, hpending, run_never_aborts (.of_exec hs hmeets) 0⟩

/-- Thread 0 has reserved a node and not yet filled it when thread 1, whose
    buffer is behind, sends. -/
theorem not_run_never_aborts :
    ¬ ∀ (s : BaseTransport (Fin 2)) (i : Fin 2), Reachable (step .tcp) AnyStep new s →
      s.pcs i ≠ .aborted := by
  intro hall
  have hexec : (exec (step .tcp) new
      (started_labels 0 .tcp read_mode_once false ++
        TransportLabel.send 0 10 true :: List.replicate 9 (.step 0 true 0) ++
        TransportLabel.send 1 5 true :: List.replicate 17 (.step 1 true 0))).map
          (fun s : BaseTransport (Fin 2) => s.pcs 1) = some .aborted := by
    decide
  obtain ⟨s, hs, haborted⟩ := Option.map_eq_some_iff.mp hexec
  exact hall s 1 (.of_exec hs (meets_anyStep _ _ _)) haborted

end BaseTransport

end Pump
