import Pump.Transport.Terminal

/-! # Reading and the end of a transport

    The read poller receives bytes in one step and hands them to `read_cb` in
    a later one. The state is not looked at in between, and `stop` waits for
    the calls of the user only, so a terminal callback may come first. It does
    not where no bytes are held when it is called, and none are received
    from then on. -/

namespace Pump

open TransportState ErrorCode ChannelEvent Tracker ReadMode

namespace BaseTransport

variable {ι : Type} {k : TransportKind}

/-! ## Section 1: The property -/

/-- `read_cb` is not called after a terminal callback. -/
def NoDataAfterEnd (s : BaseTransport ι) : Prop :=
  s.calls.Pairwise fun c d => c.ends = true → ∀ size, d ≠ .read_cb size

/-- The condition on a step: no thread holds bytes where a terminal callback
    is called, and no bytes are received after that. -/
def HandedOver (s : BaseTransport ι) : TransportLabel ι → Prop
  | .step i _ n =>
    ((s.pcs i).ending → ∀ j, ¬ (s.pcs j).holds_data) ∧
      (s.pcs i = .data_read → n > 0 → ∀ c ∈ s.calls, c.ends = false)
  | _ => True

instance [Fintype ι] (s : BaseTransport ι) : DecidablePred s.HandedOver := fun l => by
  apply TransportLabel.casesOn (motive := fun l => Decidable (s.HandedOver l)) l <;> intros <;>
    unfold HandedOver <;> infer_instance

/-! ## Section 2: The invariant -/

/-- No bytes are held after a terminal callback. -/
structure ReadEndInv (s : BaseTransport ι) : Prop where
  order : s.NoDataAfterEnd
  held : ∀ i, (s.pcs i).holds_data → ∀ c ∈ s.calls, c.ends = false

theorem new_readEndInv : ReadEndInv (new : BaseTransport ι) :=
  ⟨List.Pairwise.nil, fun _ h => h.elim⟩

variable (k) in
/-- Bytes come from a read. -/
theorem holds_data_of_action (s : BaseTransport ι) (ok : Bool) (n : Int) (pc : TransportPc)
    (h : (s.action k ok n pc).1.holds_data) : pc.holds_data ∨ pc = .data_read ∧ n > 0 := by
  cases pc with
  | data_read =>
    right
    simp only [action] at h
    split at h
    · next hn => exact ⟨rfl, hn⟩
    · split at h
      · next hn hagain =>
        exact absurd h hn
      · exact h.elim
  | data_change size | data_call size disconnected => exact Or.inl trivial
  | data_start size =>
    simp only [action] at h
    split at h
    · next hsize => exact Or.inl hsize
    · split at h
      · exact h.elim
      · exact h.elim
  | send_push iob op | once_pop w op =>
    simp only [action] at h
    split at h
    all_goals exact h.elim
  | start_stages rest =>
    rcases rest with _ | ⟨st, rest⟩
    · exact h.elim
    · simp only [action] at h
      split at h
      · exact h.elim
      · exact h.elim
  | once_want w | flow_send w | sub_compare w old size | start_tracker w =>
    rcases w with iob | _ | _
    all_goals
      simp only [action, send_failed, send_more, send_done] at h
      repeat' split at h
      all_goals exact h.elim
  | _ =>
    simp only [action] at h
    repeat' split at h
    all_goals exact h.elim

theorem ending_of_mem_called {pc : TransportPc} {c : TransportCall} (hc : c ∈ pc.called)
    (hends : c.ends = true) : pc.ending := by
  cases pc with
  | call c' =>
    have hcc := List.mem_singleton.mp hc
    rw [hcc] at hends
    exact hends
  | data_call size disconnected =>
    have hcc := List.mem_singleton.mp hc
    rw [hcc] at hends
    exact absurd hends Bool.false_ne_true
  | _ => exact absurd hc List.not_mem_nil

theorem holds_data_of_mem_called {pc : TransportPc} {size : Int}
    (hc : .read_cb size ∈ pc.called) : pc.holds_data := by
  cases pc with
  | call c' =>
    rw [← List.mem_singleton.mp hc]
    trivial
  | data_call size disconnected => trivial
  | _ => exact absurd hc List.not_mem_nil

theorem pairwise_called (r : TransportCall → TransportCall → Prop) (pc : TransportPc) :
    pc.called.Pairwise r := by
  cases pc with
  | call | data_call => exact List.pairwise_singleton r _
  | _ => exact List.Pairwise.nil

variable [DecidableEq ι]

theorem readEndInv_step {s s' : BaseTransport ι} {l : TransportLabel ι} (hinv : ReadEndInv s)
    (hok : HandedOver s l) (h : step k s l = some s') : ReadEndInv s' := by
  rcases step_effect h with ⟨i, pc, he⟩ | ⟨i, ok, n, rfl, hs⟩
  · refine ⟨?_, ?_⟩
    · unfold NoDataAfterEnd
      rw [he.calls]
      exact hinv.order
    · intro j hj
      rw [he.calls]
      rw [he.pcs] at hj
      by_cases hji : j = i
      · rw [hji, Function.update_self] at hj
        exact absurd hj he.no_data
      · rw [Function.update_of_ne hji] at hj
        exact hinv.held j hj
  · obtain ⟨hlast, hread⟩ := hok
    refine ⟨?_, ?_⟩
    · unfold NoDataAfterEnd
      rw [hs.calls, List.pairwise_append]
      refine ⟨hinv.order, pairwise_called _ _, ?_⟩
      intro c hc d hd hends size hdata
      rw [hdata] at hd
      have hnot := hinv.held i (holds_data_of_mem_called hd) c hc
      rw [hends] at hnot
      exact Bool.noConfusion hnot
    · intro j hj c hc
      -- where the bytes of `j` were before the step
      have hbefore : (s.pcs j).holds_data ∨ j = i ∧ s.pcs i = .data_read ∧ n > 0 := by
        rw [hs.pcs] at hj
        by_cases hji : j = i
        · rw [hji, Function.update_self] at hj
          rcases holds_data_of_action k s ok n _ hj with hheld | hnew
          · exact Or.inl (hji ▸ hheld)
          · exact Or.inr ⟨hji, hnew⟩
        · rw [Function.update_of_ne hji] at hj
          exact Or.inl hj
      rw [hs.calls, List.mem_append] at hc
      rcases hc with hc | hc
      · rcases hbefore with hheld | ⟨-, hpc, hn⟩
        · exact hinv.held j hheld c hc
        · exact hread hpc hn c hc
      · rcases hbefore with hheld | ⟨-, hpc, -⟩
        · rw [← Bool.not_eq_true]
          intro hends
          exact hlast (ending_of_mem_called hc hends) j hheld
        · rw [hpc] at hc
          exact absurd hc List.not_mem_nil

theorem noDataAfterEnd_of_handedOver {s : BaseTransport ι}
    (h : Reachable (step k) HandedOver new s) : s.NoDataAfterEnd := by
  have hinv : ReadEndInv s := by
    apply h.invariant
    · exact new_readEndInv
    · intro s l s' hs hok hstep
      exact readEndInv_step hs hok hstep
  exact hinv.order

/-! ## Section 3: Late data -/

/-- Some continuation calls `read_cb` after a terminal callback. -/
def LateData (k : TransportKind) (s : BaseTransport ι) : Prop :=
  ∃ ls s', exec (step k) s ls = some s' ∧ ¬ s'.NoDataAfterEnd

theorem LateData.of_step {s s' : BaseTransport ι} {l : TransportLabel ι}
    (h : step k s l = some s') (hlate : LateData k s') : LateData k s := by
  obtain ⟨ls, s'', hexec, hnot⟩ := hlate
  refine ⟨l :: ls, s'', ?_, hnot⟩
  rw [exec, h, Option.bind_some]
  exact hexec

/-- The next step of the thread `i` is always enabled. -/
theorem stepped (k : TransportKind) (s : BaseTransport ι) (i : ι) (ok : Bool) (n : Int) :
    ∃ s', step k s (.step i ok n) = some s' ∧
      Stepped k s i (s.action k ok n (s.pcs i)).1 s' := by
  refine ⟨_, rfl, ?_⟩
  rcases step_effect (k := k) (s := s) (l := .step i ok n) rfl with ⟨j, pc, he⟩ | ⟨j, ok', n', hl, hs⟩
  · exact absurd rfl (he.no_step i ok n)
  · cases hl
    exact hs

/-- A thread at the call of `read_cb` makes it. -/
theorem lateData_of_called {s : BaseTransport ι} {i : ι} {c : TransportCall} (size : Int)
    (hcalled : .read_cb size ∈ (s.pcs i).called) (hc : c ∈ s.calls) (hends : c.ends = true) :
    LateData k s := by
  obtain ⟨s', hstep, hs⟩ := stepped k s i true 0
  apply LateData.of_step hstep
  refine ⟨[], s', rfl, ?_⟩
  intro horder
  unfold NoDataAfterEnd at horder
  rw [hs.calls, List.pairwise_append] at horder
  exact horder.2.2 c hc _ hcalled hends size rfl

/-- A thread that holds bytes hands them to `read_cb`. -/
theorem lateData_of_holds_data {s : BaseTransport ι} {i : ι} {c : TransportCall}
    (hheld : (s.pcs i).holds_data) (hc : c ∈ s.calls) (hends : c.ends = true) : LateData k s := by
  -- one step to the call, where the bytes are received and no more
  have hnext : ∀ size disconnected,
      (s.action k true 0 (s.pcs i)).1 = .data_call size disconnected → LateData k s := by
    intro size disconnected hpc
    obtain ⟨s', hstep, hs⟩ := stepped k s i true 0
    apply LateData.of_step hstep
    have hcall : s'.pcs i = .data_call size disconnected := by
      rw [hs.pcs, Function.update_self, hpc]
    apply lateData_of_called (i := i) (c := c) size
    · rw [hcall]
      exact List.mem_singleton.mpr rfl
    · rw [hs.calls]
      exact List.mem_append_left _ hc
    · exact hends
  cases hpc : s.pcs i with
  | call c' =>
    rw [hpc] at hheld
    rcases c' with size | iob | _ | _
    · apply lateData_of_called (i := i) size _ hc hends
      rw [hpc]
      exact List.mem_singleton.mpr rfl
    all_goals exact hheld.elim
  | data_call size disconnected =>
    apply lateData_of_called (i := i) size _ hc hends
    rw [hpc]
    exact List.mem_singleton.mpr rfl
  | data_change size =>
    rw [hpc] at hnext
    exact hnext _ _ rfl
  | data_start size =>
    rw [hpc] at hheld hnext
    apply hnext size
    exact if_pos hheld
  | _ =>
    rw [hpc] at hheld
    exact hheld.elim

/-- A step that does not meet the condition can be followed by late data. -/
theorem lateData_of_not_handedOver {s s' : BaseTransport ι} {l : TransportLabel ι}
    (h : step k s l = some s') (hnot : ¬ HandedOver s l) : LateData k s' := by
  rcases step_effect h with ⟨i, pc, he⟩ | ⟨i, ok, n, rfl, hs⟩
  · cases l with
    | step i ok n => exact absurd rfl (he.no_step i ok n)
    | _ => exact absurd trivial hnot
  · unfold HandedOver at hnot
    rw [not_and_or] at hnot
    rcases hnot with hnot | hnot
    · -- a terminal callback is called while `j` holds bytes
      push Not at hnot
      obtain ⟨hending, j, hheld⟩ := hnot
      obtain ⟨c, hpc, hends⟩ : ∃ c, s.pcs i = .call c ∧ c.ends = true := by
        unfold TransportPc.ending at hending
        split at hending
        · next c hc => exact ⟨c, hc, hending⟩
        · exact hending.elim
      -- the thread that calls back holds none itself
      have hji : j ≠ i := by
        intro hji
        rw [hji, hpc] at hheld
        rcases c with size | iob | _ | _
        · exact absurd hends Bool.false_ne_true
        all_goals exact hheld
      apply lateData_of_holds_data (i := j) (c := c)
      · rw [hs.pcs, Function.update_of_ne hji]
        exact hheld
      · rw [hs.calls, hpc]
        exact List.mem_append_right _ (List.mem_singleton.mpr rfl)
      · exact hends
    · -- bytes are received after the terminal callback `c`
      push Not at hnot
      obtain ⟨hpc, hn, c, hc, hends⟩ := hnot
      apply lateData_of_holds_data (i := i) (c := c)
      · rw [hs.pcs, Function.update_self, hpc]
        show TransportPc.holds_data (if n > 0 then _ else _)
        rw [if_pos hn]
        split
        · trivial
        · exact hn
      · rw [hs.calls]
        exact List.mem_append_left _ hc
      · exact Bool.of_not_eq_false hends

/-- **Data before the end.** In a run whose steps all meet the condition
    `read_cb` is not called after a terminal callback, and any step that does
    not meet it can be followed by a call of `read_cb` that is. -/
theorem run_noDataAfterEnd (k : TransportKind) (s : BaseTransport ι) :
    (Reachable (step k) HandedOver new s → s.NoDataAfterEnd) ∧
      ∀ l s', step k s l = some s' → ¬ HandedOver s l → LateData k s' := by
  refine ⟨noDataAfterEnd_of_handedOver, ?_⟩
  intro l s' hstep hnot
  exact lateData_of_not_handedOver hstep hnot

/-- The labels of a transport that is started and reads, until the read
    poller holds 5 bytes. -/
def read_labels : List (TransportLabel (Fin 3)) :=
  started_labels 0 .tcp read_mode_once true ++
    TransportLabel.async_read 0 :: List.replicate 7 (.step 0 true 0) ++
    TransportLabel.read_event 1 :: List.replicate 2 (.step 1 true 5)

/-- `stop`, and `on_channel_event` in a poller. -/
def stop_labels : List (TransportLabel (Fin 3)) :=
  TransportLabel.stop 0 :: List.replicate 5 (.step 0 true 0) ++
    TransportLabel.channel_event 2 channel_event_disconnected ::
      List.replicate 3 (.step 2 true 0)

/-- The bytes are handed over, and then the transport is stopped. -/
theorem run_noDataAfterEnd_in_order :
    ∃ s : BaseTransport (Fin 3), exec (step .tcp) new
        (read_labels ++ List.replicate 2 (.step 1 true 0) ++ stop_labels) = some s ∧
      s.calls = [.read_cb 5, .stopped_cb] ∧ s.NoDataAfterEnd := by
  have hrun : (exec (step .tcp) (new : BaseTransport (Fin 3))
      (read_labels ++ List.replicate 2 (.step 1 true 0) ++ stop_labels)).map calls =
        some [.read_cb 5, .stopped_cb] := by
    decide
  obtain ⟨s, hexec, hcalls⟩ := Option.map_eq_some_iff.mp hrun
  exact ⟨s, hexec, hcalls, (run_noDataAfterEnd .tcp s).1 (.of_exec hexec (by decide))⟩

/-- `stop` and `stopped_cb` come between the read and `read_cb`. -/
theorem dataAfterEnd_stop :
    ∃ s : BaseTransport (Fin 3), exec (step .tcp) new
        (read_labels ++ stop_labels ++ List.replicate 2 (.step 1 true 0)) = some s ∧
      s.calls = [.stopped_cb, .read_cb 5] ∧ ¬ s.NoDataAfterEnd := by
  have hrun : (exec (step .tcp) (new : BaseTransport (Fin 3))
      (read_labels ++ stop_labels ++ List.replicate 2 (.step 1 true 0))).map calls =
        some [.stopped_cb, .read_cb 5] := by
    decide
  obtain ⟨s, hexec, hcalls⟩ := Option.map_eq_some_iff.mp hrun
  refine ⟨s, hexec, hcalls, ?_⟩
  intro horder
  unfold NoDataAfterEnd at horder
  rw [hcalls] at horder
  exact (List.pairwise_cons.mp horder).1 _ (List.mem_singleton.mpr rfl) rfl 5 rfl

end BaseTransport

end Pump
