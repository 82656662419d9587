import Pump.Once
import Pump.Transport.BaseTransport

/-! # The end of a transport

    The steps of a transport by what they do to its state and to the record
    of the run. Over every interleaving, `disconnected_cb` and `stopped_cb`
    are called at most once together, and the state stays what it is then. -/

namespace Pump

open TransportState ErrorCode ChannelEvent Tracker ReadMode

/-! ## Section 1: What a step does -/

/-- A terminal state. -/
def TransportState.ended : TransportState → Prop
  | state_disconnected | state_stopped => True
  | _ => False

instance : DecidablePred TransportState.ended := fun st => by
  cases st <;> simp only [TransportState.ended] <;> infer_instance

/-- A terminal callback. -/
def TransportCall.ends : TransportCall → Bool
  | .disconnected_cb | .stopped_cb => true
  | _ => false

namespace TransportPc

/-- The callback the thread calls next. -/
def called : TransportPc → List TransportCall
  | .call c => [c]
  | .data_call size _ => [.read_cb size]
  | _ => []

/-- A terminal callback is due. -/
def ending : TransportPc → Prop
  | .call c => c.ends = true
  | _ => False

/-- The bytes it has received are still to be handed to `read_cb`. -/
def holds_data : TransportPc → Prop
  | .data_change _ | .data_call _ _ | .call (.read_cb _) => True
  | .data_start size => size > 0
  | _ => False

instance : DecidablePred ending := fun pc => by
  cases pc <;> unfold ending <;> infer_instance

instance : DecidablePred holds_data := fun pc => by
  cases pc with
  | call c => cases c <;> unfold holds_data <;> infer_instance
  | _ => unfold holds_data; infer_instance

/-- What `send` returns next. -/
def returned : TransportPc → List (Nat × ErrorCode)
  | .send_return iob ec => [(iob, ec)]
  | _ => []

end TransportPc

namespace BaseTransport

variable {ι : Type} {k : TransportKind}

/-- A compare and exchange of the state that succeeds: who does it, from
    which state to which, and where the thread goes. -/
inductive Move (k : TransportKind) :
    TransportPc → TransportState → TransportState → TransportPc → Prop
  | start_state (mode : ReadMode) (sent_cb : Bool) :
      Move k (.start_state mode sent_cb) state_none state_starting (.start_stages k.stages)
  | start_started : Move k .start_started state_starting state_started (.start_return error_none)
  | start_error : Move k .start_error state_starting state_error (.start_return error_fault)
  | stop_started (force : Bool) :
      Move k (.stop_started force) state_started state_stopping (.stop_wait force)
  | stop_disconnecting : Move k .stop_disconnecting state_disconnecting state_stopping .idle
  | send_disconnecting (iob : Nat) :
      Move k (.send_disconnecting iob) state_started state_disconnecting (.send_post iob)
  | event_disconnecting :
      Move k .event_disconnecting state_started state_disconnecting .event_disconnected
  | event_disconnected : Move k .event_disconnected state_disconnecting state_disconnected
      (.call .disconnected_cb)
  | event_stopped : Move k .event_stopped state_stopping state_stopped (.call .stopped_cb)
  | data_disconnecting :
      Move k .data_disconnecting state_started state_disconnecting .data_disconnected
  | data_disconnected : Move k .data_disconnected state_disconnecting state_disconnected
      (.call .disconnected_cb)
  | channel_disconnected : Move k .channel_disconnected state_disconnecting state_disconnected
      (.call .disconnected_cb)
  | channel_stopped : Move k .channel_stopped state_stopping state_stopped (.call .stopped_cb)

section Fields

variable (s : BaseTransport ι)

/-- Only the state changes. -/
theorem set_state_eq (expected desired : TransportState) :
    ∃ st, (s.set_state expected desired).2 = { s with state := st } := by
  unfold set_state
  split
  · exact ⟨desired, rfl⟩
  · exact ⟨s.state, rfl⟩

/-- Only the read state changes. -/
theorem change_read_state_eq (expected desired : ReadState) :
    ∃ r, (s.change_read_state expected desired).2 = { s with rstate := r } := by
  unfold change_read_state
  split
  · exact ⟨desired, rfl⟩
  · exact ⟨s.rstate, rfl⟩

theorem post_channel_event_eq (ok : Bool) (ev : ChannelEvent) :
    ∃ posted, s.post_channel_event ok ev = { s with posted := posted } := by
  unfold post_channel_event
  split
  · exact ⟨_, rfl⟩
  · exact ⟨s.posted, rfl⟩

theorem flow_send_eq (iob : Nat) (n : Int) :
    ∃ size send_iob, (s.flow_send iob n).2 = { s with iob_size := size, send_iob := send_iob } := by
  unfold flow_send
  split
  · exact ⟨s.iob_size, s.send_iob, rfl⟩
  · split
    · exact ⟨s.iob_size, s.send_iob, rfl⟩
    · simp only
      split
      · exact ⟨_, none, rfl⟩
      · exact ⟨_, s.send_iob, rfl⟩

theorem sendlist_step_eq (ok : Bool) (op : M2m.Op Nat) :
    ∃ sendlist last, (s.sendlist_step ok op).2 =
      { s with sendlist := sendlist, last_send_iob := last } := by
  unfold sendlist_step
  simp only
  split
  · exact ⟨_, _, rfl⟩
  · exact ⟨_, s.last_send_iob, rfl⟩

/-! A property of the rest of the transport is kept. -/

theorem set_state_frame {P : BaseTransport ι → Prop} (h : ∀ st, P { s with state := st })
    (expected desired : TransportState) : P (s.set_state expected desired).2 := by
  obtain ⟨st, hst⟩ := s.set_state_eq expected desired
  rw [hst]
  exact h st

theorem change_read_state_frame {P : BaseTransport ι → Prop} (h : ∀ r, P { s with rstate := r })
    (expected desired : ReadState) : P (s.change_read_state expected desired).2 := by
  obtain ⟨r, hr⟩ := s.change_read_state_eq expected desired
  rw [hr]
  exact h r

theorem post_channel_event_frame {P : BaseTransport ι → Prop}
    (h : ∀ posted, P { s with posted := posted }) (ok : Bool) (ev : ChannelEvent) :
    P (s.post_channel_event ok ev) := by
  obtain ⟨posted, hposted⟩ := s.post_channel_event_eq ok ev
  rw [hposted]
  exact h posted

theorem flow_send_frame {P : BaseTransport ι → Prop}
    (h : ∀ size send_iob, P { s with iob_size := size, send_iob := send_iob }) (n : Int)
    (iob : Nat) : P (s.flow_send iob n).2 := by
  obtain ⟨size, send_iob, hr⟩ := s.flow_send_eq iob n
  rw [hr]
  exact h size send_iob

theorem sendlist_step_frame {P : BaseTransport ι → Prop}
    (h : ∀ sendlist last, P { s with sendlist := sendlist, last_send_iob := last }) (ok : Bool)
    (op : M2m.Op Nat) : P (s.sendlist_step ok op).2 := by
  obtain ⟨sendlist, last, hq⟩ := s.sendlist_step_eq ok op
  rw [hq]
  exact h sendlist last

end Fields

/-- The record of the run and the threads, after a step of the thread at `pc`. -/
structure Recorded (s : BaseTransport ι) (pc : TransportPc) (s' : BaseTransport ι) : Prop where
  pcs : s'.pcs = s.pcs
  calls : s'.calls = s.calls ++ pc.called
  results : s'.results = s.results ++ pc.returned
  iobs : s'.iobs = s.iobs

variable (k) in
theorem action_recorded (s : BaseTransport ι) (ok : Bool) (n : Int) (pc : TransportPc) :
    Recorded s pc (s.action k ok n pc).2 := by
  have hsame : ∀ s' : BaseTransport ι, pc.called = [] → pc.returned = [] →
      s'.pcs = s.pcs → s'.calls = s.calls → s'.results = s.results → s'.iobs = s.iobs →
      Recorded s pc s' := by
    intro s' hcalled hreturned hpcs hcalls hresults hiobs
    refine ⟨hpcs, ?_, ?_, hiobs⟩
    · rw [hcalled, List.append_nil]
      exact hcalls
    · rw [hreturned, List.append_nil]
      exact hresults
  have hset : ∀ expected desired, pc.called = [] → pc.returned = [] →
      Recorded s pc (s.set_state expected desired).2 := by
    intro expected desired hcalled hreturned
    exact s.set_state_frame (fun st => hsame _ hcalled hreturned rfl rfl rfl rfl) _ _
  have hpost : ∀ ev, pc.called = [] → pc.returned = [] →
      Recorded s pc (s.post_channel_event ok ev) := by
    intro ev hcalled hreturned
    exact s.post_channel_event_frame (fun _ => hsame _ hcalled hreturned rfl rfl rfl rfl) ok ev
  have hqueue : ∀ op, pc.called = [] → pc.returned = [] →
      Recorded s pc (s.sendlist_step ok op).2 := by
    intro op hcalled hreturned
    exact s.sendlist_step_frame (fun _ _ => hsame _ hcalled hreturned rfl rfl rfl rfl) ok op
  -- three steps record something; the others are frames
  cases pc with
  | idle | start_return | stop_loop | stop_wait | stop_pending | read_check | read_started
  | read_unread | read_return | send_check | send_started | send_create | sub_size | sub_compare
  | aborted | event_last | data_wait | data_read | start_stages rest =>
    first
    | exact hsame _ rfl rfl rfl rfl rfl rfl
    | rcases rest with _ | ⟨st, rest⟩
      · exact hsame _ rfl rfl rfl rfl rfl rfl
      · exact hsame _ rfl rfl rfl rfl rfl rfl
  | start_started | start_error | stop_started | stop_disconnecting | send_disconnecting
  | event_disconnecting | event_disconnected | event_stopped | data_disconnecting
  | data_disconnected | channel_disconnected | channel_stopped => exact hset _ _ rfl rfl
  | stop_post | read_post | send_post => exact hpost _ rfl rfl
  | send_push iob op => exact hqueue op rfl rfl
  | once_pop w op => exact hqueue op rfl rfl
  | read_opt | read_start | read_sub | send_opt | send_add | send_sub | once | sub | handle_clear
  | start_tracker | data_start => exact hsame _ rfl rfl rfl rfl rfl rfl
  | send_return iob ec => exact ⟨rfl, (List.append_nil _).symm, rfl, rfl⟩
  | data_call size disconnected => exact ⟨rfl, rfl, (List.append_nil _).symm, rfl⟩
  | call c => exact ⟨rfl, rfl, (List.append_nil _).symm, rfl⟩
  | start_state mode sent_cb =>
    simp only [action]
    split
    · obtain ⟨st, hst⟩ := s.set_state_eq state_none state_starting
      rw [hst]
      exact hsame _ rfl rfl rfl rfl rfl rfl
    · exact hset _ _ rfl rfl
  | read_change =>
    obtain ⟨r, hr⟩ := s.change_read_state_eq .read_none .read_pending
    simp only [action, hr]
    exact hsame _ rfl rfl rfl rfl rfl rfl
  | data_change size =>
    obtain ⟨r, hr⟩ := s.change_read_state_eq .read_pending .read_none
    simp only [action, hr]
    exact hsame _ rfl rfl rfl rfl rfl rfl
  | once_size w | once_want w =>
    simp only [action]
    split
    · exact hsame _ rfl rfl rfl rfl rfl rfl
    · exact hsame _ rfl rfl rfl rfl rfl rfl
  | flow_send w =>
    simp only [action]
    split
    · exact hsame _ rfl rfl rfl rfl rfl rfl
    · next iob _ =>
      obtain ⟨size, send_iob, hr⟩ := s.flow_send_eq iob n
      simp only [hr]
      exact hsame _ rfl rfl rfl rfl rfl rfl
  | handle_sent w =>
    simp only [action]
    split
    · exact hsame _ rfl rfl rfl rfl rfl rfl
    · split
      · exact hpost _ rfl rfl
      · exact hsame _ rfl rfl rfl rfl rfl rfl

/-- The state after a step of the thread at `pc`: as it was, or a move. -/
def StateEffect (k : TransportKind) (s : BaseTransport ι) (pc : TransportPc)
    (r : TransportPc × BaseTransport ι) : Prop :=
  (r.2.state = s.state ∧ ¬ r.1.ending) ∨ Move k pc s.state r.2.state r.1

theorem set_state_effect {s : BaseTransport ι} {pc won lost : TransportPc}
    {expected desired : TransportState} (hmove : Move k pc expected desired won)
    (hlost : ¬ lost.ending) :
    StateEffect k s pc (if (s.set_state expected desired).1 then won else lost,
      (s.set_state expected desired).2) := by
  unfold set_state
  split
  · next h =>
    right
    rw [h]
    exact hmove
  · left
    exact ⟨rfl, hlost⟩

theorem send_failed_not_ending (w : Sending) : ¬ (send_failed w).ending := by
  cases w <;> exact id

theorem send_more_not_ending (w : Sending) : ¬ (send_more w).ending := by
  cases w <;> exact id

theorem send_done_not_ending (w : Sending) : ¬ (send_done w).ending := by
  cases w <;> exact id

variable (k) in
theorem action_state (s : BaseTransport ι) (ok : Bool) (n : Int) (pc : TransportPc) :
    StateEffect k s pc (s.action k ok n pc) := by
  cases pc with
  | idle | start_return | stop_post | read_post | read_sub | read_return | send_opt
  | send_post | send_sub | send_return | once | handle_clear | sub_size | sub | aborted | call
  | read_start =>
    left
    refine ⟨?_, id⟩
    first
    | rfl
    | simp only [action]
      obtain ⟨posted, hposted⟩ := s.post_channel_event_eq ok channel_event_disconnected
      rw [hposted]
    | simp only [action]
      obtain ⟨posted, hposted⟩ := s.post_channel_event_eq ok channel_event_read
      rw [hposted]
  | stop_loop | stop_wait | stop_pending | read_check | read_started | read_unread | send_check
  | send_started | send_create | event_last | data_wait | send_add | read_opt =>
    left
    refine ⟨rfl, ?_⟩
    simp only [action]
    repeat' split
    all_goals exact id
  | data_read =>
    left
    refine ⟨rfl, ?_⟩
    simp only [action]
    repeat' split
    all_goals exact id
  | start_stages rest =>
    rcases rest with _ | ⟨st, rest⟩
    · exact Or.inl ⟨rfl, id⟩
    · left
      refine ⟨rfl, ?_⟩
      simp only [action]
      split
      · exact id
      · exact id
  | start_state mode sent_cb =>
    -- here the state may change
    simp only [action]
    unfold set_state
    split
    · next h =>
      right
      simp only [if_true, h]
      exact .start_state mode sent_cb
    · left
      exact ⟨rfl, id⟩
  | start_started => exact set_state_effect .start_started id
  | start_error =>
    simp only [action]
    unfold set_state
    split
    · next h =>
      right
      rw [h]
      exact .start_error
    · left
      exact ⟨rfl, id⟩
  | stop_started force => exact set_state_effect (.stop_started force) id
  | stop_disconnecting =>
    simp only [action]
    unfold set_state
    split
    · next h =>
      right
      rw [h]
      exact .stop_disconnecting
    · left
      exact ⟨rfl, id⟩
  | send_disconnecting iob => exact set_state_effect (.send_disconnecting iob) id
  | event_disconnecting => exact set_state_effect .event_disconnecting id
  | event_disconnected => exact set_state_effect .event_disconnected id
  | event_stopped => exact set_state_effect .event_stopped id
  | data_disconnecting => exact set_state_effect .data_disconnecting id
  | data_disconnected => exact set_state_effect .data_disconnected id
  | channel_disconnected => exact set_state_effect .channel_disconnected id
  | channel_stopped => exact set_state_effect .channel_stopped id
  | read_change =>
    -- the state of reading is another field
    obtain ⟨r, hr⟩ := s.change_read_state_eq .read_none .read_pending
    left
    simp only [action, hr, true_and]
    repeat' split
    all_goals exact id
  | data_change size =>
    obtain ⟨r, hr⟩ := s.change_read_state_eq .read_pending .read_none
    left
    simp only [action, hr, true_and]
    exact id
  | data_start size =>
    left
    refine ⟨rfl, ?_⟩
    simp only [action]
    repeat' split
    all_goals exact id
  | data_call size disconnected =>
    left
    refine ⟨rfl, ?_⟩
    simp only [action]
    split
    · exact id
    · exact id
  | send_push iob op =>
    obtain ⟨sendlist, last, hq⟩ := s.sendlist_step_eq ok op
    left
    simp only [action, hq, true_and]
    split
    · exact id
    · exact id
  | once_pop w op =>
    obtain ⟨sendlist, last, hq⟩ := s.sendlist_step_eq ok op
    left
    simp only [action, hq, true_and]
    split
    all_goals exact id
  | once_size w =>
    left
    simp only [action]
    split
    · exact ⟨rfl, id⟩
    · exact ⟨rfl, id⟩
  | once_want w =>
    left
    simp only [action]
    split
    · exact ⟨rfl, send_failed_not_ending w⟩
    · exact ⟨rfl, id⟩
  | flow_send w =>
    left
    simp only [action]
    split
    · exact ⟨rfl, id⟩
    · next iob _ =>
      obtain ⟨size, send_iob, hr⟩ := s.flow_send_eq iob n
      simp only [hr, true_and]
      split
      · exact id
      · exact id
      · exact send_failed_not_ending w
  | handle_sent w =>
    left
    simp only [action]
    split
    · exact ⟨rfl, id⟩
    · next iob _ =>
      refine ⟨?_, id⟩
      split
      · obtain ⟨posted, hposted⟩ := s.post_channel_event_eq ok (channel_event_buffer_sent iob)
        rw [hposted]
      · rfl
  | sub_compare w old size =>
    left
    refine ⟨rfl, ?_⟩
    simp only [action]
    split
    · exact send_more_not_ending w
    · exact send_done_not_ending w
  | start_tracker w =>
    left
    refine ⟨rfl, ?_⟩
    simp only [action]
    split
    · cases w <;> exact id
    · exact send_failed_not_ending w

variable [DecidableEq ι]

/-- A function was entered by the idle thread `i`, at `pc`. -/
structure Entered (s : BaseTransport ι) (l : TransportLabel ι) (i : ι) (pc : TransportPc)
    (s' : BaseTransport ι) : Prop where
  idle : s.pcs i = .idle
  pcs : s'.pcs = Function.update s.pcs i pc
  state : s'.state = s.state
  calls : s'.calls = s.calls
  no_end : ¬ pc.ending
  no_data : ¬ pc.holds_data
  no_step : ∀ j ok n, l ≠ .step j ok n

/-- The thread `i` took a step to `pc`. -/
structure Stepped (k : TransportKind) (s : BaseTransport ι) (i : ι) (pc : TransportPc)
    (s' : BaseTransport ι) : Prop where
  pcs : s'.pcs = Function.update s.pcs i pc
  state : StateEffect k s (s.pcs i) (pc, s')
  calls : s'.calls = s.calls ++ (s.pcs i).called

theorem enter_eq {s s' : BaseTransport ι} {i : ι} {pc : TransportPc}
    (h : s.enter i pc = some s') : s.pcs i = .idle ∧ s' = s.goto i pc := by
  unfold enter at h
  split at h
  · next hidle =>
    cases h
    exact ⟨hidle, rfl⟩
  · cases h

/-- Entering a function leaves the state and the callbacks as they are. -/
theorem entered_of_enter {s s₀ s' : BaseTransport ι} {l : TransportLabel ι} {i : ι}
    {pc : TransportPc} (h : s₀.enter i pc = some s') (hpcs : s₀.pcs = s.pcs)
    (hstate : s₀.state = s.state) (hcalls : s₀.calls = s.calls) (hend : ¬ pc.ending)
    (hdata : ¬ pc.holds_data) (hl : ∀ j ok n, l ≠ .step j ok n) : Entered s l i pc s' := by
  obtain ⟨hidle, rfl⟩ := enter_eq h
  refine ⟨?_, ?_, hstate, hcalls, hend, hdata, hl⟩
  · rw [← hpcs]
    exact hidle
  · rw [← hpcs]
    rfl

/-- **The steps.** -/
theorem step_effect {s s' : BaseTransport ι} {l : TransportLabel ι} (h : step k s l = some s') :
    (∃ i pc, Entered s l i pc s') ∨
      ∃ i ok n, l = .step i ok n ∧ Stepped k s i (s.action k ok n (s.pcs i)).1 s' := by
  cases l with
  | start i valid mode sent_cb =>
    -- a call enters at its first place, whatever its arguments
    refine Or.inl ⟨i, _, entered_of_enter h rfl rfl rfl ?_ ?_ (by nofun)⟩
    all_goals
      split
      · exact id
      · exact id
  | stop i => exact Or.inl ⟨i, _, entered_of_enter h rfl rfl rfl id id (by nofun)⟩
  | force_stop i => exact Or.inl ⟨i, _, entered_of_enter h rfl rfl rfl id id (by nofun)⟩
  | async_read i => exact Or.inl ⟨i, _, entered_of_enter h rfl rfl rfl id id (by nofun)⟩
  | send i size copied =>
    simp only [step] at h
    split at h
    · refine Or.inl ⟨i, _, entered_of_enter h rfl rfl rfl ?_ ?_ (by nofun)⟩
      all_goals
        split
        · exact id
        · exact id
    · cases h
  | read_event i =>
    simp only [step] at h
    split at h
    · exact Or.inl ⟨i, _, entered_of_enter h rfl rfl rfl id id (by nofun)⟩
    · cases h
  | send_event i =>
    simp only [step] at h
    split at h
    · exact Or.inl ⟨i, _, entered_of_enter h rfl rfl rfl id id (by nofun)⟩
    · cases h
  | channel_event i ev =>
    simp only [step] at h
    split at h
    · refine Or.inl ⟨i, _, entered_of_enter h rfl rfl rfl ?_ ?_ (by nofun)⟩
      · cases ev with
        | channel_event_disconnected => exact id
        | channel_event_buffer_sent iob => exact Bool.false_ne_true
        | channel_event_read =>
          simp only
          split
          · exact id
          · exact id
      · cases ev with
        | channel_event_disconnected | channel_event_buffer_sent iob => exact id
        | channel_event_read =>
          simp only
          split
          · exact id
          · exact id
    · cases h
  | step i ok n =>
    cases h
    have hrec := action_recorded k s ok n (s.pcs i)
    refine Or.inr ⟨i, ok, n, rfl, ?_, action_state k s ok n (s.pcs i), hrec.calls⟩
    show Function.update (s.action k ok n (s.pcs i)).2.pcs i _ = _
    rw [hrec.pcs]

/-! ## Section 2: One terminal callback -/

/-- How many terminal callbacks were called. -/
def ends (s : BaseTransport ι) : Nat := s.calls.countP TransportCall.ends

/-- At most one terminal callback, and the state is terminal from the moment
    it is due. -/
def OneEnd (s : BaseTransport ι) : Prop :=
  Once (fun i => (s.pcs i).ending) s.ends s.state.ended

/-- No move leaves a terminal state, and one that brings a terminal callback
    due leads to one. -/
theorem Move.ended {pc pc' : TransportPc} {st st' : TransportState} (h : Move k pc st st' pc') :
    ¬ st.ended ∧ pc.called = [] ∧ ¬ pc.ending ∧ (pc'.ending → st'.ended) := by
  cases h with
  | start_state | start_started | start_error | stop_started | stop_disconnecting
  | send_disconnecting | event_disconnecting | data_disconnecting => exact ⟨id, rfl, id, fun h => h.elim⟩
  | event_disconnected | event_stopped | data_disconnected | channel_disconnected
  | channel_stopped => exact ⟨id, rfl, id, fun _ => trivial⟩

theorem oneEnd_step {s s' : BaseTransport ι} {l : TransportLabel ι} (hinv : OneEnd s)
    (h : step k s l = some s') : OneEnd s' := by
  unfold OneEnd at hinv ⊢
  rcases step_effect h with ⟨i, pc, he⟩ | ⟨i, ok, n, -, hs⟩
  · have hends : s'.ends = s.ends := by
      unfold ends
      rw [he.calls]
    rw [hends, he.state]
    apply hinv.aside (i := i)
    · rw [he.pcs, Function.update_self]
      exact he.no_end
    · intro j hji hj
      rwa [he.pcs, Function.update_of_ne hji] at hj
    · exact id
  · have hother : ∀ j, j ≠ i → (s'.pcs j).ending → (s.pcs j).ending := by
      intro j hji hj
      rwa [hs.pcs, Function.update_of_ne hji] at hj
    obtain ⟨pc, hpc⟩ : ∃ pc, (s.action k ok n (s.pcs i)).1 = pc := ⟨_, rfl⟩
    rw [hpc] at hs
    have hself : s'.pcs i = pc := by
      rw [hs.pcs, Function.update_self]
    have hends : s'.ends = s.ends + (s.pcs i).called.countP TransportCall.ends := by
      unfold ends
      rw [hs.calls, List.countP_append]
    rcases hs.state with ⟨hstate, hpc⟩ | hmove
    · simp only at hstate hpc
      rw [hstate]
      by_cases hdue : (s.pcs i).ending
      · -- the callback that was due is called
        have hone : (s.pcs i).called.countP TransportCall.ends = 1 := by
          unfold TransportPc.ending at hdue
          split at hdue
          · next c hc =>
            rw [hc]
            simp [TransportPc.called, hdue]
          · exact hdue.elim
        rw [hends, hone]
        exact hinv.call hdue (by rw [hself]; exact hpc) hother
      · -- the thread calls nothing, or `read_cb` or `sent_cb`
        have hnone : (s.pcs i).called.countP TransportCall.ends = 0 := by
          rcases hc : s.pcs i with _ | _
          all_goals
            first
            | rfl
            | rw [hc] at hdue
              simpa [TransportPc.called, TransportPc.ending] using hdue
        rw [hends, hnone]
        apply hinv.aside _ hother id
        rw [hself]
        exact hpc
    · -- the state was not terminal before the exchange
      obtain ⟨hnot, hcalled, -, hwin⟩ := hmove.ended
      rw [hends, hcalled]
      by_cases hend : pc.ending
      · exact hinv.win hnot (hwin hend) hother
      · apply hinv.aside _ hother fun hended => absurd hended hnot
        rw [hself]
        exact hend

theorem reachable_oneEnd {s : BaseTransport ι} (h : Reachable (step k) AnyStep new s) : OneEnd s := by
  apply h.invariant
  · exact Once.start
  · intro s l s' hinv _ hstep
    exact oneEnd_step hinv hstep

/-- A terminal state is kept. -/
theorem ended_step {s s' : BaseTransport ι} {l : TransportLabel ι} (hended : s.state.ended)
    (h : step k s l = some s') : s'.state = s.state := by
  rcases step_effect h with ⟨i, pc, he⟩ | ⟨i, ok, n, -, hs⟩
  · exact he.state
  · rcases hs.state with ⟨hstate, -⟩ | hmove
    · exact hstate
    · exact absurd hended hmove.ended.1

theorem ended_exec {s s' : BaseTransport ι} {ls : List (TransportLabel ι)}
    (hended : s.state.ended) (h : exec (step k) s ls = some s') : s'.state = s.state := by
  induction ls generalizing s with
  | nil =>
    cases h
    rfl
  | cons l ls ih =>
    obtain ⟨mid, hstep, hrest⟩ := Option.bind_eq_some_iff.mp h
    have hmid := ended_step hended hstep
    rw [ih (hmid ▸ hended) hrest, hmid]

/-- **One terminal callback.** In every run `disconnected_cb` and `stopped_cb`
    are called at most once together, and after the call the state is terminal
    in every continuation of the run. -/
theorem run_ends_once {s : BaseTransport ι} (h : Reachable (step k) AnyStep new s) :
    s.ends ≤ 1 ∧
      (s.ends ≠ 0 → s.state.ended ∧
        ∀ ls s', exec (step k) s ls = some s' → s'.state = s.state) := by
  have hinv := reachable_oneEnd h
  refine ⟨hinv.le_one, ?_⟩
  intro hends
  have hended := (hinv.made_ended hends).2
  refine ⟨hended, ?_⟩
  intro ls s' hexec
  exact ended_exec hended hexec

/-- `start`, with everything in the system succeeding. -/
def started_labels (i : ι) (k : TransportKind) (mode : ReadMode) (sent_cb : Bool) :
    List (TransportLabel ι) :=
  .start i true mode sent_cb :: List.replicate (k.stages.length + 4) (.step i true 0)

/-- Thread 0 starts the transport and reads, and the poller finds the socket closed. -/
theorem run_ends_once_closed :
    ∃ s : BaseTransport (Fin 2), exec (step .tcp) new
        (started_labels 0 .tcp read_mode_once true ++
          TransportLabel.async_read 0 :: List.replicate 7 (.step 0 true 0) ++
          TransportLabel.read_event 1 :: List.replicate 5 (.step 1 true 0)) = some s ∧
      s.ends = 1 ∧ s.state = state_disconnected ∧
      (s.ends ≤ 1 ∧
        (s.ends ≠ 0 → s.state.ended ∧
          ∀ ls s', exec (step .tcp) s ls = some s' → s'.state = s.state)) := by
  have hrun : (exec (step .tcp) (new : BaseTransport (Fin 2))
      (started_labels 0 .tcp read_mode_once true ++
        TransportLabel.async_read 0 :: List.replicate 7 (.step 0 true 0) ++
        TransportLabel.read_event 1 :: List.replicate 5 (.step 1 true 0))).map
          (fun s => (s.ends, s.state)) = some (1, state_disconnected) := by
    decide
  obtain ⟨s, hexec, hs⟩ := Option.map_eq_some_iff.mp hrun
  simp only [Prod.mk.injEq] at hs
  exact ⟨s, hexec, hs.1, hs.2, run_ends_once (.of_exec hexec (meets_anyStep _ _ _))⟩

end BaseTransport

end Pump
