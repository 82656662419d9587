import Pump.Transport.Sending

/-! # The thread that sends

    `pending_send_size_` says who sends: the thread that adds to a counter of
    zero, until it subtracts the last of it or leaves the rest to the poller.
    What that thread knows, and what is true where nobody sends, is the same
    for every step that leaves the list and the counter alone. -/

namespace Pump

open TransportState ErrorCode Tracker ChannelEvent
open M2m (Op Ops Slot Turn)

namespace TransportPc

/-- The buffer of a `send` that is counted and has not failed. -/
def taken : TransportPc → Option Nat
  | .once (.async iob) | .once_pop (.async iob) _ | .once_size (.async iob)
  | .once_want (.async iob) | .flow_send (.async iob) | .handle_sent (.async iob)
  | .handle_clear (.async iob) | .sub_size (.async iob) | .sub (.async iob) _
  | .sub_compare (.async iob) _ _ | .start_tracker (.async iob) => some iob
  | .send_sub iob error_none | .send_return iob error_none => some iob
  | _ => none

end TransportPc

namespace BaseTransport

variable {ι : Type}

/-! ## Section 1: The sending role -/

/-- The size of the buffer that is sent is saved. -/
def Saved (s : BaseTransport ι) (flight : Nat) : Prop :=
  s.last_send_iob_size.toInt = flight ∧ 0 < flight

/-- Between two buffers. -/
def Between (s : BaseTransport ι) (flight : Nat) : Prop :=
  s.last_send_iob = none ∧ s.send_iob = none ∧ flight = 0

/-- Where nobody is sending: there is no buffer in flight, or the flow has it. -/
def Resting (s : BaseTransport ι) (flight : Nat) : Prop :=
  s.Between flight ∨ ∃ v, s.last_send_iob = some v ∧ s.send_iob = some v ∧ s.Saved flight

/-- What the pop has found. -/
def found : Op Nat → Option Nat
  | .pop_ready _ data => data
  | _ => none

/-- What the thread that sends knows at `p`, where `read` is the buffer it is
    popping and `flight` is what it still has to subtract for the buffer in
    flight. -/
def Phase (s : BaseTransport ι) (read : Option Nat) (flight : Nat) : TransportPc → Prop
  | .once _ => s.Between flight
  | .once_pop _ op => s.send_iob = none ∧ s.last_send_iob = found op ∧
      (read = none → flight = 0) ∧
      ∀ v, read = some v → s.iob_size v = flight ∧ 0 < flight ∧ flight < 2 ^ 31
  | .once_size _ => s.send_iob = none ∧
      ∃ v, s.last_send_iob = some v ∧ s.iob_size v = flight ∧ 0 < flight ∧ flight < 2 ^ 31
  | .once_want _ => s.send_iob = none ∧ (∃ v, s.last_send_iob = some v) ∧ s.Saved flight
  | .flow_send _ => ∃ v, s.last_send_iob = some v ∧ s.send_iob = some v ∧ s.Saved flight
  | .handle_sent _ | .handle_clear _ => s.send_iob = none ∧
      (∃ v, s.last_send_iob = some v ∧ s.iob_size v = 0) ∧ s.Saved flight
  | .sub_size _ => s.last_send_iob = none ∧ s.send_iob = none ∧ s.Saved flight
  | .sub _ size => s.last_send_iob = none ∧ s.send_iob = none ∧ s.Saved flight ∧
      size = s.last_send_iob_size
  | .sub_compare _ _ size => s.Between flight ∧ size = s.last_send_iob_size
  | .start_tracker _ | .event_last => s.Resting flight
  | _ => True

/-- What is counted: the buffers in the list and what is in flight. -/
def load (s : BaseTransport ι) (counted : Finset Nat) (flight : Nat) : Nat :=
  (∑ v ∈ counted, s.iob_size v) + flight

/-- `send` has taken the buffer: it has returned `error_none` for it, or will
    do so if nothing fails. -/
def Taken (s : BaseTransport ι) (v : Nat) : Prop :=
  (v, error_none) ∈ s.results ∨ ∃ i, (s.pcs i).taken = some v

/-- The buffer is counted, or sent. -/
def Accounted (s : BaseTransport ι) (reads : ι → Option Nat) (counted : Finset Nat)
    (flight v : Nat) : Prop :=
  v ∈ counted ∨ (0 < flight ∧ s.InFlight reads v) ∨ s.iob_size v = 0

/-- The counter is right and the baton goes with it: a thread has it, or the
    poller, or it is `lost` where sending has failed. -/
structure Role (s : BaseTransport ι) (reads : ι → Option Nat) (counted : Finset Nat)
    (flight : Nat) (lost : Prop) : Prop where
  pending : s.pending_send_size.toInt = s.load counted flight
  baton : Baton (fun i => (s.pcs i).owns) (s.s_tracker = tracker_tracking ∨ lost)
    (s.load counted flight)
  phase : ∀ i, (s.pcs i).owns → s.Phase (reads i) flight (s.pcs i)
  rest : (∀ i, ¬ (s.pcs i).owns) → s.Resting flight
  account : ∀ v, s.Taken v → v < s.iobs ∧ s.Accounted reads counted flight v
  asserted : s.asserted = true

def SendInv (s : BaseTransport ι) : Prop :=
  ∃ slots free reads counted flight lost,
    Stock s slots free reads counted ∧ Role s reads counted flight lost

theorem new_sendInv : SendInv (new : BaseTransport ι) := by
  obtain ⟨free, hstock⟩ := new_stock (ι := ι)
  refine ⟨[], free, _, ∅, 0, False, hstock, rfl, ?_, nofun, ?_, ?_, rfl⟩
  · apply Baton.start.mono
    · exact fun _ h => h
    · rintro (h | h)
      · cases h
      · exact h
    · exact Nat.zero_le _
  · intro _
    exact Or.inl ⟨rfl, rfl, rfl⟩
  · rintro v (hv | ⟨i, hv⟩)
    · cases hv
    · cases hv

variable {s s' : BaseTransport ι} {slots : List (Slot Nat)} {free : List Nat}
  {reads : ι → Option Nat} {counted : Finset Nat} {flight : Nat} {lost : Prop} {i : ι}
  {p : TransportPc}

theorem buffer_of_owns (h : p.owns) : p.buffer = none := by
  cases p with
  | send_check | send_opt | send_started | send_create | send_push | send_add => exact h.elim
  | _ => rfl

theorem uncounted_of_owns (h : p.owns) : p.uncounted = none := by
  cases p with
  | send_push | send_add => exact h.elim
  | _ => rfl

/-- The counted buffers are not in flight. -/
theorem load_eq (h : Stock s slots free reads counted)
    (hsize : ∀ v, ¬ s.InFlight reads v → s'.iob_size v = s.iob_size v) :
    s'.load counted flight = s.load counted flight := by
  unfold load
  rw [Finset.sum_congr rfl]
  intro v hv
  apply hsize
  intro hin
  exact (h.flight v hin).2.1 (h.counted_mem hv).1

/-- What a thread knows that sends while another takes a step. -/
theorem Phase.congr {read : Option Nat} (h : s.Phase read flight p)
    (hlast : s'.last_send_iob = s.last_send_iob) (hsend : s'.send_iob = s.send_iob)
    (hsaved : s'.last_send_iob_size = s.last_send_iob_size)
    (hsize : ∀ v, s.last_send_iob = some v ∨ read = some v → s'.iob_size v = s.iob_size v) :
    s'.Phase read flight p := by
  cases p with
  | once w | sub_compare w old size | sub_size w | sub w size | once_want w | flow_send w
  | start_tracker w | event_last =>
    simp only [Phase, Between, Resting, Saved, hlast, hsend, hsaved] at h ⊢
    exact h
  | once_pop w op =>
    obtain ⟨hnone, hfound, hzero, hread⟩ := h
    refine ⟨hsend.trans hnone, hlast.trans hfound, hzero, ?_⟩
    intro v hv
    rw [hsize v (Or.inr hv)]
    exact hread v hv
  | once_size w =>
    obtain ⟨hnone, v, hv, hrest⟩ := h
    refine ⟨hsend.trans hnone, v, hlast.trans hv, ?_⟩
    rw [hsize v (Or.inl hv)]
    exact hrest
  | handle_sent w | handle_clear w =>
    obtain ⟨hnone, ⟨v, hv, hzero⟩, hs⟩ := h
    refine ⟨hsend.trans hnone, ⟨v, hlast.trans hv, ?_⟩, ?_⟩
    · rw [hsize v (Or.inl hv)]
      exact hzero
    · unfold Saved
      rw [hsaved]
      exact hs
  | _ => trivial

theorem Resting.congr (h : s.Resting flight) (hlast : s'.last_send_iob = s.last_send_iob)
    (hsend : s'.send_iob = s.send_iob) (hsaved : s'.last_send_iob_size = s.last_send_iob_size) :
    s'.Resting flight := by
  unfold Resting Between Saved at h ⊢
  rw [hlast, hsend, hsaved]
  exact h

variable [DecidableEq ι]

/-- What was taken is taken in the next state by the same thread, or it has
    returned. -/
theorem taken_of_pcs {v : Nat} (hpcs : s'.pcs = Function.update s.pcs i p)
    (hresults : s'.results = s.results)
    (htaken : ∀ v, p.taken = some v → (s.pcs i).taken = some v) (hv : s'.Taken v) :
    s.Taken v := by
  rcases hv with hv | ⟨j, hv⟩
  · rw [hresults] at hv
    exact Or.inl hv
  · rcases Stock.pcs_cases hpcs j with ⟨-, hpcj⟩ | ⟨-, hpcj⟩
    · rw [hpcj] at hv
      exact Or.inr ⟨i, htaken v hv⟩
    · rw [hpcj] at hv
      exact Or.inr ⟨j, hv⟩

/-- The thread that sends takes a step. -/
theorem Role.turn (h : Role s reads counted flight lost) {reads' : ι → Option Nat}
    {counted' : Finset Nat} {flight' : Nat} {lost' : Prop} (hi : (s.pcs i).owns)
    (hpcs : s'.pcs = Function.update s.pcs i p)
    (hpending : s'.pending_send_size.toInt = s'.load counted' flight')
    (hkeep : p.owns → 0 < s'.load counted' flight')
    (hphase : p.owns → s'.Phase (reads' i) flight' p)
    (hrest : ¬ p.owns → s'.Resting flight')
    (hdown : s'.s_tracker = tracker_tracking ∨ lost' →
      ¬ p.owns ∧ 0 < s'.load counted' flight')
    (hresults : s'.results = s.results) (hiobs : s'.iobs = s.iobs)
    (htaken : ∀ v, p.taken = some v → (s.pcs i).taken = some v)
    (haccount : ∀ v, v < s.iobs → s.Accounted reads counted flight v →
      s'.Accounted reads' counted' flight' v)
    (hasserted : s'.asserted = true) : Role s' reads' counted' flight' lost' := by
  have hself : s'.pcs i = p := by
    rw [hpcs, Function.update_self]
  have hothers : ∀ j, j ≠ i → (s'.pcs j).owns → (s.pcs j).owns := by
    intro j hji hj
    rwa [hpcs, Function.update_of_ne hji] at hj
  refine ⟨hpending, ?_, ?_, ?_, ?_, hasserted⟩
  · apply h.baton.turn hi hothers
    · rw [hself]
      exact hkeep
    · rw [hself]
      exact hdown
  · -- the thread is still the only one that sends
    intro j hj
    have hji : j = i := by
      by_contra hji
      exact hji (h.baton.unique j i (hothers j hji hj) hi)
    rw [hji, hself] at hj ⊢
    exact hphase hj
  · intro hnone
    apply hrest
    rw [← hself]
    exact hnone i
  · intro v hv
    obtain ⟨hlt, hacc⟩ := h.account v (taken_of_pcs hpcs hresults htaken hv)
    rw [hiobs]
    exact ⟨hlt, haccount v hlt hacc⟩

/-- A thread that does not send takes a step, and leaves what is sent alone.
    It may count a buffer while others are counted. -/
theorem Role.others (h : Role s reads counted flight lost)
    (hst : Stock s slots free reads counted) {counted' : Finset Nat}
    (hi : ¬ (s.pcs i).owns) (hpc : ¬ p.owns) (hpcs : s'.pcs = Function.update s.pcs i p)
    (hpending : s'.pending_send_size.toInt = s'.load counted' flight)
    (hload : s.load counted flight ≤ s'.load counted' flight) (hsub : counted ⊆ counted')
    (htracker : s'.s_tracker = s.s_tracker) (hlast : s'.last_send_iob = s.last_send_iob)
    (hsend : s'.send_iob = s.send_iob) (hsaved : s'.last_send_iob_size = s.last_send_iob_size)
    (hsize : ∀ v, v < s.iobs → s'.iob_size v = s.iob_size v) (hiobs : s.iobs ≤ s'.iobs)
    (htaken : ∀ v, s'.Taken v → s.Taken v ∨ (v < s.iobs ∧ v ∈ counted'))
    (hasserted : s'.asserted = s.asserted) : Role s' reads counted' flight lost := by
  have hsame : ∀ j, (s'.pcs j).owns → s'.pcs j = s.pcs j ∧ (s.pcs j).owns := by
    intro j hj
    rcases Stock.pcs_cases hpcs j with ⟨-, hpcj⟩ | ⟨-, hpcj⟩
    · rw [hpcj] at hj
      exact absurd hj hpc
    · rw [hpcj] at hj
      exact ⟨hpcj, hj⟩
  have hsent : ∀ v, s.InFlight reads v → s'.iob_size v = s.iob_size v := by
    intro v hv
    exact hsize v (hst.flight v hv).1
  refine ⟨hpending, ?_, ?_, ?_, ?_, hasserted.trans h.asserted⟩
  · apply h.baton.mono
    · exact fun j hj => (hsame j hj).2
    · rw [htracker]
      exact id
    · exact hload
  · -- what the thread that sends knows is not touched
    intro j hj
    obtain ⟨hpcj, hj'⟩ := hsame j hj
    rw [hpcj]
    apply (h.phase j hj').congr hlast hsend hsaved
    rintro v (hv | hv)
    · exact hsent v (Or.inl hv)
    · exact hsent v (Or.inr (Or.inr ⟨j, hv⟩))
  · intro hnone
    apply (h.rest _).congr hlast hsend hsaved
    intro j hj
    rcases Stock.pcs_cases hpcs j with ⟨rfl, -⟩ | ⟨-, hpcj⟩
    · exact hi hj
    · exact hnone j (hpcj ▸ hj)
  · intro v hv
    rcases htaken v hv with hv | ⟨hlt, hv⟩
    · obtain ⟨hlt, hacc⟩ := h.account v hv
      refine ⟨hlt.trans_le hiobs, ?_⟩
      rcases hacc with hacc | hacc | hacc
      · exact Or.inl (hsub hacc)
      · unfold InFlight at hacc
        rw [← hlast, ← hsend] at hacc
        exact Or.inr (Or.inl hacc)
      · exact Or.inr (Or.inr ((hsize v hlt).trans hacc))
    · exact ⟨hlt.trans_le hiobs, Or.inl hv⟩

omit [DecidableEq ι] in
/-- While a thread sends, the poller does not. -/
theorem Role.not_down (h : Role s reads counted flight lost) (hi : (s.pcs i).owns) :
    s.s_tracker ≠ tracker_tracking ∧ ¬ lost := by
  rw [← not_or]
  intro hdown
  exact h.baton.apart hdown i hi

omit [DecidableEq ι] in
theorem reads_none (h : Stock s slots free reads counted) (hi : (s.pcs i).queue_op = none) :
    reads i = none := by
  apply h.queue.core.not_taken
  show M2m.reading (s.pcs i).queue_op = none
  rw [hi]
  rfl

/-- The thread that sends takes a step that leaves the list and the counter
    alone. -/
theorem sendInv_turn (hst : Stock s slots free reads counted)
    (hr : Role s reads counted flight lost) (lost' : Prop) {flight' : Nat}
    (hi : (s.pcs i).owns) (hold : (s.pcs i).queue_op = none)
    (hpcs : s'.pcs = Function.update s.pcs i p) (hlist : s'.sendlist = s.sendlist)
    (hiobs : s'.iobs = s.iobs) (hpending : s'.pending_send_size = s.pending_send_size)
    (hload : flight' = flight) (hbuffer : p.buffer = none)
    (hpop : ∀ w op, p = .once_pop w op → op = .pop_load)
    (hsize : ∀ v, ¬ s.InFlight reads v → s'.iob_size v = s.iob_size v)
    (hless : ∀ v, s'.iob_size v ≤ s.iob_size v)
    (hflight : ∀ v, s'.InFlight reads v → s.InFlight reads v)
    (hkept : ∀ v, s.InFlight reads v → s'.InFlight reads v ∨ s'.iob_size v = 0)
    (hphase : p.owns → s'.Phase none flight' p) (hrest : ¬ p.owns → s'.Resting flight')
    (hdown : s'.s_tracker = tracker_tracking ∨ lost' → ¬ p.owns)
    (hresults : s'.results = s.results)
    (htaken : ∀ v, p.taken = some v → (s.pcs i).taken = some v)
    (hasserted : s'.asserted = true) : SendInv s' := by
  subst hload
  have hloads : s'.load counted flight' = s.load counted flight' := load_eq hst hsize
  have hpos := hr.baton.held_pos i hi
  have hnone : p.uncounted = none := by
    rcases hu : p.uncounted with _ | v
    · rfl
    · rw [TransportPc.buffer_of_uncounted hu] at hbuffer
      cases hbuffer
  refine ⟨slots, free, reads, counted, flight', lost', ?_, ?_⟩
  · apply hst.quiet hpcs hlist hiobs hold
    · intro iob op heq
      rw [heq] at hbuffer
      cases hbuffer
    · exact hpop
    · intro v hv
      rw [hbuffer] at hv
      cases hv
    · rw [hnone, uncounted_of_owns hi]
    · exact hsize
    · exact hflight
  · apply hr.turn hi hpcs
    · rw [hpending, hloads]
      exact hr.pending
    · intro _
      rw [hloads]
      exact hpos
    · rw [reads_none hst hold]
      exact hphase
    · exact hrest
    · intro hd
      rw [hloads]
      exact ⟨hdown hd, hpos⟩
    · exact hresults
    · exact hiobs
    · exact htaken
    · rintro v - (hv | ⟨hzero, hv⟩ | hv)
      · exact Or.inl hv
      · rcases hkept v hv with hv | hv
        · exact Or.inr (Or.inl ⟨hzero, hv⟩)
        · exact Or.inr (Or.inr hv)
      · exact Or.inr (Or.inr (Nat.le_zero.mp (hv ▸ hless v)))
    · exact hasserted

/-- What is sent is as it was. -/
structure SameSend (s s' : BaseTransport ι) : Prop where
  s_tracker : s'.s_tracker = s.s_tracker
  pending : s'.pending_send_size = s.pending_send_size
  last_size : s'.last_send_iob_size = s.last_send_iob_size
  last : s'.last_send_iob = s.last_send_iob
  send_iob : s'.send_iob = s.send_iob
  sendlist : s'.sendlist = s.sendlist
  iob_size : s'.iob_size = s.iob_size
  asserted : s'.asserted = s.asserted

/-- A thread that has nothing to do with sending goes from one function to the
    next, or is on its way to push its buffer. -/
structure Aside (p p' : TransportPc) : Prop where
  not_owns : ¬ p.owns
  not_owns' : ¬ p'.owns
  queue_op : p.queue_op = none
  push : ∀ iob op, p' = .send_push iob op → op = .push_load iob
  buffer : ∀ v, p'.buffer = some v → p.buffer = some v
  uncounted : p'.uncounted = p.uncounted
  taken : ∀ v, p'.taken = some v → p.taken = some v

theorem sendInv_aside (h : SendInv s) (hsame : SameSend s s') (hpc : Aside (s.pcs i) p)
    (hpcs : s'.pcs = s.pcs) (hiobs : s'.iobs = s.iobs)
    (hresults : s'.results = s.results ++ (s.pcs i).returned) : SendInv (s'.goto i p) := by
  obtain ⟨slots, free, reads, counted, flight, lost, hst, hr⟩ := h
  have hpcs' : (s'.goto i p).pcs = Function.update s.pcs i p := by
    show Function.update s'.pcs i p = _
    rw [hpcs]
  have hsize : ∀ v, (s'.goto i p).iob_size v = s.iob_size v := by
    intro v
    show s'.iob_size v = _
    rw [hsame.iob_size]
  have hloads : (s'.goto i p).load counted flight = s.load counted flight :=
    load_eq hst fun v _ => hsize v
  refine ⟨slots, free, reads, counted, flight, lost, ?_, ?_⟩
  · apply hst.quiet hpcs' hsame.sendlist hiobs hpc.queue_op hpc.push
    · intro w op heq
      have hnot := hpc.not_owns'
      rw [heq] at hnot
      exact absurd trivial hnot
    · exact hpc.buffer
    · exact hpc.uncounted
    · exact fun v _ => hsize v
    · intro v hv
      unfold InFlight at hv ⊢
      rw [← hsame.last, ← hsame.send_iob]
      exact hv
  · apply hr.others hst hpc.not_owns hpc.not_owns' hpcs'
    · rw [hloads]
      show s'.pending_send_size.toInt = _
      rw [hsame.pending]
      exact hr.pending
    · rw [hloads]
    · exact Finset.Subset.refl counted
    · exact hsame.s_tracker
    · exact hsame.last
    · exact hsame.send_iob
    · exact hsame.last_size
    · exact fun v _ => hsize v
    · exact hiobs.ge
    · intro v hv
      left
      rcases hv with hv | ⟨j, hv⟩
      · have hv' : (v, error_none) ∈ s'.results := hv
        rw [hresults, List.mem_append] at hv'
        rcases hv' with hv' | hv'
        · exact Or.inl hv'
        · -- it is returned in this step
          refine Or.inr ⟨i, ?_⟩
          cases hpci : s.pcs i with
          | send_return iob ec =>
            rw [hpci] at hv'
            cases List.mem_singleton.mp hv'
            rfl
          | _ =>
            rw [hpci] at hv'
            cases hv'
      · rcases Stock.pcs_cases hpcs' j with ⟨-, hpcj⟩ | ⟨-, hpcj⟩
        · rw [hpcj] at hv
          exact Or.inr ⟨i, hpc.taken v hv⟩
        · rw [hpcj] at hv
          exact Or.inr ⟨j, hv⟩
    · exact hsame.asserted

/-! ## Section 2: The steps of the thread that sends -/

/-- The thread that sends goes on, and leaves the list, the counter, the
    tracker and the buffers alone. -/
theorem sendInv_keep (hst : Stock s slots free reads counted)
    (hr : Role s reads counted flight lost) (hi : (s.pcs i).owns)
    (hold : (s.pcs i).queue_op = none) {a b : Option Nat} {c : BitVec 32}
    {e : List ChannelEvent} {f : Bool} (hpc : p.owns)
    (hpop : ∀ w op, p = .once_pop w op → op = .pop_load)
    (htaken : p.taken = (s.pcs i).taken)
    (hflight : ∀ v, a = some v ∨ b = some v → s.last_send_iob = some v ∨ s.send_iob = some v)
    (hkept : ∀ v, s.last_send_iob = some v ∨ s.send_iob = some v →
      (a = some v ∨ b = some v) ∨ s.iob_size v = 0)
    (hphase : Phase { s with last_send_iob := a, send_iob := b, last_send_iob_size := c }
      none flight p)
    (hasserted : f = true) :
    SendInv (({ s with
      last_send_iob := a
      send_iob := b
      last_send_iob_size := c
      posted := e
      asserted := f } : BaseTransport ι).goto i p) := by
  -- while a thread sends, the tracker does not start another one
  have hsame := hr.not_down hi
  apply sendInv_turn hst hr False (p := p) hi hold
  any_goals rfl
  case hbuffer => exact buffer_of_owns hpc
  case hpop => exact hpop
  case hsize => exact fun v _ => rfl
  case hless => exact fun v => le_refl _
  case hflight =>
    rintro v (hv | hv | hv)
    · exact (hflight v (Or.inl hv)).imp_right Or.inl
    · exact (hflight v (Or.inr hv)).imp_right Or.inl
    · exact Or.inr (Or.inr hv)
  case hkept =>
    rintro v (hv | hv | hv)
    · exact (hkept v (Or.inl hv)).imp_left fun h => h.imp_right Or.inl
    · exact (hkept v (Or.inr hv)).imp_left fun h => h.imp_right Or.inl
    · exact Or.inl (Or.inr (Or.inr hv))
  case hphase =>
    intro _
    exact hphase.congr rfl rfl rfl fun v _ => rfl
  case hrest => exact fun hnot => absurd hpc hnot
  case hdown =>
    rintro (hd | hd)
    · exact absurd hd hsame.1
    · exact hd.elim
  case htaken => exact fun v hv => htaken ▸ hv
  case hasserted => exact hasserted

/-- The thread that sends goes on, and changes nothing. -/
theorem sendInv_goto (hst : Stock s slots free reads counted)
    (hr : Role s reads counted flight lost) (hi : (s.pcs i).owns)
    (hold : (s.pcs i).queue_op = none) (hpc : p.owns)
    (hpop : ∀ w op, p = .once_pop w op → op = .pop_load)
    (htaken : p.taken = (s.pcs i).taken) (hphase : s.Phase none flight p) :
    SendInv (s.goto i p) :=
  sendInv_keep hst hr hi hold hpc hpop htaken (fun _ hv => hv) (fun _ hv => Or.inl hv) hphase
    hr.asserted

/-- The thread that sends leaves the rest to the poller, or has failed. -/
theorem sendInv_drop (hst : Stock s slots free reads counted)
    (hr : Role s reads counted flight lost) (hi : (s.pcs i).owns)
    (hold : (s.pcs i).queue_op = none) {t : Tracker} (hpc : ¬ p.owns)
    (hbuffer : p.buffer = none) (htaken : ∀ v, p.taken = some v → (s.pcs i).taken = some v)
    (hrest : s.Resting flight) :
    SendInv (({ s with s_tracker := t } : BaseTransport ι).goto i p) := by
  apply sendInv_turn hst hr True (p := p) hi hold
  any_goals rfl
  case hbuffer => exact hbuffer
  case hpop =>
    intro w op heq
    rw [heq] at hpc
    exact absurd trivial hpc
  case hsize => exact fun v _ => rfl
  case hless => exact fun v => le_refl _
  case hflight => exact fun v hv => hv
  case hkept => exact fun v hv => Or.inl hv
  case hphase => exact fun h => absurd h hpc
  case hrest => exact fun _ => hrest.congr rfl rfl rfl
  case hdown => exact fun _ => hpc
  case htaken => exact htaken
  case hasserted => exact hr.asserted

section

variable {w : Sending}

omit [DecidableEq ι] in
theorem phase_at (hr : Role s reads counted flight lost) {p : TransportPc} (hpc : s.pcs i = p)
    (howns : p.owns) : (s.pcs i).owns ∧ s.Phase (reads i) flight p := by
  have hi : (s.pcs i).owns := by rwa [hpc]
  have hphase := hr.phase i hi
  rw [hpc] at hphase
  exact ⟨hi, hphase⟩

theorem once_inv (h : SendInv s) (hpc : s.pcs i = .once w) :
    SendInv (({ s with asserted := s.asserted && s.last_send_iob.isNone } :
      BaseTransport ι).goto i (.once_pop w .pop_load)) := by
  obtain ⟨slots, free, reads, counted, flight, lost, hst, hr⟩ := h
  obtain ⟨hi, hlast, hsend, hzero⟩ := phase_at hr hpc trivial
  apply sendInv_keep hst hr hi (by rw [hpc]; rfl) (p := .once_pop w .pop_load) trivial
  · intro w' op heq
    cases heq
    rfl
  · rw [hpc]
    cases w <;> rfl
  · exact fun v hv => hv
  · exact fun v hv => Or.inl hv
  · exact ⟨hsend, hlast, fun _ => hzero, by simp⟩
  · rw [hr.asserted, hlast]
    rfl

theorem once_size_inv (h : SendInv s) (hpc : s.pcs i = .once_size w) :
    ∃ v, s.last_send_iob = some v ∧
      SendInv (({ s with last_send_iob_size := BitVec.ofNat 32 (s.iob_size v) } :
        BaseTransport ι).goto i (.once_want w)) := by
  obtain ⟨slots, free, reads, counted, flight, lost, hst, hr⟩ := h
  obtain ⟨hi, hsend, v, hlast, hsize, hpos, hlt⟩ := phase_at hr hpc trivial
  refine ⟨v, hlast, ?_⟩
  apply sendInv_keep hst hr hi (by rw [hpc]; rfl) (p := .once_want w) trivial
  · nofun
  · rw [hpc]
    cases w <;> rfl
  · exact fun v hv => hv
  · exact fun v hv => Or.inl hv
  · refine ⟨hsend, ⟨v, hlast⟩, ?_, hpos⟩
    show (BitVec.ofNat 32 (s.iob_size v)).toInt = flight
    rw [hsize, BitVec.toInt_ofNat', Int.bmod_eq_of_le (by omega) (by omega)]
  · exact hr.asserted

theorem once_want_inv (h : SendInv s) (hpc : s.pcs i = .once_want w) :
    s.last_send_iob ≠ none ∧ s.send_iob = none ∧
      SendInv (({ s with send_iob := s.last_send_iob } : BaseTransport ι).goto i
        (.flow_send w)) := by
  obtain ⟨slots, free, reads, counted, flight, lost, hst, hr⟩ := h
  obtain ⟨hi, hsend, ⟨v, hlast⟩, hsaved⟩ := phase_at hr hpc trivial
  refine ⟨by rw [hlast]; exact Option.some_ne_none v, hsend, ?_⟩
  apply sendInv_keep hst hr hi (by rw [hpc]; rfl) (p := .flow_send w) trivial
  · nofun
  · rw [hpc]
    cases w <;> rfl
  · intro u hu
    exact Or.inl (hu.elim id id)
  · rintro u (hu | hu)
    · exact Or.inl (Or.inl hu)
    · rw [hsend] at hu
      cases hu
  · exact ⟨v, hlast, hlast, hsaved⟩
  · exact hr.asserted

theorem handle_sent_inv (h : SendInv s) (hpc : s.pcs i = .handle_sent w)
    (e : List ChannelEvent) : s.last_send_iob ≠ none ∧
      SendInv (({ s with posted := e } : BaseTransport ι).goto i (.handle_clear w)) := by
  obtain ⟨slots, free, reads, counted, flight, lost, hst, hr⟩ := h
  obtain ⟨hi, hsend, ⟨v, hlast, hzero⟩, hsaved⟩ := phase_at hr hpc trivial
  refine ⟨by rw [hlast]; exact Option.some_ne_none v, ?_⟩
  apply sendInv_keep hst hr hi (by rw [hpc]; rfl) (p := .handle_clear w) trivial
  · nofun
  · rw [hpc]
    cases w <;> rfl
  · exact fun v hv => hv
  · exact fun v hv => Or.inl hv
  · exact ⟨hsend, ⟨v, hlast, hzero⟩, hsaved⟩
  · exact hr.asserted

theorem handle_clear_inv (h : SendInv s) (hpc : s.pcs i = .handle_clear w) :
    SendInv (({ s with last_send_iob := none } : BaseTransport ι).goto i (.sub_size w)) := by
  obtain ⟨slots, free, reads, counted, flight, lost, hst, hr⟩ := h
  obtain ⟨hi, hsend, ⟨v, hlast, hzero⟩, hsaved⟩ := phase_at hr hpc trivial
  apply sendInv_keep hst hr hi (by rw [hpc]; rfl) (p := .sub_size w) trivial
  · nofun
  · rw [hpc]
    cases w <;> rfl
  · rintro u (hu | hu)
    · cases hu
    · exact Or.inr hu
  · -- the buffer that was in flight is sent
    rintro u (hu | hu)
    · rw [hlast] at hu
      cases hu
      exact Or.inr hzero
    · rw [hsend] at hu
      cases hu
  · exact ⟨rfl, hsend, hsaved⟩
  · exact hr.asserted

theorem sub_size_inv (h : SendInv s) (hpc : s.pcs i = .sub_size w) :
    SendInv (s.goto i (.sub w s.last_send_iob_size)) := by
  obtain ⟨slots, free, reads, counted, flight, lost, hst, hr⟩ := h
  obtain ⟨hi, hlast, hsend, hsaved⟩ := phase_at hr hpc trivial
  apply sendInv_keep hst hr hi (by rw [hpc]; rfl) (p := .sub w s.last_send_iob_size) trivial
  · nofun
  · rw [hpc]
    cases w <;> rfl
  · exact fun v hv => hv
  · exact fun v hv => Or.inl hv
  · exact ⟨hlast, hsend, hsaved, rfl⟩
  · exact hr.asserted

theorem event_last_inv (h : SendInv s) (hpc : s.pcs i = .event_last) :
    SendInv (s.goto i (if s.last_send_iob ≠ none then .flow_send .event else .once .again)) := by
  obtain ⟨slots, free, reads, counted, flight, lost, hst, hr⟩ := h
  obtain ⟨hi, hrest⟩ := phase_at hr hpc trivial
  have hold : (s.pcs i).queue_op = none := by
    rw [hpc]
    rfl
  rcases hrest with hbetween | hflow
  · rw [if_neg (not_not.mpr hbetween.1)]
    apply sendInv_goto hst hr hi hold (p := .once .again) trivial
    · nofun
    · rw [hpc]
      rfl
    · exact hbetween
  · obtain ⟨v, hlast, hrest⟩ := id hflow
    rw [if_pos (by rw [hlast]; exact Option.some_ne_none v)]
    apply sendInv_goto hst hr hi hold (p := .flow_send .event) trivial
    · nofun
    · rw [hpc]
      rfl
    · exact hflow

omit [DecidableEq ι] in
theorem send_failed_apart (w : Sending) :
    ¬ (send_failed w).owns ∧ (send_failed w).buffer = none ∧ (send_failed w).taken = none := by
  cases w with
  | async iob => exact ⟨id, rfl, rfl⟩
  | event | again => exact ⟨id, rfl, rfl⟩

theorem flow_send_inv (h : SendInv s) (hpc : s.pcs i = .flow_send w) (n : Int) :
    ∃ v, s.send_iob = some v ∧ SendInv ((s.flow_send v n).2.goto i
      (match (s.flow_send v n).1 with
        | error_none => .handle_sent w
        | error_again => .start_tracker w
        | _ => send_failed w)) := by
  obtain ⟨slots, free, reads, counted, flight, lost, hst, hr⟩ := h
  obtain ⟨hi, hflow⟩ := phase_at hr hpc trivial
  obtain ⟨v, hlast, hsend, hsaved⟩ := id hflow
  have hold : (s.pcs i).queue_op = none := by
    rw [hpc]
    rfl
  have htracker : (TransportPc.start_tracker w).taken = (s.pcs i).taken := by
    rw [hpc]
    cases w <;> rfl
  have hsent : (TransportPc.handle_sent w).taken = (s.pcs i).taken := by
    rw [hpc]
    cases w <;> rfl
  refine ⟨v, hsend, ?_⟩
  unfold flow_send
  by_cases hzero : n = 0
  · -- the flow has failed
    rw [if_pos hzero]
    obtain ⟨hnot, hbuffer, htaken⟩ := send_failed_apart w
    apply sendInv_drop hst hr hi hold hnot hbuffer
    · intro u hu
      rw [htaken] at hu
      cases hu
    · exact Or.inr hflow
  · rw [if_neg hzero]
    by_cases hneg : n < 0
    · -- the socket is full
      rw [if_pos hneg]
      apply sendInv_goto hst hr hi hold (p := .start_tracker w) trivial
      · nofun
      · exact htracker
      · exact Or.inr hflow
    · rw [if_neg hneg]
      -- only the buffer in flight gets shorter
      have hin : s.InFlight reads v := Or.inl hlast
      have hsize : ∀ u, ¬ s.InFlight reads u →
          Function.update s.iob_size v (s.iob_size v - n.toNat) u = s.iob_size u := by
        intro u hu
        apply Function.update_of_ne
        intro heq
        exact hu (heq ▸ hin)
      have hless : ∀ u, Function.update s.iob_size v (s.iob_size v - n.toNat) u ≤
          s.iob_size u := by
        intro u
        by_cases hu : u = v
        · rw [hu, Function.update_self]
          omega
        · rw [Function.update_of_ne hu]
      have hapart := hr.not_down hi
      by_cases hleft : s.iob_size v - n.toNat = 0
      · -- all of it is sent
        simp only [hleft, if_true]
        rw [hleft] at hsize hless
        apply sendInv_turn hst hr False (p := .handle_sent w) hi hold
        any_goals rfl
        case hpop => nofun
        case hsize => exact hsize
        case hless => exact hless
        case hflight =>
          rintro u (hu | hu | hu)
          · exact Or.inl hu
          · cases hu
          · exact Or.inr (Or.inr hu)
        case hkept =>
          rintro u (hu | hu | hu)
          · exact Or.inl (Or.inl hu)
          · rw [hsend, ← hlast] at hu
            exact Or.inl (Or.inl hu)
          · exact Or.inl (Or.inr (Or.inr hu))
        case hphase =>
          intro _
          refine ⟨rfl, ⟨v, hlast, ?_⟩, hsaved⟩
          exact Function.update_self _ _ _
        case hrest => exact fun hnot => absurd trivial hnot
        case hdown =>
          rintro (hd | hd)
          · exact absurd hd hapart.1
          · exact hd.elim
        case htaken => exact fun u hu => hsent ▸ hu
        case hasserted => exact hr.asserted
      · -- the rest waits for the poller
        simp only [hleft, if_false]
        apply sendInv_turn hst hr False (p := .start_tracker w) hi hold
        any_goals rfl
        case hpop => nofun
        case hsize => exact hsize
        case hless => exact hless
        case hflight => exact fun u hu => hu
        case hkept => exact fun u hu => Or.inl hu
        case hphase => exact fun _ => Or.inr hflow
        case hrest => exact fun hnot => absurd trivial hnot
        case hdown =>
          rintro (hd | hd)
          · exact absurd hd hapart.1
          · exact hd.elim
        case htaken => exact fun u hu => htracker ▸ hu
        case hasserted => exact hr.asserted

theorem start_tracker_inv (h : SendInv s) (hpc : s.pcs i = .start_tracker w) (k : TransportKind)
    (ok : Bool) (n : Int) :
    SendInv ((s.action k ok n (.start_tracker w)).2.goto i
      (s.action k ok n (.start_tracker w)).1) := by
  obtain ⟨slots, free, reads, counted, flight, lost, hst, hr⟩ := h
  obtain ⟨hi, hrest⟩ := phase_at hr hpc trivial
  have hold : (s.pcs i).queue_op = none := by
    rw [hpc]
    rfl
  simp only [action]
  split
  · cases w with
    | async iob =>
      apply sendInv_drop hst hr hi hold (p := .send_sub iob error_none) id rfl
      · rw [hpc]
        exact fun v hv => hv
      · exact hrest
    | event | again =>
      apply sendInv_drop hst hr hi hold (p := .idle) id rfl
      · rintro _ ⟨⟩
      · exact hrest
  · obtain ⟨hnot, hbuffer, htaken⟩ := send_failed_apart w
    apply sendInv_drop hst hr hi hold hnot hbuffer
    · rw [htaken]
      simp
    · exact hrest

omit [DecidableEq ι] in
/-- Only a thread that sends pops. -/
theorem owns_of_reads (hst : Stock s slots free reads counted) {v : Nat} (hv : reads i = some v) :
    (s.pcs i).owns := by
  have hne : reads i ≠ none := by
    rw [hv]
    exact Option.some_ne_none v
  have hreading : M2m.reading (s.pcs i).queue_op ≠ none := fun hnone =>
    hne (hst.queue.core.not_taken i hnone)
  cases hpc : s.pcs i with
  | send_push iob op =>
    rw [hpc] at hreading
    have hvalue := hst.pushes i iob op hpc
    cases op with
    | pop_load | pop_next | pop_check | pop_exchange | pop_data | pop_ready => cases hvalue
    | _ => exact absurd rfl hreading
  | once_pop => trivial
  | _ =>
    rw [hpc] at hreading
    exact absurd rfl hreading

/-- The buffer in flight is subtracted. -/
theorem sub_inv (h : SendInv s) {size : BitVec 32} (hpc : s.pcs i = .sub w size) :
    SendInv (({ s with pending_send_size := s.pending_send_size - size } :
      BaseTransport ι).goto i (.sub_compare w s.pending_send_size size)) := by
  obtain ⟨slots, free, reads, counted, flight, lost, hst, hr⟩ := h
  obtain ⟨hi, hlast, hsend, ⟨hsaved, hpos⟩, hsize⟩ := phase_at hr hpc trivial
  have hapart := hr.not_down hi
  have hold : (s.pcs i).queue_op = none := by
    rw [hpc]
    rfl
  -- the buffer was cleared before its size is subtracted
  have hnothing : ∀ v, ¬ s.InFlight reads v := by
    rintro v (hv | hv | ⟨j, hv⟩)
    · rw [hlast] at hv
      cases hv
    · rw [hsend] at hv
      cases hv
    · rw [hr.baton.unique j i (owns_of_reads hst hv) hi, reads_none hst hold] at hv
      cases hv
  obtain ⟨sum, hsum⟩ : ∃ sum, sum = ∑ v ∈ counted, s.iob_size v := ⟨_, rfl⟩
  have hload : s.load counted flight = sum + flight := by
    rw [hsum]
    rfl
  have hload' : (({ s with pending_send_size := s.pending_send_size - s.last_send_iob_size } :
      BaseTransport ι).goto i (.sub_compare w s.pending_send_size s.last_send_iob_size)).load
        counted 0 = sum := by
    rw [hsum]
    rfl
  have hpending := hr.pending
  rw [hload] at hpending
  rw [hsize]
  refine ⟨slots, free, reads, counted, 0, False, ?_, ?_⟩
  · refine hst.quiet (p := .sub_compare w s.pending_send_size s.last_send_iob_size) rfl rfl rfl hold
      ?_ ?_ ?_ ?_ ?_ ?_
    · nofun
    · nofun
    · nofun
    · rw [hpc]
      rfl
    · exact fun v _ => rfl
    · exact fun v hv => hv
  · -- the subtraction does not wrap, since the size is part of the sum
    have hnew : (s.pending_send_size - s.last_send_iob_size).toInt = sum := by
      have hlt := BitVec.toInt_lt (x := s.pending_send_size)
      rw [BitVec.toInt_sub, hpending, hsaved, Int.bmod_eq_of_le (by omega) (by omega)]
      omega
    apply hr.turn hi (p := .sub_compare w s.pending_send_size s.last_send_iob_size) rfl
    case hpending =>
      rw [hload']
      exact hnew
    case hkeep =>
      intro howns
      have hgt : s.pending_send_size.toInt > s.last_send_iob_size.toInt := howns
      rw [hload']
      omega
    case hphase => exact fun _ => ⟨⟨hlast, hsend, rfl⟩, rfl⟩
    case hrest => exact fun _ => Or.inl ⟨hlast, hsend, rfl⟩
    case hdown =>
      rintro (hd | hd)
      · exact absurd hd hapart.1
      · exact hd.elim
    case hresults => rfl
    case hiobs => rfl
    case htaken =>
      rw [hpc]
      cases w <;> exact fun v hv => hv
    case haccount =>
      rintro v - (hv | ⟨-, hv⟩ | hv)
      · exact Or.inl hv
      · exact absurd hv (hnothing v)
      · exact Or.inr (Or.inr hv)
    case hasserted => exact hr.asserted

/-- What was subtracted is compared with what is saved. -/
theorem sub_compare_inv (h : SendInv s) {old size : BitVec 32} (hpc : s.pcs i = .sub_compare w old size)
    (hclear : old.toInt ≤ size.toInt → old.toInt ≤ s.last_send_iob_size.toInt) :
    SendInv (s.goto i (if old.toInt > s.last_send_iob_size.toInt then send_more w
      else send_done w)) := by
  by_cases howns : (s.pcs i).owns
  · obtain ⟨slots, free, reads, counted, flight, lost, hst, hr⟩ := h
    have hold : (s.pcs i).queue_op = none := by
      rw [hpc]
      rfl
    have hgt : old.toInt > size.toInt := by
      rw [hpc] at howns
      exact howns
    obtain ⟨hi, hbetween, hsize⟩ := phase_at hr hpc hgt
    rw [← hsize, if_pos hgt]
    -- there is more to send: how it goes on depends on where the thread came from
    cases w with
    | async iob =>
      apply sendInv_goto hst hr hi hold (p := .start_tracker (.async iob)) trivial
      · nofun
      · rw [hpc]
        rfl
      · exact Or.inl hbetween
    | event =>
      apply sendInv_goto hst hr hi hold (p := .once .again) trivial
      · nofun
      · rw [hpc]
        rfl
      · exact hbetween
    | again =>
      apply sendInv_goto hst hr hi hold (p := .start_tracker .again) trivial
      · nofun
      · rw [hpc]
        rfl
      · exact Or.inl hbetween
  · -- the thread does not send any more, and nobody has made it think so
    have hle : old.toInt ≤ size.toInt := by
      rw [hpc] at howns
      exact not_lt.mp howns
    rw [if_neg (not_lt.mpr (hclear hle))]
    have haside : Aside (s.pcs i) (send_done w) := by
      rw [hpc] at howns ⊢
      cases w with
      | async iob => exact ⟨howns, id, rfl, nofun, nofun, rfl, fun v hv => hv⟩
      | event | again => exact ⟨howns, id, rfl, nofun, nofun, rfl, nofun⟩
    apply sendInv_aside h ⟨rfl, rfl, rfl, rfl, rfl, rfl, rfl, rfl⟩ haside rfl rfl
    rw [hpc]
    exact (List.append_nil _).symm

omit [DecidableEq ι] in
/-- What a step on the list does to `last_send_iob_`. -/
theorem sendlist_step_spec (s : BaseTransport ι) (ok : Bool) (op : Op Nat) :
    (s.sendlist_step ok op).1 = (op.step 8 ok s.sendlist).2 ∧
      ∃ last, (s.sendlist_step ok op).2 =
          { s with sendlist := (op.step 8 ok s.sendlist).1, last_send_iob := last } ∧
        ((∃ node, op = .pop_data node ∧ last = s.sendlist.data node ∧
            (op.step 8 ok s.sendlist).2 = .goes (.pop_ready node last)) ∨
          ((∀ node data, (op.step 8 ok s.sendlist).2 ≠ .goes (.pop_ready node data)) ∧
            last = s.last_send_iob)) := by
  unfold sendlist_step
  simp only
  split
  · next node data hturn =>
    obtain ⟨hop, hdata⟩ := M2m.Op.goes_pop_ready hturn
    exact ⟨rfl, data, rfl, Or.inl ⟨node, hop, hdata, hturn⟩⟩
  · next hturn => exact ⟨rfl, s.last_send_iob, rfl, Or.inr ⟨hturn, rfl⟩⟩

omit [DecidableEq ι] in
theorem found_eq_none {op : Op Nat} (h : ∀ node data, op ≠ .pop_ready node data) :
    found op = none := by
  cases op with
  | pop_ready node data => exact absurd rfl (h node data)
  | _ => rfl

omit [DecidableEq ι] in
theorem found_of_goes {op op' : Op Nat} {ok : Bool} {q : M2m.Nodes Nat}
    (h : (op.step 8 ok q).2 = .goes op') : found op = none := by
  apply found_eq_none
  intro node data hop
  rw [hop] at h
  cases h

/-- The thread that sends takes a step of its pop and sends on. -/
theorem sendInv_popping (hr : Role s reads counted flight lost) {slots' : List (Slot Nat)}
    {free' : List Nat} {reads' : ι → Option Nat} {counted' : Finset Nat} (flight' : Nat)
    {q : M2m.Nodes Nat} {last : Option Nat} (hi : (s.pcs i).owns)
    (hs' : s' = ({ s with sendlist := q, last_send_iob := last } : BaseTransport ι).goto i p)
    (hst' : Stock s' slots' free' reads' counted') (hp : p.owns) (htaken : p.taken = (s.pcs i).taken)
    (hload : s'.load counted' flight' = s.load counted flight)
    (hphase : s'.Phase (reads' i) flight' p)
    (haccount : ∀ v, s.Accounted reads counted flight v →
      s'.Accounted reads' counted' flight' v) : SendInv s' := by
  have htracker : s'.s_tracker = s.s_tracker := by rw [hs']; rfl
  have hpending : s'.pending_send_size = s.pending_send_size := by rw [hs']; rfl
  refine ⟨slots', free', reads', counted', flight', False, hst', ?_⟩
  apply hr.turn hi (p := p)
  case hpcs => rw [hs']; rfl
  case hpending =>
    rw [hpending, hload]
    exact hr.pending
  case hkeep =>
    intro _
    rw [hload]
    exact hr.baton.held_pos i hi
  case hphase => exact fun _ => hphase
  case hrest => exact fun hnot => absurd hp hnot
  case hdown =>
    rintro (hd | hd)
    · rw [htracker] at hd
      exact absurd hd (hr.not_down hi).1
    · exact hd.elim
  case hresults => rw [hs']; rfl
  case hiobs => rw [hs']; rfl
  case htaken => exact fun v hv => htaken ▸ hv
  case haccount => exact fun v _ => haccount v
  case hasserted =>
    rw [hs']
    exact hr.asserted

/-- The thread that sends takes a buffer out of the list. -/
theorem once_pop_inv (h : SendInv s) {op : Op Nat} (hpc : s.pcs i = .once_pop w op) (ok : Bool)
    (hclear : ∀ tail node, op = .pop_exchange tail node →
      ∀ j iob, (s.pcs j).adding = some iob → s.sendlist.data node ≠ some iob) :
    SendInv ((s.sendlist_step ok op).2.goto i
      (match (s.sendlist_step ok op).1 with
        | .goes op => .once_pop w op
        | .returns (.popped _) => .once_size w
        | .returns _ => .aborted)) := by
  obtain ⟨slots, free, reads, counted, flight, lost, hst, hr⟩ := h
  obtain ⟨hi, hsend, hfound, hzero, hread⟩ := phase_at hr hpc trivial
  obtain ⟨hturn, last, hstate, hlast⟩ := sendlist_step_spec s ok op
  obtain ⟨turn, hturn'⟩ : ∃ turn, turn = (op.step 8 ok s.sendlist).2 := ⟨_, rfl⟩
  rw [hturn, hstate, ← hturn']
  rw [← hturn'] at hlast
  obtain ⟨p, hp⟩ : ∃ p, p = (match turn with
      | .goes op => TransportPc.once_pop w op
      | .returns (.popped _) => .once_size w
      | .returns _ => .aborted) := ⟨_, rfl⟩
  rw [← hp]
  obtain ⟨s', hs'⟩ : ∃ s' : BaseTransport ι, s' = ({ s with
      sendlist := (op.step 8 ok s.sendlist).1
      last_send_iob := last } : BaseTransport ι).goto i p := ⟨_, rfl⟩
  rw [← hs']
  have hpcs : s'.pcs = Function.update s.pcs i p := by
    rw [hs']
    rfl
  -- there is one consumer of the list
  have hothers : ∀ j, j ≠ i → ∀ w' op', s.pcs j ≠ .once_pop w' op' := by
    intro j hji w' op' hj
    apply hji
    apply hr.baton.unique j i _ hi
    rw [hj]
    trivial
  obtain ⟨slots', free', reads', counted', hst', hcases⟩ := hst.pop hpc hothers hclear hpcs
    (by rw [hs']; rfl)
    (by
      intro op' hop
      rw [← hturn'] at hop
      rw [hp, hop])
    (by
      intro res hres
      rw [← hturn'] at hres
      rw [hp, hres]
      cases res <;> exact ⟨rfl, rfl⟩)
    (by rw [hs']; rfl) (by rw [hs']; rfl) (by rw [hs']; rfl)
    (by
      intro v hv
      have hv' : last = some v := by
        rw [hs'] at hv
        exact hv
      rcases hlast with ⟨node, hop, hdata, -⟩ | ⟨-, hsame⟩
      · exact Or.inr ⟨node, hop, hdata ▸ hv'⟩
      · exact Or.inl (hsame ▸ hv'))
  have hsize : s'.iob_size = s.iob_size := by rw [hs']; rfl
  have hlast' : s'.last_send_iob = last := by rw [hs']; rfl
  have hsend' : s'.send_iob = none := by rw [hs']; exact hsend
  have hnone : op.reading = none → reads i = none := by
    intro hreading
    apply hst.queue.core.not_taken
    show M2m.reading (s.pcs i).queue_op = none
    rw [hpc]
    exact hreading
  have hsum : ∀ c f, s'.load c f = s.load c f := by
    intro c f
    unfold load
    rw [hsize]
  have htaken : (s.pcs i).taken = (TransportPc.once_pop w op).taken := by rw [hpc]
  -- what is in flight is what the pop reads
  have hflight : ∀ v, s.last_send_iob = none → s.InFlight reads v → reads i = some v := by
    rintro v hl (hv | hv | ⟨j, hv⟩)
    · rw [hl] at hv
      cases hv
    · rw [hsend] at hv
      cases hv
    · rwa [hr.baton.unique j i (owns_of_reads hst hv) hi] at hv
  rcases hcases with ⟨op', hop, hreading, rfl, rfl⟩ | ⟨node, v, hop, hreading, hv, rfl, rfl⟩ |
    ⟨node, v, rfl, hop, hv, rfl, rfl⟩ | ⟨tail, node, rfl, hready, hop, rfl, rfl⟩
  · -- the pop goes on
    have hnofound := found_of_goes hop
    rw [← hturn'] at hop
    rw [hop] at hp hlast
    rw [hp] at hs'
    apply sendInv_popping hr flight hi hs' hst' trivial
    case htaken =>
      rw [htaken]
      cases w <;> rfl
    case hload => exact hsum _ _
    case hphase =>
      refine ⟨hsend', ?_, hzero, ?_⟩
      · rw [hlast']
        rcases hlast with ⟨node, -, -, hgoes⟩ | ⟨hne, hsame⟩
        · cases hgoes
          rfl
        · rw [hsame, hfound, hnofound, found_eq_none]
          intro node data heq
          exact hne node data (congrArg Turn.goes heq)
      · rw [hsize]
        exact hread
    case haccount =>
      rintro v (hv | ⟨hf, hv⟩ | hv)
      · exact Or.inl hv
      · have hv' := hflight v (hfound.trans hnofound) hv
        exact Or.inr (Or.inl ⟨hf, Or.inr (Or.inr ⟨i, hv'⟩)⟩)
      · rw [← hsize] at hv
        exact Or.inr (Or.inr hv)
  · -- the buffer is taken, and is in flight from now on
    have hnofound := found_of_goes hop
    rw [← hturn'] at hop
    rw [hop] at hp hlast
    rw [hp] at hs'
    have hzero' := hzero (hnone hreading)
    obtain ⟨hvpos, hvlt⟩ := hst.size v (Or.inl (hst.counted_mem hv).1)
    have hlast₀ : last = none := by
      rcases hlast with ⟨node', -, -, hgoes⟩ | ⟨-, hsame⟩
      · cases hgoes
      · rw [hsame, hfound, hnofound]
    apply sendInv_popping hr (s.iob_size v) hi hs' hst' trivial
    case htaken =>
      rw [htaken]
      cases w <;> rfl
    case hload =>
      rw [hsum, hzero']
      unfold load
      rw [Nat.add_zero, Finset.sum_erase_add _ _ hv]
    case hphase =>
      rw [Function.update_self]
      refine ⟨hsend', ?_, nofun, ?_⟩
      · rw [hlast', hlast₀]
        rfl
      · intro u hu
        cases hu
        rw [hsize]
        exact ⟨rfl, hvpos, hvlt⟩
    case haccount =>
      rintro u (hu | ⟨hf, -⟩ | hu)
      · by_cases huv : u = v
        · refine Or.inr (Or.inl ⟨hvpos, Or.inr (Or.inr ⟨i, ?_⟩)⟩)
          rw [Function.update_self, huv]
        · exact Or.inl (Finset.mem_erase.mpr ⟨huv, hu⟩)
      · omega
      · rw [← hsize] at hu
        exact Or.inr (Or.inr hu)
  · -- the pop returns
    rw [← hturn'] at hop
    rw [hop] at hp hlast
    rw [hp] at hs'
    have hlast₀ : last = some v := by
      rcases hlast with ⟨node', -, -, hgoes⟩ | ⟨-, hsame⟩
      · cases hgoes
      · exact hsame.trans hfound
    apply sendInv_popping hr flight hi hs' hst' trivial
    case htaken =>
      rw [htaken]
      cases w <;> rfl
    case hload => exact hsum _ _
    case hphase =>
      refine ⟨hsend', v, hlast'.trans hlast₀, ?_⟩
      rw [hsize]
      exact hread v hv
    case haccount =>
      rintro u (hu | ⟨hf, hu⟩ | hu)
      · exact Or.inl hu
      · refine Or.inr (Or.inl ⟨hf, Or.inl ?_⟩)
        rw [hlast', hlast₀]
        rcases hu with hu | hu | ⟨j, hu⟩
        · rw [hfound] at hu
          exact hu
        · rw [hsend] at hu
          cases hu
        · rw [hr.baton.unique j i (owns_of_reads hst hu) hi, hv] at hu
          exact hu
      · rw [← hsize] at hu
        exact Or.inr (Or.inr hu)
  · -- the pop has found nothing, and the process aborts
    rw [← hturn'] at hop
    rw [hop] at hp hlast
    have hreads := hnone rfl
    have hlast₀ : last = none := by
      rcases hlast with ⟨node', -, -, hgoes⟩ | ⟨-, hsame⟩
      · cases hgoes
      · exact hsame.trans hfound
    have hpos := hr.baton.held_pos i hi
    refine ⟨slots', free', _, counted', flight, True, hst', ?_⟩
    apply hr.turn hi hpcs
    case hpending =>
      rw [hsum, hs']
      exact hr.pending
    case hkeep =>
      intro _
      rw [hsum]
      exact hpos
    case hphase =>
      intro howns
      rw [hp] at howns
      exact howns.elim
    case hrest => exact fun _ => Or.inl ⟨hlast'.trans hlast₀, hsend', hzero hreads⟩
    case hdown =>
      intro _
      rw [hp, hsum]
      exact ⟨id, hpos⟩
    case hresults => rw [hs']; rfl
    case hiobs => rw [hs']; rfl
    case htaken =>
      rw [hp]
      nofun
    case haccount =>
      rintro u - (hu | ⟨hf, -⟩ | hu)
      · exact Or.inl hu
      · have hzero' := hzero hreads
        omega
      · rw [← hsize] at hu
        exact Or.inr (Or.inr hu)
    case hasserted =>
      rw [hs']
      exact hr.asserted

end

end BaseTransport

end Pump
