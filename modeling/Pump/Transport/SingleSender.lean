import Pump.Transport.Sender

/-! # One thread sends

    A thread that counts its buffer sends where the counter was zero, and the
    counter goes with the sending role, as long as a buffer is counted before
    it is popped and the thread that gives the role up compares with what it
    has subtracted. -/

namespace Pump

open TransportState ErrorCode ReadMode Tracker ChannelEvent
open M2m (Op Ops Slot Turn)

namespace BaseTransport

variable {ι : Type} {s s' : BaseTransport ι} {slots : List (Slot Nat)} {free : List Nat}
  {reads : ι → Option Nat} {counted : Finset Nat} {flight : Nat} {lost : Prop} {i : ι}
  {p : TransportPc} [DecidableEq ι]

/-! ## Section 1: The steps of the other threads -/

/-- A thread pushes its buffer. -/
theorem send_push_inv (h : SendInv s) {iob : Nat} {op : Op Nat} (hpc : s.pcs i = .send_push iob op)
    (ok : Bool) (hfresh : op.Fresh s.sendlist s.ops) :
    SendInv ((s.sendlist_step ok op).2.goto i
      (match (s.sendlist_step ok op).1 with
        | .goes op => .send_push iob op
        | .returns _ => .send_add iob)) := by
  obtain ⟨slots, free, reads, counted, flight, lost, hst, hr⟩ := h
  have hvalue := hst.pushes i iob op hpc
  -- a push reads no element, so `last_send_iob_` stays
  obtain ⟨hturn, last, hstate, hlast⟩ := sendlist_step_spec s ok op
  obtain ⟨turn, hturn'⟩ : ∃ turn, turn = (op.step 8 ok s.sendlist).2 := ⟨_, rfl⟩
  rw [hturn, hstate, ← hturn']
  obtain ⟨p, hp⟩ : ∃ p, p = (match turn with
      | .goes op => TransportPc.send_push iob op
      | .returns _ => .send_add iob) := ⟨_, rfl⟩
  rw [← hp]
  have hlast₀ : last = s.last_send_iob := by
    rcases hlast with ⟨node, hop, -⟩ | ⟨-, hsame⟩
    · rw [hop] at hvalue
      cases hvalue
    · exact hsame
  obtain ⟨s', hs'⟩ : ∃ s' : BaseTransport ι, s' = ({ s with
      sendlist := (op.step 8 ok s.sendlist).1
      last_send_iob := last } : BaseTransport ι).goto i p := ⟨_, rfl⟩
  rw [← hs']
  have hpcs : s'.pcs = Function.update s.pcs i p := by rw [hs']; rfl
  have hsize : s'.iob_size = s.iob_size := by rw [hs']; rfl
  have hnot : ¬ p.owns ∧ p.taken = none := by
    rw [hp]
    rcases turn with op' | res
    · exact ⟨id, rfl⟩
    · exact ⟨id, rfl⟩
  have hload : s'.load counted flight = s.load counted flight := by
    unfold load
    rw [hsize]
  obtain ⟨slots', free', hst'⟩ := hst.push hpc hfresh hpcs
    (by rw [hs']; rfl)
    (by
      intro op' hop
      rw [← hturn'] at hop
      rw [hp, hop])
    (by
      intro res hres
      rw [← hturn'] at hres
      rw [hp, hres])
    (by rw [hs']; rfl) hsize (by rw [hs', hlast₀]; rfl) (by rw [hs']; rfl)
  refine ⟨slots', free', reads, counted, flight, lost, hst', ?_⟩
  apply hr.others hst (by rw [hpc]; exact id) hnot.1 hpcs
  case hpending =>
    rw [hload, hs']
    exact hr.pending
  case hload => rw [hload]
  case hsub => exact Finset.Subset.refl counted
  case htracker => rw [hs']; rfl
  case hlast => rw [hs', hlast₀]; rfl
  case hsend => rw [hs']; rfl
  case hsaved => rw [hs']; rfl
  case hsize => exact fun v _ => congrFun hsize v
  case hiobs => rw [hs']; exact le_refl _
  case htaken =>
    intro v hv
    left
    apply taken_of_pcs hpcs (by rw [hs']; rfl) _ hv
    rw [hnot.2]
    simp
  case hasserted => rw [hs']; rfl

/-- A thread counts its buffer, and sends if the counter is zero. -/
theorem send_add_inv (h : SendInv s) {iob : Nat} (hpc : s.pcs i = .send_add iob)
    (hfits : s.pending_send_size.toInt + s.iob_size iob < 2 ^ 31) :
    SendInv (({ s with
      pending_send_size := s.pending_send_size + BitVec.ofNat 32 (s.iob_size iob) } :
        BaseTransport ι).goto i
          (if s.pending_send_size.toInt > 0 then .send_sub iob error_none
            else .once (.async iob))) := by
  obtain ⟨slots, free, reads, counted, flight, lost, hst, hr⟩ := h
  have hbuffer : (s.pcs i).buffer = some iob := by
    rw [hpc]
    rfl
  have hnot : ¬ (s.pcs i).owns := by
    rw [hpc]
    exact id
  obtain ⟨hpos, hlt⟩ := hst.size iob (Or.inr ⟨i, hbuffer⟩)
  have hiob := hst.buffer_lt i iob hbuffer
  have hpending := hr.pending
  -- the addition does not wrap
  have hadd : (s.pending_send_size + BitVec.ofNat 32 (s.iob_size iob)).toInt =
      s.load counted flight + s.iob_size iob := by
    have hsize : (BitVec.ofNat 32 (s.iob_size iob)).toInt = s.iob_size iob := by
      rw [BitVec.toInt_ofNat', Int.bmod_eq_of_le (by omega) (by omega)]
    rw [BitVec.toInt_add, hsize, hpending]
    exact Int.bmod_eq_of_le (by omega) (by omega)
  obtain ⟨p, hp⟩ : ∃ p, p = (if s.pending_send_size.toInt > 0 then TransportPc.send_sub iob error_none
      else .once (.async iob)) := ⟨_, rfl⟩
  rw [← hp]
  have hqueue : p.queue_op = none ∧ p.buffer = none ∧ p.uncounted = none ∧
      p.taken = some iob := by
    rw [hp]
    split
    · exact ⟨rfl, rfl, rfl, rfl⟩
    · exact ⟨rfl, rfl, rfl, rfl⟩
  obtain ⟨s', hs'⟩ : ∃ s' : BaseTransport ι, s' = ({ s with
      pending_send_size := s.pending_send_size + BitVec.ofNat 32 (s.iob_size iob) } :
        BaseTransport ι).goto i p := ⟨_, rfl⟩
  rw [← hs']
  have hpcs : s'.pcs = Function.update s.pcs i p := by rw [hs']; rfl
  have hsize : s'.iob_size = s.iob_size := by rw [hs']; rfl
  have hlast : s'.last_send_iob = s.last_send_iob := by rw [hs']; rfl
  have hsend : s'.send_iob = s.send_iob := by rw [hs']; rfl
  have hsaved : s'.last_send_iob_size = s.last_send_iob_size := by rw [hs']; rfl
  have hiobs : s'.iobs = s.iobs := by rw [hs']; rfl
  obtain ⟨hfresh, hst'⟩ := hst.count hpc hpcs (by rw [hs']; rfl) hqueue.1 hqueue.2.1
    hqueue.2.2.1 hiobs hsize hlast hsend
  have hload : s'.load (insert iob counted) flight = s.load counted flight + s.iob_size iob := by
    unfold load
    rw [hsize, Finset.sum_insert hfresh]
    omega
  have hpending' : s'.pending_send_size.toInt = s'.load (insert iob counted) flight := by
    rw [hload, hs']
    exact hadd
  have htaken : ∀ v, s'.Taken v → s.Taken v ∨ v = iob := by
    rintro v (hv | ⟨j, hv⟩)
    · rw [hs'] at hv
      exact Or.inl (Or.inl hv)
    · rcases Stock.pcs_cases hpcs j with ⟨-, hpcj⟩ | ⟨-, hpcj⟩
      · rw [hpcj, hqueue.2.2.2] at hv
        exact Or.inr (Option.some.inj hv).symm
      · rw [hpcj] at hv
        exact Or.inl (Or.inr ⟨j, hv⟩)
  refine ⟨slots, free, reads, insert iob counted, flight, lost, hst', ?_⟩
  by_cases hzero : s.pending_send_size.toInt > 0
  · -- others are counted, and somebody sends or the poller will
    rw [if_pos hzero] at hp
    apply hr.others hst hnot (by rw [hp]; exact id) hpcs hpending'
    case hload =>
      rw [hload]
      omega
    case hsub => exact Finset.subset_insert iob counted
    case htracker => rw [hs']; rfl
    case hlast => exact hlast
    case hsend => exact hsend
    case hsaved => exact hsaved
    case hsize => exact fun v _ => congrFun hsize v
    case hiobs => exact hiobs.ge
    case htaken =>
      intro v hv
      rcases htaken v hv with hv | rfl
      · exact Or.inl hv
      · exact Or.inr ⟨hiob, Finset.mem_insert_self v counted⟩
    case hasserted => rw [hs']; rfl
  · -- nothing was counted, so nobody sends and nothing is in flight
    rw [if_neg hzero] at hp
    have hnothing : s.load counted flight = 0 := by omega
    have hflight : flight = 0 := by
      unfold load at hnothing
      omega
    obtain ⟨hfree, hdown⟩ := hr.baton.free hnothing
    have hbetween : s.Between flight := by
      rcases hr.rest hfree with hbetween | ⟨v, -, -, -, hv⟩
      · exact hbetween
      · omega
    have hself : ∀ j, (s'.pcs j).owns → j = i := by
      intro j hj
      by_contra hji
      rw [hpcs, Function.update_of_ne hji] at hj
      exact hfree j hj
    refine ⟨hpending', ?_, ?_, ?_, ?_, ?_⟩
    · apply hr.baton.win (i := i) hnothing
      · rw [hload]
        omega
      · intro j hji hj
        exact absurd (hself j hj) hji
      · rw [hs']
        exact id
    · intro j hj
      rw [hself j hj, hpcs, Function.update_self, hp]
      refine ⟨hlast.trans hbetween.1, hsend.trans hbetween.2.1, hflight⟩
    · intro hnone
      have hi := hnone i
      rw [hpcs, Function.update_self, hp] at hi
      exact absurd trivial hi
    · intro v hv
      rw [hiobs]
      rcases htaken v hv with hv | rfl
      · obtain ⟨hlt, hacc⟩ := hr.account v hv
        refine ⟨hlt, ?_⟩
        rcases hacc with hacc | ⟨hf, -⟩ | hacc
        · exact Or.inl (Finset.mem_insert_of_mem hacc)
        · omega
        · rw [← hsize] at hacc
          exact Or.inr (Or.inr hacc)
      · exact ⟨hiob, Or.inl (Finset.mem_insert_self v counted)⟩
    · rw [hs']
      exact hr.asserted

omit [DecidableEq ι] in
theorem Aside.apart {p' : TransportPc} (hp : ¬ p.owns ∧ p.queue_op = none ∧ p.uncounted = none)
    (hp' : ¬ p'.owns ∧ p'.buffer = none ∧ p'.taken = none) : Aside p p' := by
  obtain ⟨hnot, hqueue, hunc⟩ := hp
  obtain ⟨hnot', hbuffer, htaken⟩ := hp'
  refine ⟨hnot, hnot', hqueue, ?_, ?_, ?_, ?_⟩
  · intro iob op heq
    rw [heq] at hbuffer
    cases hbuffer
  · intro v hv
    rw [hbuffer] at hv
    cases hv
  · rw [hunc]
    rcases hu : p'.uncounted with _ | v
    · rfl
    · rw [TransportPc.buffer_of_uncounted hu] at hbuffer
      cases hbuffer
  · intro v hv
    rw [htaken] at hv
    cases hv

omit [DecidableEq ι] in
theorem SameSend.refl (s : BaseTransport ι) : SameSend s s :=
  ⟨rfl, rfl, rfl, rfl, rfl, rfl, rfl, rfl⟩

omit [DecidableEq ι] in
/-- The steps that have nothing to do with what is sent. -/
theorem action_aside (k : TransportKind) (s : BaseTransport ι) (ok : Bool) (n : Int)
    (hnot : ¬ p.owns) (hpush : ∀ iob op, p ≠ .send_push iob op) (hadd : ∀ iob, p ≠ .send_add iob)
    (hcompare : ∀ w old size, p ≠ .sub_compare w old size) :
    SameSend s (s.action k ok n p).2 ∧ Aside p (s.action k ok n p).1 := by
  have hset := s.set_state_frame (P := SameSend s) fun _ =>
    ⟨rfl, rfl, rfl, rfl, rfl, rfl, rfl, rfl⟩
  have hread := s.change_read_state_frame (P := SameSend s) fun _ =>
    ⟨rfl, rfl, rfl, rfl, rfl, rfl, rfl, rfl⟩
  have hpost := s.post_channel_event_frame (P := SameSend s)
    (fun _ => ⟨rfl, rfl, rfl, rfl, rfl, rfl, rfl, rfl⟩) ok
  cases p with
  | once | once_pop | once_size | once_want | flow_send | handle_sent | handle_clear | sub_size
  | sub | start_tracker | event_last => exact absurd trivial hnot
  | send_push iob op => exact absurd rfl (hpush iob op)
  | send_add iob => exact absurd rfl (hadd iob)
  | sub_compare w old size => exact absurd rfl (hcompare w old size)
  | start_stages rest =>
    rcases rest with _ | ⟨st, rest⟩
    · exact ⟨SameSend.refl s, .apart ⟨id, rfl, rfl⟩ ⟨id, rfl, rfl⟩⟩
    · refine ⟨SameSend.refl s, ?_⟩
      simp only [action]
      split
      · exact .apart ⟨id, rfl, rfl⟩ ⟨id, rfl, rfl⟩
      · exact .apart ⟨id, rfl, rfl⟩ ⟨id, rfl, rfl⟩
  | start_state mode sent_cb =>
    -- it writes more than the state, but nothing that sending reads
    have hstate := hset state_none state_starting
    simp only [action]
    split
    · refine ⟨⟨hstate.1, hstate.2, hstate.3, hstate.4, hstate.5, hstate.6, hstate.7, hstate.8⟩, ?_⟩
      exact .apart ⟨id, rfl, rfl⟩ ⟨id, rfl, rfl⟩
    · exact ⟨hstate, .apart ⟨id, rfl, rfl⟩ ⟨id, rfl, rfl⟩⟩
  | send_check iob copied =>
    -- the thread keeps its buffer, or the call is refused
    refine ⟨SameSend.refl s, ?_⟩
    simp only [action]
    split
    · exact ⟨id, id, rfl, by simp, fun v hv => hv, rfl, by rintro _ ⟨⟩⟩
    · exact .apart ⟨id, rfl, rfl⟩ ⟨id, rfl, rfl⟩
  | send_opt iob copied =>
    refine ⟨⟨rfl, rfl, rfl, rfl, rfl, rfl, rfl, rfl⟩, ?_⟩
    exact ⟨id, id, rfl, by rintro _ _ ⟨⟩, fun v hv => hv, rfl, by rintro _ ⟨⟩⟩
  | send_started iob copied =>
    refine ⟨SameSend.refl s, ?_⟩
    simp only [action]
    split
    · exact .apart ⟨id, rfl, rfl⟩ ⟨id, rfl, rfl⟩
    · split
      · exact ⟨id, id, rfl, by simp, fun v hv => hv, rfl, by rintro _ ⟨⟩⟩
      · refine ⟨id, id, rfl, ?_, fun v hv => hv, rfl, by rintro _ ⟨⟩⟩
        intro iob' op heq
        cases heq
        rfl
  | send_create iob =>
    refine ⟨SameSend.refl s, ?_⟩
    simp only [action]
    split
    · refine ⟨id, id, rfl, ?_, fun v hv => hv, rfl, by rintro _ ⟨⟩⟩
      intro iob' op heq
      cases heq
      rfl
    · exact .apart ⟨id, rfl, rfl⟩ ⟨id, rfl, rfl⟩
  | send_sub iob ec =>
    -- the call ends, and lets go of its buffer
    refine ⟨⟨rfl, rfl, rfl, rfl, rfl, rfl, rfl, rfl⟩, id, id, rfl, by rintro _ _ ⟨⟩, by rintro _ ⟨⟩, rfl, ?_⟩
    cases ec <;> exact fun v hv => hv
  | read_opt | read_sub | send_return | data_call | call =>
    simp only [action]
    refine ⟨⟨rfl, rfl, rfl, rfl, rfl, rfl, rfl, rfl⟩, ?_⟩
    repeat' split
    all_goals exact .apart ⟨id, rfl, rfl⟩ ⟨id, rfl, rfl⟩
  | stop_started | send_disconnecting | event_disconnecting | event_disconnected | event_stopped
  | data_disconnecting | data_disconnected | channel_disconnected | channel_stopped
  | start_started =>
    refine ⟨hset _ _, ?_⟩
    simp only [action]
    split
    · exact .apart ⟨id, rfl, rfl⟩ ⟨id, rfl, rfl⟩
    · exact .apart ⟨id, rfl, rfl⟩ ⟨id, rfl, rfl⟩
  | start_error | stop_disconnecting =>
    exact ⟨hset _ _, .apart ⟨id, rfl, rfl⟩ ⟨id, rfl, rfl⟩⟩
  | stop_post | read_post | send_post =>
    exact ⟨hpost _, .apart ⟨id, rfl, rfl⟩ ⟨id, rfl, rfl⟩⟩
  | read_change | data_change =>
    refine ⟨hread _ _, ?_⟩
    simp only [action]
    repeat' split
    all_goals exact .apart ⟨id, rfl, rfl⟩ ⟨id, rfl, rfl⟩
  | read_start | data_start =>
    refine ⟨⟨rfl, rfl, rfl, rfl, rfl, rfl, rfl, rfl⟩, ?_⟩
    simp only [action]
    repeat' split
    all_goals exact .apart ⟨id, rfl, rfl⟩ ⟨id, rfl, rfl⟩
  | _ =>
    refine ⟨SameSend.refl s, ?_⟩
    simp only [action]
    repeat' split
    all_goals exact .apart ⟨id, rfl, rfl⟩ ⟨id, rfl, rfl⟩

omit [DecidableEq ι] in
/-- The steps that bear on what is sent, and all the others. -/
theorem action_sends (k : TransportKind) (s : BaseTransport ι) (ok : Bool) (n : Int)
    (p : TransportPc) : p.owns ∨ (∃ iob op, p = .send_push iob op) ∨ (∃ iob, p = .send_add iob) ∨
      (∃ w old size, p = .sub_compare w old size) ∨
        (SameSend s (s.action k ok n p).2 ∧ Aside p (s.action k ok n p).1) := by
  by_contra hnot
  simp only [not_or] at hnot
  obtain ⟨howns, hpush, hadd, hcompare, haside⟩ := hnot
  apply haside
  apply action_aside k s ok n howns
  · exact fun iob op heq => hpush ⟨iob, op, heq⟩
  · exact fun iob heq => hadd ⟨iob, heq⟩
  · exact fun w old size heq => hcompare ⟨w, old, size, heq⟩

/-! ## Section 2: Every run -/

/-- The condition on the next step of a thread. A push exchanges the head with
    what is still right, and the counter stays in its range. The pop takes a
    buffer that is counted. A thread that has subtracted the last of the
    counter does not find a smaller size saved. -/
def PcOrderly (s : BaseTransport ι) : TransportPc → Prop
  | .send_push _ op => op.Fresh s.sendlist s.ops
  | .send_add iob => s.pending_send_size.toInt + s.iob_size iob < 2 ^ 31
  | .once_pop _ (.pop_exchange _ node) =>
    ∀ j, (s.pcs j).adding ≠ none → s.sendlist.data node ≠ (s.pcs j).adding
  | .sub_compare _ old size =>
    old.toInt ≤ size.toInt → old.toInt ≤ s.last_send_iob_size.toInt
  | _ => True

/-- The condition on a step of the transport. -/
def Orderly (s : BaseTransport ι) : TransportLabel ι → Prop
  | .step i _ _ => PcOrderly s (s.pcs i)
  | _ => True

instance [Fintype ι] (s : BaseTransport ι) : DecidablePred (PcOrderly s) := fun p => by
  apply TransportPc.casesOn (motive := fun p => Decidable (PcOrderly s p)) p
  case once_pop =>
    intro w op
    apply Op.casesOn (motive := fun op => Decidable (PcOrderly s (.once_pop w op))) op <;> intros <;>
      unfold PcOrderly <;> infer_instance
  all_goals
    intros
    unfold PcOrderly
    infer_instance

instance [Fintype ι] (s : BaseTransport ι) : DecidablePred s.Orderly := fun l => by
  apply TransportLabel.casesOn (motive := fun l => Decidable (s.Orderly l)) l <;> intros <;>
    unfold Orderly <;> infer_instance

/-- The next step of a thread keeps the invariant. -/
theorem action_sendInv {k : TransportKind} (h : SendInv s) (hok : PcOrderly s (s.pcs i))
    (ok : Bool) (n : Int) :
    SendInv ((s.action k ok n (s.pcs i)).2.goto i (s.action k ok n (s.pcs i)).1) := by
  rcases action_sends k s ok n (s.pcs i) with howns | ⟨iob, op, hpc⟩ | ⟨iob, hpc⟩ |
    ⟨w, old, size, hpc⟩ | ⟨hsame, haside⟩
  · cases hpc : s.pcs i with
    | once w => exact once_inv h hpc
    | once_pop w op =>
      apply once_pop_inv h hpc ok
      intro tail node hop j iob hj
      rw [hpc, hop] at hok
      have hne := hok j
      rw [hj] at hne
      exact hne (Option.some_ne_none iob)
    | once_size w =>
      obtain ⟨v, hlast, hinv⟩ := once_size_inv h hpc
      simp only [action, hlast] at hinv ⊢
      exact hinv
    | once_want w =>
      obtain ⟨hlast, hsend, hinv⟩ := once_want_inv h hpc
      simp only [action]
      rw [if_neg (not_or.mpr ⟨hlast, not_not.mpr hsend⟩)]
      exact hinv
    | flow_send w =>
      obtain ⟨v, hsend, hinv⟩ := flow_send_inv h hpc n
      simp only [action, hsend]
      exact hinv
    | handle_sent w =>
      obtain ⟨v, hlast⟩ : ∃ v, s.last_send_iob = some v :=
        Option.ne_none_iff_exists'.mp (handle_sent_inv h hpc []).1
      simp only [action, hlast]
      obtain ⟨posted, hposted⟩ : ∃ posted, (if s.sent_cb = true then
          s.post_channel_event ok (.channel_event_buffer_sent v) else s) =
            { s with posted := posted } := by
        split
        · exact s.post_channel_event_eq ok _
        · exact ⟨s.posted, rfl⟩
      rw [hposted]
      exact (handle_sent_inv h hpc posted).2
    | handle_clear w => exact handle_clear_inv h hpc
    | sub_size w => exact sub_size_inv h hpc
    | sub w size => exact sub_inv h hpc
    | sub_compare w old size =>
      apply sub_compare_inv h hpc
      rw [hpc] at hok
      exact hok
    | start_tracker w => exact start_tracker_inv h hpc k ok n
    | event_last => exact event_last_inv h hpc
    | _ =>
      rw [hpc] at howns
      exact howns.elim
  · rw [hpc] at hok ⊢
    exact send_push_inv h hpc ok hok
  · rw [hpc] at hok ⊢
    exact send_add_inv h hpc hok
  · rw [hpc] at hok ⊢
    exact sub_compare_inv h hpc hok
  · have hrec := action_recorded k s ok n (s.pcs i)
    exact sendInv_aside h hsame haside hrec.pcs hrec.iobs hrec.results

/-- A function of the transport is entered that has nothing to do with what is
    sent. -/
theorem enter_sendInv {s₀ s' : BaseTransport ι} (h : SendInv s) (henter : s₀.enter i p = some s')
    (hsame : SameSend s s₀) (hpcs : s₀.pcs = s.pcs) (hiobs : s₀.iobs = s.iobs)
    (hresults : s₀.results = s.results)
    (hp : ¬ p.owns ∧ p.buffer = none ∧ p.taken = none) : SendInv s' := by
  obtain ⟨hidle, rfl⟩ := enter_eq henter
  rw [hpcs] at hidle
  apply sendInv_aside h hsame _ hpcs hiobs
  · rw [hresults, hidle]
    exact (List.append_nil _).symm
  · rw [hidle]
    exact .apart ⟨id, rfl, rfl⟩ hp

/-- A call of `send`. -/
theorem send_sendInv {s' : BaseTransport ι} {size : Nat} {copied : Bool} (h : SendInv s)
    (hsize : size < 2 ^ 31)
    (henter : ({ s with
      iobs := s.iobs + 1
      iob_size := Function.update s.iob_size s.iobs size } : BaseTransport ι).enter i
        (if size = 0 then .send_return s.iobs error_invalid else .send_check s.iobs copied) =
          some s') : SendInv s' := by
  obtain ⟨slots, free, reads, counted, flight, lost, hst, hr⟩ := h
  obtain ⟨hidle, hs'⟩ := enter_eq henter
  replace hidle : s.pcs i = .idle := hidle
  obtain ⟨p, hp⟩ : ∃ p, p = (if size = 0 then TransportPc.send_return s.iobs error_invalid
      else .send_check s.iobs copied) := ⟨_, rfl⟩
  rw [← hp] at hs'
  have hapart : ¬ p.owns ∧ p.queue_op = none ∧ p.uncounted = none ∧ p.taken = none := by
    rw [hp]
    split
    · exact ⟨id, rfl, rfl, rfl⟩
    · exact ⟨id, rfl, rfl, rfl⟩
  have hbuffer : ∀ v, p.buffer = some v → v = s.iobs ∧ 0 < size ∧ size < 2 ^ 31 := by
    intro v hv
    rw [hp] at hv
    split at hv
    · cases hv
    · next hne =>
      cases hv
      exact ⟨rfl, Nat.pos_of_ne_zero hne, hsize⟩
  have hpcs : s'.pcs = Function.update s.pcs i p := by rw [hs']; rfl
  have hsize' : s'.iob_size = Function.update s.iob_size s.iobs size := by rw [hs']; rfl
  have hiobs : s'.iobs = s.iobs + 1 := by rw [hs']; rfl
  -- the new number is none of those in the list
  have hold : ∀ v, v < s.iobs → s'.iob_size v = s.iob_size v := by
    intro v hv
    rw [hsize', Function.update_of_ne (by omega)]
  have hload : s'.load counted flight = s.load counted flight := by
    unfold load
    rw [Finset.sum_congr rfl]
    intro v hv
    exact hold v (hst.stored_lt v (hst.counted_mem hv).1)
  refine ⟨slots, free, reads, counted, flight, lost, ?_, ?_⟩
  · exact hst.create hidle hpcs (by rw [hs']; rfl) hapart.2.1 hapart.2.2.1 hbuffer hiobs hsize'
      (by rw [hs']; rfl) (by rw [hs']; rfl)
  · apply hr.others hst (by rw [hidle]; exact id) hapart.1 hpcs
    case hpending =>
      rw [hload, hs']
      exact hr.pending
    case hload => rw [hload]
    case hsub => exact Finset.Subset.refl counted
    case htracker => rw [hs']; rfl
    case hlast => rw [hs']; rfl
    case hsend => rw [hs']; rfl
    case hsaved => rw [hs']; rfl
    case hsize => exact hold
    case hiobs => omega
    case htaken =>
      intro v hv
      left
      apply taken_of_pcs hpcs (by rw [hs']; rfl) _ hv
      rw [hapart.2.2.2]
      simp
    case hasserted => rw [hs']; rfl

/-- The poller sends on. -/
theorem send_event_sendInv {s' : BaseTransport ι} (h : SendInv s)
    (htracking : s.s_tracker = tracker_tracking)
    (henter : ({ s with s_tracker := tracker_idle } : BaseTransport ι).enter i .event_last =
      some s') : SendInv s' := by
  obtain ⟨slots, free, reads, counted, flight, lost, hst, hr⟩ := h
  obtain ⟨hidle, hs'⟩ := enter_eq henter
  replace hidle : s.pcs i = .idle := hidle
  -- the poller has the baton, so nobody else sends
  have hdown := hr.baton.apart (Or.inl htracking)
  have hpcs : s'.pcs = Function.update s.pcs i .event_last := by rw [hs']; rfl
  have hself : ∀ j, (s'.pcs j).owns → j = i := by
    intro j hj
    by_contra hji
    rw [hpcs, Function.update_of_ne hji] at hj
    exact hdown j hj
  have hload : s'.load counted flight = s.load counted flight := by rw [hs']; rfl
  refine ⟨slots, free, reads, counted, flight, False, ?_, ?_, ?_, ?_, ?_, ?_, ?_⟩
  · apply hst.quiet hpcs (by rw [hs']; rfl) (by rw [hs']; rfl) (by rw [hidle]; rfl) nofun nofun
      nofun (by rw [hidle]; rfl)
    · intro v _
      rw [hs']
      rfl
    · intro v hv
      rw [hs'] at hv
      exact hv
  · rw [hload, hs']
    exact hr.pending
  · rw [hload]
    apply hr.baton.pick (i := i) (Or.inl htracking)
    · intro j hji hj
      exact absurd (hself j hj) hji
    · rw [hs']
      rintro (hd | hd)
      · cases hd
      · exact hd
  · intro j hj
    rw [hself j hj, hpcs, Function.update_self]
    exact (hr.rest hdown).congr (by rw [hs']; rfl) (by rw [hs']; rfl) (by rw [hs']; rfl)
  · intro hnone
    have hi := hnone i
    rw [hpcs, Function.update_self] at hi
    exact absurd trivial hi
  · intro v hv
    have hv' : s.Taken v := taken_of_pcs hpcs (by rw [hs']; rfl) nofun hv
    rw [hs']
    exact hr.account v hv'
  · rw [hs']
    exact hr.asserted

theorem step_sendInv {k : TransportKind} {s s' : BaseTransport ι} {l : TransportLabel ι}
    (h : SendInv s) (hok : s.Orderly l) (hstep : step k s l = some s') : SendInv s' := by
  cases l with
  | start i valid mode sent_cb =>
    apply enter_sendInv h hstep (SameSend.refl s) rfl rfl rfl
    split
    · exact ⟨id, rfl, rfl⟩
    · exact ⟨id, rfl, rfl⟩
  | stop i | force_stop i | async_read i =>
    exact enter_sendInv h hstep (SameSend.refl s) rfl rfl rfl ⟨id, rfl, rfl⟩
  | send i size copied =>
    simp only [step] at hstep
    split at hstep
    · next hsize => exact send_sendInv h hsize hstep
    · cases hstep
  | read_event i =>
    simp only [step] at hstep
    split at hstep
    · exact enter_sendInv h hstep ⟨rfl, rfl, rfl, rfl, rfl, rfl, rfl, rfl⟩ rfl rfl rfl
        ⟨id, rfl, rfl⟩
    · cases hstep
  | send_event i =>
    simp only [step] at hstep
    split at hstep
    · next htracking => exact send_event_sendInv h htracking hstep
    · cases hstep
  | channel_event i ev =>
    simp only [step] at hstep
    split at hstep
    · apply enter_sendInv h hstep ⟨rfl, rfl, rfl, rfl, rfl, rfl, rfl, rfl⟩ rfl rfl rfl
      cases ev with
      | channel_event_read =>
        simp only
        split
        · exact ⟨id, rfl, rfl⟩
        · exact ⟨id, rfl, rfl⟩
      | _ => exact ⟨id, rfl, rfl⟩
    · cases hstep
  | step i ok n =>
    cases hstep
    exact action_sendInv h hok ok n

theorem reachable_sendInv {k : TransportKind} {s : BaseTransport ι}
    (h : Reachable (step k) Orderly new s) : SendInv s := by
  apply h.invariant
  · exact new_sendInv
  · intro s l s' hinv hok hstep
    exact step_sendInv hinv hok hstep

/-- At most one thread is in the sending role, the assertion of `__send_once`
    has held, and `want_to_send` finds no other buffer. -/
structure SingleSender (s : BaseTransport ι) : Prop where
  unique : ∀ i j, (s.pcs i).owns → (s.pcs j).owns → i = j
  asserted : s.asserted = true
  wanted : ∀ i w, s.pcs i = .once_want w → s.send_iob = none

omit [DecidableEq ι] in
theorem SendInv.single (h : SendInv s) : SingleSender s := by
  obtain ⟨slots, free, reads, counted, flight, lost, -, hr⟩ := h
  refine ⟨hr.baton.unique, hr.asserted, ?_⟩
  intro i w hpc
  exact (phase_at hr hpc trivial).2.1

/-- **One thread sends**, in every state of a run whose steps all meet the
    condition. -/
theorem run_single_sender {k : TransportKind} {s : BaseTransport ι}
    (h : Reachable (step k) Orderly new s) : SingleSender s :=
  (reachable_sendInv h).single

/-- Thread 1 sends while thread 0 does, and then the poller sends what both of
    them have left. -/
def two_buffers_labels : List (TransportLabel (Fin 2)) :=
  started_labels 0 .tcp read_mode_once false ++
    TransportLabel.send 0 10 true :: List.replicate 13 (.step 0 true (-1)) ++
    TransportLabel.send 1 5 true :: List.replicate 16 (.step 1 true 0) ++
    List.replicate 13 (TransportLabel.step 0 true (-1)) ++
    TransportLabel.send_event 1 :: List.replicate 27 (.step 1 true 100)

theorem run_single_sender_two_buffers :
    ∃ s : BaseTransport (Fin 2), exec (step .tcp) new two_buffers_labels = some s ∧
      s.pending_send_size = 0 ∧ SingleSender s := by
  have hexec : (exec (step .tcp) new two_buffers_labels).map (·.pending_send_size) = some 0 := by
    decide
  have hmeets : Meets (step .tcp) Orderly (new : BaseTransport (Fin 2)) two_buffers_labels := by
    decide +kernel
  obtain ⟨s, hs, hpending⟩ := Option.map_eq_some_iff.mp hexec
  exact ⟨s, hs, hpending, run_single_sender (.of_exec hs hmeets)⟩

/-- Thread 0 has subtracted its ten bytes and compares them with the five that
    thread 1 has saved since. -/
theorem not_run_single_sender :
    ¬ ∀ s : BaseTransport (Fin 2), Reachable (step .tcp) AnyStep new s → SingleSender s := by
  intro hall
  have hexec : (exec (step .tcp) new
      (started_labels 0 .tcp read_mode_once false ++
        TransportLabel.send 0 10 true :: List.replicate 27 (.step 0 true 100) ++
        TransportLabel.send 1 5 true :: List.replicate 21 (.step 1 true 0) ++
        [TransportLabel.step 0 true 0])).map (fun s : BaseTransport (Fin 2) =>
          (decide (s.pcs 0).owns, decide (s.pcs 1).owns)) = some (true, true) := by
    decide
  obtain ⟨s, hs, howns⟩ := Option.map_eq_some_iff.mp hexec
  simp only [Prod.mk.injEq, decide_eq_true_eq] at howns
  have hsingle := hall s (.of_exec hs (meets_anyStep _ _ _))
  have heq := hsingle.unique 0 1 howns.1 howns.2
  cases heq

end BaseTransport

end Pump
