import Pump.Transport.References

/-! # Released once

    Every step of a `tcp_transport` keeps each reference in one place. When
    the transport is destroyed there are those in the list and the one in
    flight left, which its destructor releases, and those in posted events,
    which it does not. -/

namespace Pump

open TransportState ErrorCode ChannelEvent
open M2m (Op Ops Slot Turn)

/-! ## Section 1: The steps that have nothing to do with references -/

namespace BaseTransport

variable {ι : Type} {s : BaseTransport ι} {p : TransportPc}

/-- What such a step leaves as it was. -/
structure SameRefs (s s' : BaseTransport ι) : Prop where
  sendlist : s'.sendlist = s.sendlist
  last_send_iob : s'.last_send_iob = s.last_send_iob
  sent : ∀ v, s'.sent v = s.sent v

/-- A thread goes to `p'` from `p` and takes and passes on no reference. -/
structure GoesOn (p p' : TransportPc) : Prop where
  bare : p'.Bare
  starting : ∀ v, p'.starting = some v → p.starting = some v

theorem SameRefs.refl (s : BaseTransport ι) : SameRefs s s := ⟨rfl, rfl, fun _ => rfl⟩

theorem sameRefs_post (s : BaseTransport ι) (ok : Bool) {ev : ChannelEvent}
    (hev : ∀ v, ev ≠ channel_event_buffer_sent v) : SameRefs s (s.post_channel_event ok ev) := by
  unfold post_channel_event
  split
  · refine ⟨rfl, rfl, ?_⟩
    intro v
    show (s.posted ++ [ev]).count _ = _
    rw [List.count_append, List.count_singleton, if_neg, Nat.add_zero]
    · rfl
    · simpa using hev v
  · exact SameRefs.refl s

theorem sameRefs_erase (s : BaseTransport ι) {ev : ChannelEvent}
    (hev : ∀ v, ev ≠ channel_event_buffer_sent v) :
    SameRefs s { s with posted := s.posted.erase ev } := by
  refine ⟨rfl, rfl, ?_⟩
  intro v
  exact List.count_erase_of_ne (hev v).symm

theorem goesOn_failed (w : Sending) : GoesOn p (send_failed w) := by
  cases w with
  | async | event | again => exact ⟨⟨rfl, rfl, rfl, id⟩, nofun⟩

theorem goesOn_compared (w : Sending) : GoesOn p (send_more w) ∧ GoesOn p (send_done w) := by
  cases w with
  | async | event | again => exact ⟨⟨⟨rfl, rfl, rfl, id⟩, nofun⟩, ⟨rfl, rfl, rfl, id⟩, nofun⟩

theorem action_plain (k : TransportKind) (s : BaseTransport ι) (ok : Bool) (n : Int)
    (hp : p.plain) : SameRefs s (s.action k ok n p).2 ∧ GoesOn p (s.action k ok n p).1 := by
  have hset := s.set_state_frame (P := SameRefs s) fun _ => ⟨rfl, rfl, fun _ => rfl⟩
  have hread := s.change_read_state_frame (P := SameRefs s) fun _ => ⟨rfl, rfl, fun _ => rfl⟩
  have hflow := s.flow_send_frame (P := SameRefs s) fun _ _ => ⟨rfl, rfl, fun _ => rfl⟩
  -- each step leaves the references alone and goes on with its buffer or without one
  cases p with
  | send_started | send_create | send_push | once | once_pop | handle_sent | handle_clear =>
    exact hp.elim
  | call c =>
    cases c with
    | sent_cb => exact hp.elim
    | _ => exact ⟨⟨rfl, rfl, fun _ => rfl⟩, ⟨rfl, rfl, rfl, id⟩, by rintro _ ⟨⟩⟩
  | start_stages rest =>
    rcases rest with _ | ⟨st, rest⟩
    · exact ⟨SameRefs.refl s, ⟨rfl, rfl, rfl, id⟩, by rintro _ ⟨⟩⟩
    · refine ⟨SameRefs.refl s, ?_⟩
      simp only [action]
      split
      · exact ⟨⟨rfl, rfl, rfl, id⟩, by rintro _ ⟨⟩⟩
      · exact ⟨⟨rfl, rfl, rfl, id⟩, by rintro _ ⟨⟩⟩
  | start_state mode sent_cb =>
    have hstate := hset state_none state_starting
    simp only [action]
    split
    · exact ⟨⟨hstate.1, hstate.2, hstate.3⟩, ⟨rfl, rfl, rfl, id⟩, by rintro _ ⟨⟩⟩
    · exact ⟨hstate, ⟨rfl, rfl, rfl, id⟩, by rintro _ ⟨⟩⟩
  | send_check iob copied =>
    refine ⟨SameRefs.refl s, ?_⟩
    simp only [action]
    split
    · exact ⟨⟨rfl, rfl, rfl, id⟩, fun v hv => hv⟩
    · exact ⟨⟨rfl, rfl, rfl, id⟩, by rintro _ ⟨⟩⟩
  | send_opt iob copied =>
    exact ⟨⟨rfl, rfl, fun _ => rfl⟩, ⟨rfl, rfl, rfl, id⟩, fun v hv => hv⟩
  | once_size w =>
    simp only [action]
    split
    · exact ⟨SameRefs.refl s, ⟨rfl, rfl, rfl, id⟩, by rintro _ ⟨⟩⟩
    · exact ⟨⟨rfl, rfl, fun _ => rfl⟩, ⟨rfl, rfl, rfl, id⟩, by rintro _ ⟨⟩⟩
  | once_want w =>
    simp only [action]
    split
    · exact ⟨SameRefs.refl s, goesOn_failed w⟩
    · exact ⟨⟨rfl, rfl, fun _ => rfl⟩, ⟨rfl, rfl, rfl, id⟩, by rintro _ ⟨⟩⟩
  | flow_send w =>
    simp only [action]
    split
    · exact ⟨SameRefs.refl s, ⟨rfl, rfl, rfl, id⟩, by rintro _ ⟨⟩⟩
    · refine ⟨hflow n _, ?_⟩
      simp only
      split
      · exact ⟨⟨rfl, rfl, rfl, id⟩, by rintro _ ⟨⟩⟩
      · exact ⟨⟨rfl, rfl, rfl, id⟩, by rintro _ ⟨⟩⟩
      · exact goesOn_failed w
  | sub_compare w old size =>
    refine ⟨SameRefs.refl s, ?_⟩
    simp only [action]
    split
    · exact (goesOn_compared w).1
    · exact (goesOn_compared w).2
  | start_tracker w =>
    refine ⟨⟨rfl, rfl, fun _ => rfl⟩, ?_⟩
    simp only [action]
    split
    · cases w with
      | async | event | again => exact ⟨⟨rfl, rfl, rfl, id⟩, by rintro _ ⟨⟩⟩
    · exact goesOn_failed w
  | stop_started | send_disconnecting | event_disconnecting | event_disconnected | event_stopped
  | data_disconnecting | data_disconnected | channel_disconnected | channel_stopped
  | start_started | start_error | stop_disconnecting =>
    refine ⟨hset _ _, ?_⟩
    simp only [action]
    repeat' split
    all_goals exact ⟨⟨rfl, rfl, rfl, id⟩, by rintro _ ⟨⟩⟩
  | stop_post | read_post | send_post =>
    exact ⟨sameRefs_post s ok (by simp), ⟨rfl, rfl, rfl, id⟩, by rintro _ ⟨⟩⟩
  | read_change | data_change =>
    refine ⟨hread _ _, ?_⟩
    simp only [action]
    repeat' split
    all_goals exact ⟨⟨rfl, rfl, rfl, id⟩, by rintro _ ⟨⟩⟩
  | _ =>
    refine ⟨⟨rfl, rfl, fun _ => rfl⟩, ?_⟩
    simp only [action]
    repeat' split
    all_goals exact ⟨⟨rfl, rfl, rfl, id⟩, by rintro _ ⟨⟩⟩

theorem refers_of_plain (ok : Bool) (n : Int) (hp : p.plain) :
    s.refers ok n p = [] ∧ s.unrefers ok n p = [] := by
  cases p with
  | send_started | send_create | handle_sent => exact hp.elim
  | call c =>
    cases c with
    | sent_cb => exact hp.elim
    | _ => exact ⟨rfl, rfl⟩
  | _ => exact ⟨rfl, rfl⟩

end BaseTransport

/-- The operation of the destructor on the list. -/
def ClearPc.op : ClearPc → Option (Op Nat)
  | .pop op => some op
  | _ => none

namespace Lifetime

variable {ι : Type} [DecidableEq ι] {s s' : Lifetime ι} {slots : List (Slot Nat)}
  {free : List Nat} {reads : ι → Option Nat} {i : ι}

/-! ## Section 2: Every run of a transport -/

/-- The condition on the next step of a thread: an event with a buffer is
    posted. -/
def PcPosts (s : Lifetime ι) (ok : Bool) : TransportPc → Prop
  | .handle_sent _ => s.transp.sent_cb = true → ok = true
  | _ => True

/-- The condition on a step of the transport. -/
def Posts (s : Lifetime ι) : TransportLabel ι → Prop
  | .step i ok _ => s.PcPosts ok (s.transp.pcs i)
  | _ => True

/-- The references are accounted for. -/
def Kept (s : Lifetime ι) : Prop :=
  s.transp.SendInv ∧ ∃ slots free reads, Ledger s slots free reads

/-- The next step of a thread. -/
theorem Ledger.action (h : Ledger s slots free reads) (hsend : s.transp.SendInv) {ok : Bool}
    {n : Int} (hok : s.transp.PcOrderly (s.transp.pcs i)) (hpost : s.PcPosts ok (s.transp.pcs i)) :
    ∃ slots' free' reads', Ledger { s with
      transp := (s.transp.action .tcp ok n (s.transp.pcs i)).2.goto i
        (s.transp.action .tcp ok n (s.transp.pcs i)).1
      referred := s.referred ++ s.transp.refers ok n (s.transp.pcs i)
      released := s.released ++ s.transp.unrefers ok n (s.transp.pcs i) } slots' free' reads' := by
  by_cases hplain : (s.transp.pcs i).plain
  · obtain ⟨hsame, hgoes⟩ := BaseTransport.action_plain .tcp s.transp ok n hplain
    obtain ⟨hrefers, hunrefers⟩ := BaseTransport.refers_of_plain (s := s.transp) ok n hplain
    have hrec := BaseTransport.action_recorded .tcp s.transp ok n (s.transp.pcs i)
    refine ⟨slots, free, reads, ?_⟩
    rw [hrefers, hunrefers, List.append_nil, List.append_nil]
    apply h.goes (i := i) (p := (s.transp.action .tcp ok n (s.transp.pcs i)).1)
    case hpcs =>
      show Function.update _ i _ = _
      rw [hrec.pcs]
    case hold => exact TransportPc.bare_of_plain hplain
    case hnew => exact Or.inl hgoes.bare.queue_op
    case hpushing => exact hgoes.bare.pushing
    case hcalling => exact hgoes.bare.calling
    case hclears => exact hgoes.bare.clears
    case hlist => exact hsame.sendlist
    case hlast => exact hsame.last_send_iob
    case hsent => exact hsame.sent
    case hreferred => rfl
    case hreleased => rfl
    case hiobs => exact hrec.iobs.ge
    case hstarting => exact fun u hu => h.starting i u (hgoes.starting u hu)
  · cases hpc : s.transp.pcs i with
    | send_started iob copied =>
      have hstart : (s.transp.pcs i).starting = some iob := by
        rw [hpc]
        rfl
      have hbare := TransportPc.bare_of_starting hstart
      refine ⟨slots, free, reads, ?_⟩
      simp only [BaseTransport.action, BaseTransport.refers, BaseTransport.unrefers,
        List.append_nil]
      by_cases hstate : s.transp.state = state_started
      · rw [if_neg (not_not.mpr hstate)]
        cases copied with
        | false =>
          rw [if_neg Bool.false_ne_true, if_pos ⟨hstate, rfl⟩]
          exact h.refer hsend hstart
        | true =>
          -- the reference is taken when the buffer is created
          rw [if_pos rfl, if_neg (fun hand => Bool.noConfusion hand.2), List.append_nil]
          refine h.goes (p := .send_create iob) rfl hbare (Or.inl rfl) rfl rfl id rfl rfl
            (fun _ => rfl) rfl rfl (le_refl _) ?_
          intro u hu
          cases hu
          exact h.starting i iob hstart
      · rw [if_pos hstate, if_neg (fun hand => hstate hand.1), List.append_nil]
        exact h.goes (p := .send_sub iob error_unstart) rfl hbare (Or.inl rfl) rfl rfl id rfl rfl
          (fun _ => rfl) rfl rfl (le_refl _) (by rintro _ ⟨⟩)
    | send_create iob =>
      have hstart : (s.transp.pcs i).starting = some iob := by
        rw [hpc]
        rfl
      refine ⟨slots, free, reads, ?_⟩
      simp only [BaseTransport.action, BaseTransport.refers, BaseTransport.unrefers]
      cases ok with
      | true =>
        rw [if_pos rfl, if_pos (Or.inl rfl), if_neg (fun hand => Bool.noConfusion hand.1),
          List.append_nil]
        exact h.refer hsend hstart
      | false =>
        rw [if_neg Bool.false_ne_true]
        by_cases hn : n = 0
        · rw [if_neg (by simp [hn]), if_neg (by simp [hn]), List.append_nil, List.append_nil]
          exact h.goes (p := .send_sub iob error_fault) rfl (TransportPc.bare_of_starting hstart)
            (Or.inl rfl) rfl rfl id rfl rfl (fun _ => rfl) rfl rfl (le_refl _) (by rintro _ ⟨⟩)
        · rw [if_pos (Or.inr hn), if_pos ⟨rfl, hn⟩]
          exact h.refuse hsend hstart error_fault
    | send_push iob op =>
      rw [hpc] at hok
      obtain ⟨slots', free', hledger⟩ := h.push hsend hpc hok ok
      refine ⟨slots', free', reads, ?_⟩
      simp only [BaseTransport.action, BaseTransport.refers, BaseTransport.unrefers,
        List.append_nil]
      exact hledger
    | once w =>
      refine ⟨slots, free, reads, ?_⟩
      simp only [BaseTransport.action, BaseTransport.refers, BaseTransport.unrefers,
        List.append_nil]
      exact h.goes (p := .once_pop w .pop_load) rfl (by rw [hpc]; exact ⟨rfl, rfl, rfl, id⟩)
        (Or.inr rfl) rfl rfl id rfl rfl (fun _ => rfl) rfl rfl (le_refl _) (by rintro _ ⟨⟩)
    | once_pop w op =>
      obtain ⟨slots', free', reads', hledger⟩ := h.pop hsend hpc ok
      refine ⟨slots', free', reads', ?_⟩
      simp only [BaseTransport.action, BaseTransport.refers, BaseTransport.unrefers,
        List.append_nil]
      exact hledger
    | handle_sent w =>
      obtain ⟨v, hlast⟩ : ∃ v, s.transp.last_send_iob = some v :=
        Option.ne_none_iff_exists'.mp (BaseTransport.handle_sent_inv hsend hpc []).1
      refine ⟨slots, free, reads, ?_⟩
      simp only [BaseTransport.action, BaseTransport.refers, BaseTransport.unrefers, hlast,
        List.append_nil]
      by_cases hcb : s.transp.sent_cb = true
      · rw [hpc] at hpost
        rw [if_pos hcb, if_pos hcb, hpost hcb, List.append_nil]
        exact h.post hsend hpc hlast
      · rw [if_neg hcb, if_neg hcb]
        exact h.unrefer hsend hpc hlast
    | handle_clear w =>
      refine ⟨slots, free, reads, ?_⟩
      simp only [BaseTransport.action, BaseTransport.refers, BaseTransport.unrefers,
        List.append_nil]
      exact h.clear_last hsend hpc
    | call c =>
      cases c with
      | sent_cb v =>
        refine ⟨slots, free, reads, ?_⟩
        simp only [BaseTransport.action, BaseTransport.refers, BaseTransport.unrefers,
          List.append_nil]
        exact h.call hpc _
      | _ =>
        rw [hpc] at hplain
        exact absurd trivial hplain
    | _ =>
      rw [hpc] at hplain
      exact absurd trivial hplain

/-- A function of the transport is entered. -/
theorem Ledger.enters (h : Ledger s slots free reads) {s₀ transp : BaseTransport ι}
    {p : TransportPc} (henter : s₀.enter i p = some transp) (hpcs : s₀.pcs = s.transp.pcs)
    (hsame : BaseTransport.SameRefs s.transp s₀) (hiobs : s.transp.iobs ≤ s₀.iobs) (hp : p.Bare)
    (hstarting : ∀ u, p.starting = some u → u ∉ s.referred) :
    Ledger { s with transp := transp } slots free reads := by
  obtain ⟨hidle, rfl⟩ := BaseTransport.enter_eq henter
  rw [hpcs] at hidle
  apply h.goes (i := i) (p := p)
  case hpcs =>
    show Function.update s₀.pcs i p = _
    rw [hpcs]
  case hold =>
    rw [hidle]
    exact ⟨rfl, rfl, rfl, id⟩
  case hnew => exact Or.inl hp.queue_op
  case hpushing => exact hp.pushing
  case hcalling => exact hp.calling
  case hclears => exact hp.clears
  case hlist => exact hsame.sendlist
  case hlast => exact hsame.last_send_iob
  case hsent => exact hsame.sent
  case hreferred => rfl
  case hreleased => rfl
  case hiobs => exact hiobs
  case hstarting => exact hstarting

/-- A poller takes a posted event. -/
theorem Ledger.event (h : Ledger s slots free reads) {transp : BaseTransport ι}
    {ev : ChannelEvent} (hstep : s.transp.step .tcp (.channel_event i ev) = some transp) :
    Ledger { s with transp := transp } slots free reads := by
  simp only [BaseTransport.step] at hstep
  split at hstep
  · next hmem =>
    cases ev with
    | channel_event_buffer_sent v =>
      obtain ⟨hidle, rfl⟩ := BaseTransport.enter_eq hstep
      exact h.take_event hidle hmem
    | channel_event_disconnected =>
      exact h.enters hstep rfl (BaseTransport.sameRefs_erase _ (by simp)) (le_refl _)
        ⟨rfl, rfl, rfl, id⟩ (by rintro _ ⟨⟩)
    | channel_event_read =>
      exact h.enters hstep rfl (BaseTransport.sameRefs_erase _ (by simp)) (le_refl _)
        ⟨rfl, rfl, rfl, id⟩ (by rintro _ ⟨⟩)
  · cases hstep

variable [Fintype ι]

/-- A step of the transport. -/
theorem Kept.run (h : Kept s) {l : TransportLabel ι} (hok : s.transp.Orderly l)
    (hpost : s.Posts l) (hstep : s.step (.run l) = some s') :
    Kept s' ∧ s'.clearing = none := by
  obtain ⟨hsend, slots, free, reads, hledger⟩ := h
  simp only [step] at hstep
  split at hstep
  · next hclearing =>
    rw [Option.isNone_iff_eq_none] at hclearing
    obtain ⟨transp, htransp, hs'⟩ := Option.map_eq_some_iff.mp hstep
    have hsend' := BaseTransport.step_sendInv hsend hok htransp
    -- all but a step and an event only put the thread at the start of a call
    cases l with
    | step i ok n =>
      obtain ⟨slots', free', reads', hledger'⟩ := hledger.action (n := n) hsend hok hpost
      cases htransp
      cases hs'
      exact ⟨⟨hsend', slots', free', reads', hledger'⟩, hclearing⟩
    | start i valid mode sent_cb =>
      cases hs'
      refine ⟨⟨hsend', slots, free, reads, ?_⟩, hclearing⟩
      apply hledger.enters htransp rfl (BaseTransport.SameRefs.refl _) (le_refl _)
      · split
        · exact ⟨rfl, rfl, rfl, id⟩
        · exact ⟨rfl, rfl, rfl, id⟩
      · intro u hu
        split at hu
        · cases hu
        · cases hu
    | stop i | force_stop i | async_read i =>
      cases hs'
      refine ⟨⟨hsend', slots, free, reads, ?_⟩, hclearing⟩
      exact hledger.enters htransp rfl (BaseTransport.SameRefs.refl _) (le_refl _)
        ⟨rfl, rfl, rfl, id⟩ (by rintro _ ⟨⟩)
    | send i size copied =>
      cases hs'
      refine ⟨⟨hsend', slots, free, reads, ?_⟩, hclearing⟩
      simp only [BaseTransport.step] at htransp
      split at htransp
      · apply hledger.enters htransp rfl ⟨rfl, rfl, fun _ => rfl⟩ (Nat.le_succ _)
        · split
          · exact ⟨rfl, rfl, rfl, id⟩
          · exact ⟨rfl, rfl, rfl, id⟩
        · -- the number is new
          intro u hu hmem
          have hlt := hledger.referred_lt u hmem
          split at hu
          · cases hu
          · cases hu
            exact absurd hlt (Nat.lt_irrefl _)
      · cases htransp
    | read_event i =>
      cases hs'
      refine ⟨⟨hsend', slots, free, reads, ?_⟩, hclearing⟩
      simp only [BaseTransport.step] at htransp
      split at htransp
      · exact hledger.enters htransp rfl ⟨rfl, rfl, fun _ => rfl⟩ (le_refl _)
          ⟨rfl, rfl, rfl, id⟩ (by rintro _ ⟨⟩)
      · cases htransp
    | send_event i =>
      cases hs'
      refine ⟨⟨hsend', slots, free, reads, ?_⟩, hclearing⟩
      simp only [BaseTransport.step] at htransp
      split at htransp
      · exact hledger.enters htransp rfl ⟨rfl, rfl, fun _ => rfl⟩ (le_refl _)
          ⟨rfl, rfl, rfl, id⟩ (by rintro _ ⟨⟩)
      · cases htransp
    | channel_event i ev =>
      cases hs'
      exact ⟨⟨hsend', slots, free, reads, hledger.event htransp⟩, hclearing⟩
  · cases hstep

/-! ## Section 3: The destructor -/

/-- Reference `v` is at a place, for the destructor. -/
def Left (s : Lifetime ι) (i : ι) (pc : ClearPc) (slots : List (Slot Nat))
    (reads : ι → Option Nat) (v : Nat) : Place ι → Prop
  | .untaken => v ∉ s.referred
  | .listed => v ∈ slots.map Slot.value
  | .flying => reads i = some v ∨ (pc = .last ∧ s.transp.last_send_iob = some v)
  | .released => v ∈ s.released
  | _ => False

/-- What is left, where thread `i` is in the destructor. -/
structure Clearing (s : Lifetime ι) (i : ι) (pc : ClearPc) (slots : List (Slot Nat))
    (free : List Nat) (reads : ι → Option Nat) : Prop where
  queue : M2m.Inv 8 s.transp.sendlist (Function.update (fun _ => none) i pc.op) slots free reads
  popping : ∀ op, pc.op = some op → op.value = none ∧ op.Settled s.transp.sendlist
  slots_nodup : (slots.map Slot.value).Nodup
  referred_nodup : s.referred.Nodup
  released_nodup : s.released.Nodup
  finished : pc = .done → slots = []
  going : pc ≠ .aborted
  place : OnePlace (s.Left i pc slots reads)

omit [Fintype ι] in
/-- The destructor has released nothing by this step. -/
theorem Clearing.keeps {pc pc' : ClearPc} (h : Clearing s i pc slots free reads)
    (hreferred : s'.referred = s.referred) (hreleased : s'.released = s.released)
    (hflying : ∀ u, s'.Left i pc' slots reads u .flying ↔ s.Left i pc slots reads u .flying) :
    OnePlace (s'.Left i pc' slots reads) := by
  apply h.place.stay
  intro u q
  cases q with
  | flying => exact hflying u
  | untaken =>
    show u ∉ s'.referred ↔ u ∉ s.referred
    rw [hreferred]
  | released =>
    show u ∈ s'.released ↔ u ∈ s.released
    rw [hreleased]
  | listed | posted | pushing j | calling j => exact Iff.rfl

omit [Fintype ι] in
/-- It has released the reference `v`. -/
theorem Clearing.releases {pc pc' : ClearPc} {reads' : ι → Option Nat} {v : Nat}
    (h : Clearing s i pc slots free reads) (hreferred : s'.referred = s.referred)
    (hreleased : s'.released = s.released ++ [v])
    (hbefore : ∀ u, s.Left i pc slots reads u .flying ↔ u = v)
    (hafter : ∀ u, ¬ s'.Left i pc' slots reads' u .flying) :
    s'.released.Nodup ∧ OnePlace (s'.Left i pc' slots reads') := by
  have hflying := (hbefore v).mpr rfl
  have hmem : ∀ u, u ∈ s'.released ↔ u ∈ s.released ∨ u = v := by
    intro u
    rw [hreleased, List.mem_append, List.mem_singleton]
  refine ⟨?_, ?_⟩
  · rw [hreleased, ← List.concat_eq_append]
    apply h.released_nodup.concat
    intro hv
    have hv' : s.Left i pc slots reads v .released := hv
    cases h.place.eq hflying hv'
  · have hmove : Moves (s.Left i pc slots reads) (s'.Left i pc' slots reads') v .flying
        .released := by
      constructor
      case before => exact hflying
      case after => exact (hmem v).mpr (Or.inr rfl)
      case leaves => exact hafter v
      case others =>
        intro u q hq
        cases q with
        | flying =>
          have huv : u ≠ v := fun huv => hq ⟨huv, Or.inl rfl⟩
          exact iff_of_false (hafter u) (mt (hbefore u).mp huv)
        | released =>
          have huv : u ≠ v := fun huv => hq ⟨huv, Or.inr rfl⟩
          show u ∈ s'.released ↔ u ∈ s.released
          rw [hmem, or_iff_left huv]
        | untaken =>
          show u ∉ s'.referred ↔ u ∉ s.referred
          rw [hreferred]
        | listed | posted | pushing j | calling j => exact Iff.rfl
    exact h.place.move hmove

omit [Fintype ι] in
/-- The transport is destroyed: no event with a buffer is posted. -/
theorem Kept.destroy (h : Kept s) (hidle : ∀ j, s.transp.pcs j = .idle)
    (hposted : ∀ v, s.transp.sent v = 0) :
    ∃ slots free reads, Clearing { s with clearing := some (i, .last) } i .last slots free reads := by
  obtain ⟨hsend, slots, free, reads, hledger⟩ := h
  have hops : s.transp.ops = fun _ => none := by
    funext j
    unfold BaseTransport.ops
    rw [hidle]
    rfl
  have hreads : ∀ j, reads j = none := by
    intro j
    apply hledger.queue.core.not_taken
    show M2m.reading (s.transp.ops j) = none
    rw [hops]
    rfl
  refine ⟨slots, free, reads, ?_⟩
  constructor
  case queue =>
    have hqueue := hledger.queue
    rw [hops] at hqueue
    rw [show Function.update (fun _ : ι => (none : Option (Op Nat))) i ClearPc.last.op =
      fun _ => none from Function.update_eq_self i fun _ => none]
    exact hqueue
  case popping => nofun
  case slots_nodup => exact hledger.slots_nodup
  case referred_nodup => exact hledger.referred_nodup
  case released_nodup => exact hledger.released_nodup
  case finished => nofun
  case going => nofun
  case place =>
    apply hledger.place.stay
    intro u q
    cases q with
    | flying =>
      -- nothing is being read, and no thread has passed `last_send_iob_` on
      constructor
      · rintro (hu | ⟨-, hu⟩)
        · rw [hreads i] at hu
          cases hu
        · refine Or.inr ⟨hu, ?_⟩
          intro j
          rw [hidle j]
          exact id
      · rintro (⟨j, hu⟩ | ⟨hu, -⟩)
        · rw [hreads j] at hu
          cases hu
        · exact Or.inr ⟨rfl, hu⟩
    | posted => exact iff_of_false id (not_not.mpr (hposted u))
    | pushing j | calling j =>
      apply iff_of_false id
      intro hu
      have hu' := hu
      simp only [At, hidle j] at hu'
      cases hu'
    | untaken | listed | released => exact Iff.rfl

omit [Fintype ι] in
theorem Clearing.reads_none {pc : ClearPc} (h : Clearing s i pc slots free reads)
    (hop : M2m.reading pc.op = none) : reads i = none := by
  apply h.queue.core.not_taken
  show M2m.reading (Function.update (fun _ => none) i pc.op i) = none
  rw [Function.update_self, hop]

omit [Fintype ι] in
/-- The next pop begins. -/
theorem begin_pop {q : M2m.Nodes Nat}
    (h : M2m.Inv 8 q (Function.update (fun _ => none) i none) slots free reads) :
    M2m.Inv 8 q (Function.update (fun _ => none) i (ClearPc.pop .pop_load).op) slots free reads := by
  have hself : Function.update (fun _ : ι => (none : Option (Op Nat))) i none i = none := by
    rw [Function.update_self]
  have hbegin := h.begin hself (Or.inl rfl)
  rwa [Function.update_idem] at hbegin

theorem popping_load (q : M2m.Nodes Nat) (op : Op Nat)
    (hop : (ClearPc.pop .pop_load).op = some op) : op.value = none ∧ op.Settled q := by
  cases hop
  exact ⟨rfl, trivial, nofun⟩

omit [Fintype ι] in
/-- The destructor releases what is in flight. -/
theorem Clearing.last (h : Clearing s i .last slots free reads) :
    Clearing { s with
      released := s.released ++ s.transp.last_send_iob.toList
      clearing := some (i, .pop .pop_load) } i (.pop .pop_load) slots free reads := by
  have hreads := h.reads_none rfl
  obtain ⟨s', hs'⟩ : ∃ s' : Lifetime ι, s' = { s with
      released := s.released ++ s.transp.last_send_iob.toList
      clearing := some (i, .pop .pop_load) } := ⟨_, rfl⟩
  rw [← hs']
  have hqueue : M2m.Inv 8 s'.transp.sendlist
      (Function.update (fun _ => none) i (ClearPc.pop .pop_load).op) slots free reads := by
    rw [hs']
    exact begin_pop h.queue
  have hreferred : s'.referred = s.referred := by rw [hs']
  have hreleased : s'.released = s.released ++ s.transp.last_send_iob.toList := by rw [hs']
  have hnodup : s'.referred.Nodup := by
    rw [hreferred]
    exact h.referred_nodup
  have hafter : ∀ u, ¬ s'.Left i (.pop .pop_load) slots reads u .flying := by
    rintro u (hu | ⟨hpc, -⟩)
    · rw [hreads] at hu
      cases hu
    · cases hpc
  have hbefore : ∀ u, s.Left i .last slots reads u .flying ↔ s.transp.last_send_iob = some u := by
    intro u
    constructor
    · rintro (hu | ⟨-, hu⟩)
      · rw [hreads] at hu
        cases hu
      · exact hu
    · intro hu
      exact Or.inr ⟨rfl, hu⟩
  rcases hlast : s.transp.last_send_iob with _ | v
  · rw [hlast] at hreleased
    have hsame : s'.released = s.released := hreleased.trans (List.append_nil _)
    refine ⟨hqueue, popping_load _, h.slots_nodup, hnodup, ?_, nofun, nofun, ?_⟩
    · rw [hsame]
      exact h.released_nodup
    · apply h.keeps hreferred hsame
      intro u
      rw [hbefore, hlast]
      exact iff_of_false (hafter u) nofun
  · rw [hlast] at hreleased
    obtain ⟨hnodup', hplace⟩ := h.releases (v := v) hreferred hreleased
      (by
        intro u
        rw [hbefore, hlast, Option.some.injEq]
        exact eq_comm)
      hafter
    exact ⟨hqueue, popping_load _, h.slots_nodup, hnodup, hnodup', nofun, nofun, hplace⟩

omit [Fintype ι] in
/-- A step of the destructor's pop. -/
theorem Clearing.pop {op : Op Nat} (h : Clearing s i (.pop op) slots free reads)
    (hstep : s.clear_sendlist i (.pop op) = some s') :
    ∃ pc' slots' free' reads', s'.clearing = some (i, pc') ∧
      Clearing s' i pc' slots' free' reads' := by
  obtain ⟨hvalue, hsettled⟩ := h.popping op rfl
  have hop : Function.update (fun _ : ι => (none : Option (Op Nat))) i (some op) i = some op := by
    rw [Function.update_self]
  -- the destructor runs alone, so no other thread is in the list
  obtain ⟨slots', free', reads', hinv, hcases⟩ := h.queue.pop_step hop hvalue hsettled
    (by
      intro j op' hji hj
      change Function.update _ i _ j = _ at hj
      rw [Function.update_of_ne hji] at hj
      cases hj) true
  change M2m.Inv 8 _ (Function.update (Function.update (fun _ => none) i _) i _) _ _ _ at hinv
  rw [Function.update_idem] at hinv
  obtain ⟨q, hq⟩ : ∃ q, q = (op.step 8 true s.transp.sendlist).1 := ⟨_, rfl⟩
  obtain ⟨turn, hturn⟩ : ∃ turn, turn = (op.step 8 true s.transp.sendlist).2 := ⟨_, rfl⟩
  simp only [clear_sendlist, ← hq, ← hturn] at hstep
  rw [← hq, ← hturn] at hinv hcases
  rcases hcases with ⟨op', rfl, hvalue', hsettled', hreading, rfl, rfl⟩ |
    ⟨tail, node, v, rfl, rfl, rfl, rfl⟩ | ⟨node, v, rfl, rfl, hv, rfl, rfl⟩ |
    ⟨tail, node, rfl, hready, rfl, rfl, rfl⟩
  · -- the pop goes on
    cases hstep
    refine ⟨.pop op', slots', free', reads', rfl, hinv, ?_, h.slots_nodup, h.referred_nodup,
      h.released_nodup, nofun, nofun, ?_⟩
    · intro op₁ hop₁
      cases hop₁
      exact ⟨hvalue', hsettled'⟩
    · apply h.keeps rfl rfl
      intro u
      exact or_congr_right (and_congr_left' (iff_of_false nofun nofun))
  · -- a buffer is taken out of the list
    cases hstep
    have hnodup := h.slots_nodup
    rw [List.map_cons, List.nodup_cons] at hnodup
    have hreads := h.reads_none rfl
    refine ⟨.pop (.pop_data node), slots', free', _, rfl, hinv, ?_, hnodup.2, h.referred_nodup,
      h.released_nodup, nofun, nofun, ?_⟩
    · intro op₁ hop₁
      cases hop₁
      exact ⟨rfl, trivial, nofun⟩
    · have hmove : Moves (s.Left i (.pop (.pop_exchange tail node)) (⟨node, v, true⟩ :: slots') reads)
          (({ s with
            transp := { s.transp with sendlist := q }
            clearing := some (i, .pop (.pop_data node)) } : Lifetime ι).Left i
              (.pop (.pop_data node)) slots' (Function.update reads i (some v))) v .listed .flying := by
        constructor
        case before => exact List.mem_cons_self
        case after => exact Or.inl (Function.update_self i (some v) reads)
        case leaves => exact hnodup.1
        case others =>
          intro u q hq
          cases q with
          | listed =>
            have huv : u ≠ v := fun huv => hq ⟨huv, Or.inl rfl⟩
            show u ∈ slots'.map Slot.value ↔ u ∈ v :: slots'.map Slot.value
            rw [List.mem_cons, or_iff_right huv]
          | flying =>
            have huv : u ≠ v := fun huv => hq ⟨huv, Or.inr rfl⟩
            apply iff_of_false
            · rintro (hu | ⟨hpc, -⟩)
              · rw [Function.update_self] at hu
                exact huv (Option.some.inj hu).symm
              · cases hpc
            · rintro (hu | ⟨hpc, -⟩)
              · rw [hreads] at hu
                cases hu
              · cases hpc
          | untaken | released | posted | pushing j | calling j => exact Iff.rfl
      exact h.place.move hmove
  · -- the pop returns, and the buffer is released
    cases hstep
    obtain ⟨s', hs'⟩ : ∃ s' : Lifetime ι, s' = { s with
      transp := { s.transp with sendlist := q }
      released := s.released ++ [v]
      clearing := some (i, .pop .pop_load) } := ⟨_, rfl⟩
    have hreleases : s'.released.Nodup ∧
        OnePlace (s'.Left i (.pop .pop_load) slots' (Function.update reads i none)) := by
      apply h.releases (v := v) (by rw [hs']) (by rw [hs'])
      · intro u
        constructor
        · rintro (hu | ⟨hpc, -⟩)
          · rw [hv] at hu
            exact (Option.some.inj hu).symm
          · cases hpc
        · rintro rfl
          exact Or.inl hv
      · rintro u (hu | ⟨hpc, -⟩)
        · rw [Function.update_self] at hu
          cases hu
        · cases hpc
    obtain ⟨hnodup, hplace⟩ := hreleases
    rw [hs'] at hnodup hplace
    exact ⟨.pop .pop_load, slots', free', _, rfl, begin_pop hinv, popping_load _, h.slots_nodup,
      h.referred_nodup, hnodup, nofun, nofun, hplace⟩
  · -- the node behind the tail is not ready, so the list is empty
    cases hstep
    refine ⟨.done, slots', free', reads', rfl, hinv, nofun, h.slots_nodup, h.referred_nodup,
      h.released_nodup, ?_, nofun, ?_⟩
    · intro _
      obtain ⟨htail, hnode⟩ := hsettled.1
      rw [hnode] at hready
      apply h.queue.slots_nil _ hready
      intro j
      by_cases hji : j = i
      · rw [hji, Function.update_self]
        rfl
      · rw [Function.update_of_ne hji]
        rfl
    · apply h.keeps rfl rfl
      intro u
      exact or_congr_right (and_congr_left' (iff_of_false nofun nofun))

/-! ## Section 4: Every run -/

/-- The condition on a step: the threads send in order, each event with a buffer
    is posted, and none is when the transport is destroyed. -/
def Careful (s : Lifetime ι) : LifetimeLabel ι → Prop
  | .run l => s.transp.Orderly l ∧ s.Posts l
  | .destroy _ =>
    ∀ ev ∈ s.transp.posted, ev = channel_event_disconnected ∨ ev = channel_event_read
  | _ => True

instance (s : Lifetime ι) (ok : Bool) : DecidablePred (s.PcPosts ok) := fun p => by
  apply TransportPc.casesOn (motive := fun p => Decidable (s.PcPosts ok p)) p <;> intros <;>
    unfold PcPosts <;> infer_instance

instance (s : Lifetime ι) : DecidablePred s.Posts := fun l => by
  apply TransportLabel.casesOn (motive := fun l => Decidable (s.Posts l)) l <;> intros <;>
    unfold Posts <;> infer_instance

instance (s : Lifetime ι) : DecidablePred s.Careful := fun l => by
  cases l <;> unfold Careful <;> infer_instance

/-- The references are in their places, before the transport is destroyed and
    while it is. -/
def Sorted (s : Lifetime ι) : Prop :=
  (s.clearing = none ∧ Kept s) ∨
    ∃ i pc slots free reads, s.clearing = some (i, pc) ∧ Clearing s i pc slots free reads

theorem step_sorted {l : LifetimeLabel ι} (h : Sorted s) (hok : s.Careful l)
    (hstep : s.step l = some s') : Sorted s' := by
  rcases h with ⟨hnone, hkept⟩ | ⟨i, pc, slots, free, reads, hsome, hclearing⟩
  · cases l with
    | run l =>
      obtain ⟨hkept', hnone'⟩ := hkept.run hok.1 hok.2 hstep
      exact Or.inl ⟨hnone', hkept'⟩
    | destroy i =>
      simp only [step] at hstep
      split at hstep
      · next hidle =>
        cases hstep
        obtain ⟨slots, free, reads, hclearing⟩ := hkept.destroy (i := i) hidle.2 (by
          intro v
          apply List.count_eq_zero.mpr
          intro hmem
          rcases hok _ hmem with hev | hev
          · cases hev
          · cases hev)
        exact Or.inr ⟨i, .last, slots, free, reads, rfl, hclearing⟩
      · cases hstep
    | clear =>
      simp only [step, hnone] at hstep
      cases hstep
    | drop ev =>
      simp only [step, hnone] at hstep
      cases hstep
  · cases l with
    | run l =>
      simp only [step, hsome] at hstep
      cases hstep
    | destroy j =>
      simp only [step, hsome] at hstep
      cases hstep
    | clear =>
      simp only [step, hsome] at hstep
      replace hstep : s.clear_sendlist i pc = some s' := hstep
      cases pc with
      | last =>
        cases hstep
        exact Or.inr ⟨i, .pop .pop_load, slots, free, reads, rfl, hclearing.last⟩
      | pop op =>
        obtain ⟨pc', slots', free', reads', hsome', hclearing'⟩ := hclearing.pop hstep
        exact Or.inr ⟨i, pc', slots', free', reads', hsome', hclearing'⟩
      | done | aborted => cases hstep
    | drop ev =>
      simp only [step, hsome] at hstep
      split at hstep
      · cases hstep
        refine Or.inr ⟨i, pc, slots, free, reads, rfl, ?_⟩
        exact ⟨hclearing.queue, hclearing.popping, hclearing.slots_nodup, hclearing.referred_nodup,
          hclearing.released_nodup, hclearing.finished, hclearing.going, hclearing.place⟩
      · cases hstep

/-- Every reference that was taken is released exactly once, and no other. -/
def ReleasedOnce (s : Lifetime ι) : Prop :=
  ∀ v, s.released.count v = if v ∈ s.referred then 1 else 0

omit [Fintype ι] in
/-- Nothing is left when the destructor returns. -/
theorem Clearing.released_once (h : Clearing s i .done slots free reads) : ReleasedOnce s := by
  have hnil := h.finished rfl
  have hreads := h.reads_none rfl
  intro v
  obtain ⟨q, hq, -⟩ := h.place v
  cases q with
  | untaken =>
    rw [if_neg hq, List.count_eq_zero]
    intro hv
    have hv' : s.Left i .done slots reads v .released := hv
    cases h.place.eq hq hv'
  | released =>
    have hv : v ∈ s.referred := by
      by_contra hnot
      have hnot' : s.Left i .done slots reads v .untaken := hnot
      cases h.place.eq hq hnot'
    rw [if_pos hv]
    exact List.count_eq_one_of_mem h.released_nodup hq
  | listed =>
    rw [hnil] at hq
    cases hq
  | flying =>
    rcases hq with hq | ⟨hpc, -⟩
    · rw [hreads] at hq
      cases hq
    · cases hpc
  | posted | pushing j | calling j => exact hq.elim

/-- **References are released once.** In every run whose steps all meet the
    condition, when the destructor has returned. -/
theorem references_released {s : Lifetime ι} (h : Reachable step Careful new s) {i : ι}
    (hdone : s.clearing = some (i, .done)) : ReleasedOnce s := by
  have hsorted : Sorted s := by
    apply h.invariant (I := Sorted)
    · left
      obtain ⟨free, hledger⟩ := new_ledger (ι := ι)
      exact ⟨rfl, BaseTransport.new_sendInv, [], free, _, hledger⟩
    · intro s l s' hinv hok hstep
      exact step_sorted hinv hok hstep
  rcases hsorted with ⟨hnone, -⟩ | ⟨j, pc, slots, free, reads, hsome, hclearing⟩
  · rw [hnone] at hdone
    cases hdone
  · rw [hsome] at hdone
    cases hdone
    exact hclearing.released_once

/-- One buffer is sent and `sent_cb` called for it, half of the next is sent,
    and a third waits in the list when the transport is destroyed. -/
def three_buffers_labels : List (LifetimeLabel (Fin 2)) :=
  List.map LifetimeLabel.run
      (BaseTransport.started_labels 0 .tcp .read_mode_once true ++
        TransportLabel.send 0 10 true :: List.replicate 30 (.step 0 true 100) ++
        TransportLabel.channel_event 1 (channel_event_buffer_sent 0) ::
          TransportLabel.step 1 true 0 ::
        TransportLabel.send 0 6 true :: List.replicate 28 (.step 0 true (-1)) ++
        TransportLabel.send 1 5 true :: List.replicate 16 (.step 1 true 0)) ++
    LifetimeLabel.destroy 0 :: List.replicate 10 .clear

theorem references_released_three :
    ∃ s : Lifetime (Fin 2), exec step new three_buffers_labels = some s ∧
      s.referred = [0, 1, 2] ∧ ReleasedOnce s := by
  have hexec : (exec step new three_buffers_labels).map (fun s => (s.referred, s.clearing)) =
      some ([0, 1, 2], some (0, .done)) := by
    decide
  have hmeets : Meets step Careful (new : Lifetime (Fin 2)) three_buffers_labels := by
    decide +kernel
  obtain ⟨s, hs, heq⟩ := Option.map_eq_some_iff.mp hexec
  simp only [Prod.mk.injEq] at heq
  exact ⟨s, hs, heq.1, references_released (.of_exec hs hmeets) heq.2⟩

/-- The buffer is sent, and the transport is destroyed before the poller takes
    the event with it. -/
theorem not_references_released :
    ¬ ∀ (s : Lifetime (Fin 2)) (i : Fin 2), Reachable step AnyStep new s →
      s.clearing = some (i, .done) → s.transp.posted = [] → ReleasedOnce s := by
  intro hall
  have hexec : (exec step new
      (List.map LifetimeLabel.run
          (BaseTransport.started_labels (0 : Fin 2) .tcp .read_mode_once true ++
            TransportLabel.send 0 10 true :: List.replicate 30 (.step 0 true 100)) ++
        LifetimeLabel.destroy 0 :: List.replicate 4 .clear ++
        [LifetimeLabel.drop (channel_event_buffer_sent 0)])).map (fun s : Lifetime (Fin 2) =>
          (s.clearing, s.transp.posted, s.referred, s.released)) =
            some (some (0, .done), [], [0], []) := by
    decide
  obtain ⟨s, hs, heq⟩ := Option.map_eq_some_iff.mp hexec
  simp only [Prod.mk.injEq] at heq
  obtain ⟨hdone, hposted, hreferred, hreleased⟩ := heq
  have honce := hall s 0 (.of_exec hs (meets_anyStep _ _ _)) hdone hposted 0
  rw [hreferred, hreleased] at honce
  cases honce

end Lifetime

end Pump
