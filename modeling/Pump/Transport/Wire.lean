import Pump.Transport.Drain

/-! # What goes over the wire

    One thread sends at a time, and takes the buffers out of `sendlist_` in the
    order in which their nodes were reserved there. So the bytes of the buffers
    go to the socket in that order, each of them once and none left out. -/

namespace Pump

open TransportState ErrorCode Tracker ChannelEvent
open M2m (Op Ops Slot Turn)

/-! ## Section 1: A record of what is sent -/

/-- The bytes of a buffer from one place on, each as the buffer and its place
    there. -/
def bytes (iob start count : Nat) : List (Nat × Nat) :=
  (List.range' start count).map fun off => (iob, off)

/-- A transport with a record of the run: the sizes that the buffers had at the
    call of `send`, the buffers in the order in which their nodes in
    `sendlist_` were reserved, and what the flow has given to the socket. -/
structure Wired (ι : Type) where
  transp : BaseTransport ι
  sizes : Nat → Nat
  reserved : List Nat
  wire : List (Nat × Nat)

namespace Wired

variable {ι : Type}

def new : Wired ι :=
  { transp := .new
    sizes := fun _ => 0
    reserved := []
    wire := [] }

/-- The buffer whose node the next step of a thread reserves. -/
def reserves (s : Wired ι) (ok : Bool) : TransportPc → List Nat
  | .send_push iob op =>
    match (op.step 8 ok s.transp.sendlist).2 with
    | .goes op' => if op.reserves op' then [iob] else []
    | .returns _ => []
  | _ => []

/-- What the next step of a thread gives to the socket, of what is left of the
    buffer. -/
def writes (s : Wired ι) (n : Int) : TransportPc → List (Nat × Nat)
  | .flow_send _ =>
    match s.transp.send_iob with
    | some iob =>
      let left := s.transp.iob_size iob
      bytes iob (s.sizes iob - left) (min n.toNat left)
    | none => []
  | _ => []

variable [DecidableEq ι]

def step (k : TransportKind) (s : Wired ι) (l : TransportLabel ι) : Option (Wired ι) :=
  (s.transp.step k l).map fun transp =>
    match l with
    | .send _ size _ =>
      { s with transp := transp, sizes := Function.update s.sizes s.transp.iobs size }
    | .step i ok n =>
      { s with
        transp := transp
        reserved := s.reserved ++ s.reserves ok (s.transp.pcs i)
        wire := s.wire ++ s.writes n (s.transp.pcs i) }
    | _ => { s with transp := transp }

/-- The steps of the transport. -/
theorem step_transp {k : TransportKind} {s s' : Wired ι} {l : TransportLabel ι}
    (h : s.step k l = some s') : s.transp.step k l = some s'.transp := by
  obtain ⟨transp, htransp, rfl⟩ := Option.map_eq_some_iff.mp h
  cases l with
  | _ => exact htransp

end Wired

/-! ## Section 2: What the thread that sends knows -/

namespace BaseTransport

variable {ι : Type} {s : BaseTransport ι} {i : ι} {w : Sending} {op : Op Nat}

/-- A pop is the only one. -/
theorem SendInv.popping (h : SendInv s) (hpc : s.pcs i = .once_pop w op) :
    op.value = none ∧ op.Settled s.sendlist ∧
      (∀ j op', j ≠ i → s.ops j = some op' → op'.value ≠ none) ∧
      s.send_iob = none ∧ s.last_send_iob = found op := by
  obtain ⟨slots, free, reads, counted, flight, lost, hst, hr⟩ := h
  obtain ⟨hi, hsend, hfound, -, -⟩ := phase_at hr hpc trivial
  obtain ⟨hvalue, hsettled⟩ := hst.pops i w op hpc
  refine ⟨hvalue, hsettled, ?_, hsend, hfound⟩
  apply hst.others_push
  intro j hji w' op' hj
  apply hji
  apply hr.baton.unique j i _ hi
  rw [hj]
  trivial

theorem SendInv.pushing (h : SendInv s) {iob : Nat} (hpc : s.pcs i = .send_push iob op) :
    op.value = some iob := by
  obtain ⟨slots, free, reads, counted, flight, lost, hst, -⟩ := h
  exact hst.pushes i iob op hpc

theorem SendInv.wanting (h : SendInv s) (hpc : s.pcs i = .once_want w) :
    s.send_iob = none ∧ ∃ v, s.last_send_iob = some v := by
  obtain ⟨slots, free, reads, counted, flight, lost, -, hr⟩ := h
  obtain ⟨-, hsend, hlast, -⟩ := phase_at hr hpc trivial
  exact ⟨hsend, hlast⟩

theorem SendInv.sending (h : SendInv s) (hpc : s.pcs i = .flow_send w) :
    ∃ v, s.last_send_iob = some v ∧ s.send_iob = some v := by
  obtain ⟨slots, free, reads, counted, flight, lost, -, hr⟩ := h
  obtain ⟨-, v, hlast, hsend, -⟩ := phase_at hr hpc trivial
  exact ⟨v, hlast, hsend⟩

/-- A buffer is handled as sent when nothing of it is left. -/
theorem SendInv.handling (h : SendInv s)
    (hpc : s.pcs i = .handle_sent w ∨ s.pcs i = .handle_clear w) :
    s.send_iob = none ∧ ∃ v, s.last_send_iob = some v ∧ s.iob_size v = 0 := by
  obtain ⟨slots, free, reads, counted, flight, lost, -, hr⟩ := h
  rcases hpc with hpc | hpc
  · obtain ⟨-, hsend, hlast, -⟩ := phase_at hr hpc trivial
    exact ⟨hsend, hlast⟩
  · obtain ⟨-, hsend, hlast, -⟩ := phase_at hr hpc trivial
    exact ⟨hsend, hlast⟩

theorem SendInv.buffer_unique (h : SendInv s) {j : ι} {v : Nat} (hi : (s.pcs i).buffer = some v)
    (hj : (s.pcs j).buffer = some v) : i = j := by
  obtain ⟨slots, free, reads, counted, flight, lost, hst, -⟩ := h
  exact hst.buffer_unique i j v hi hj

theorem SendInv.buffer_lt (h : SendInv s) {v : Nat} (hi : (s.pcs i).buffer = some v) :
    v < s.iobs := by
  obtain ⟨slots, free, reads, counted, flight, lost, hst, -⟩ := h
  exact hst.buffer_lt i v hi

/-! ## Section 3: What a step does to a buffer -/

/-- What bears on the buffers that are sent is as it was. -/
structure Still (s s' : BaseTransport ι) (p p' : TransportPc) : Prop where
  sendlist : s'.sendlist = s.sendlist
  iob_size : s'.iob_size = s.iob_size
  last : s'.last_send_iob = s.last_send_iob
  send_iob : s'.send_iob = s.send_iob
  queue_op : p.queue_op = none
  quiet : ∀ w, p ≠ .flow_send w
  begins : ∀ op, p'.queue_op = some op → op = .pop_load ∨ ∃ v, op = .push_load v

/-- A thread that adds to what is sent, takes from it or leaves it alone. -/
theorem action_still (k : TransportKind) (s : BaseTransport ι) (ok : Bool) (n : Int)
    (p : TransportPc) : (∃ iob op, p = .send_push iob op) ∨ (∃ w op, p = .once_pop w op) ∨
      (∃ w, p = .flow_send w) ∨ (∃ w, p = .once_want w) ∨ (∃ w, p = .handle_clear w) ∨
        Still s (s.action k ok n p).2 p (s.action k ok n p).1 := by
  have hpost := s.post_channel_event_frame
    (P := fun s' => s'.sendlist = s.sendlist ∧ s'.iob_size = s.iob_size ∧
      s'.last_send_iob = s.last_send_iob ∧ s'.send_iob = s.send_iob)
    (fun _ => ⟨rfl, rfl, rfl, rfl⟩) ok
  rcases action_sends k s ok n p with howns | hpush | ⟨iob, rfl⟩ | ⟨w, old, size, rfl⟩ |
    ⟨hsame, haside⟩
  · cases p with
    | once_pop w op => exact .inr (.inl ⟨w, op, rfl⟩)
    | flow_send w => exact .inr (.inr (.inl ⟨w, rfl⟩))
    | once_want w => exact .inr (.inr (.inr (.inl ⟨w, rfl⟩)))
    | handle_clear w => exact .inr (.inr (.inr (.inr (.inl ⟨w, rfl⟩))))
    | once w =>
      refine .inr (.inr (.inr (.inr (.inr ⟨rfl, rfl, rfl, rfl, rfl, by simp, ?_⟩))))
      rintro op ⟨⟩
      exact Or.inl rfl
    | handle_sent w =>
      refine .inr (.inr (.inr (.inr (.inr ?_))))
      simp only [action]
      split
      · exact ⟨rfl, rfl, rfl, rfl, rfl, by simp, by simp [TransportPc.queue_op]⟩
      · split
        · obtain ⟨hlist, hsize, hlast, hsend⟩ := hpost (channel_event_buffer_sent _)
          exact ⟨hlist, hsize, hlast, hsend, rfl, by simp, by simp [TransportPc.queue_op]⟩
        · exact ⟨rfl, rfl, rfl, rfl, rfl, by simp, by simp [TransportPc.queue_op]⟩
    | once_size w | sub_size w | sub w size | event_last =>
      refine .inr (.inr (.inr (.inr (.inr ?_))))
      simp only [action]
      repeat' split
      all_goals exact ⟨rfl, rfl, rfl, rfl, rfl, by simp, by simp [TransportPc.queue_op]⟩
    | sub_compare w old size | start_tracker w =>
      refine .inr (.inr (.inr (.inr (.inr ⟨rfl, rfl, rfl, rfl, rfl, by simp, ?_⟩))))
      intro op hop
      rcases w with iob | _ | _
      all_goals
        simp only [action, send_more, send_done, send_failed] at hop
        split at hop
        all_goals cases hop
    | _ => exact howns.elim
  · exact .inl hpush
  · refine .inr (.inr (.inr (.inr (.inr ⟨rfl, rfl, rfl, rfl, rfl, by simp, ?_⟩))))
    intro op hop
    simp only [action] at hop
    split at hop
    all_goals cases hop
  · refine .inr (.inr (.inr (.inr (.inr ⟨rfl, rfl, rfl, rfl, rfl, by simp, ?_⟩))))
    intro op hop
    rcases w with iob | _ | _
    all_goals
      simp only [action, send_more, send_done] at hop
      split at hop
      all_goals cases hop
  · refine .inr (.inr (.inr (.inr (.inr ⟨hsame.sendlist, hsame.iob_size, hsame.last,
      hsame.send_iob, haside.queue_op, ?_, ?_⟩))))
    · rintro w rfl
      exact haside.not_owns trivial
    intro op hop
    cases hp : (s.action k ok n p).1 with
    | send_push iob op' =>
      rw [hp] at hop
      cases hop
      exact Or.inr ⟨iob, haside.push iob op hp⟩
    | once_pop w op' =>
      have hnot := haside.not_owns'
      rw [hp] at hnot
      exact absurd trivial hnot
    | _ =>
      rw [hp] at hop
      cases hop

/-- The thread that sends has no buffer of its own to add. -/
theorem buffer_of_owns_action (k : TransportKind) (s : BaseTransport ι) (ok : Bool) (n : Int)
    {p : TransportPc} (h : p.owns ∨ ∃ w old size, p = .sub_compare w old size) :
    (s.action k ok n p).1.buffer = none := by
  cases p with
  | once w | once_pop w op | once_size w | once_want w | flow_send w | handle_sent w
  | handle_clear w | sub_size w | sub w size | sub_compare w old size | start_tracker w =>
    rcases w with iob | _ | _
    all_goals
      simp only [action, send_failed, send_more, send_done]
      repeat' split
      all_goals rfl
  | event_last =>
    simp only [action]
    split
    · rfl
    · rfl
  | _ =>
    rcases h with h | ⟨w, old, size, h⟩
    · exact h.elim
    · cases h

theorem uncounted_of_buffer {p : TransportPc} (h : p.buffer = none) : p.uncounted = none := by
  rcases hu : p.uncounted with _ | v
  · rfl
  · rw [TransportPc.buffer_of_uncounted hu] at h
    cases h

/-- `channel_event_buffer_sent` is posted for the last buffer, as it is handled. -/
theorem sent_posted_of_action (k : TransportKind) (s : BaseTransport ι) (ok : Bool) (n : Int)
    {p : TransportPc} {v : Nat}
    (h : channel_event_buffer_sent v ∈ (s.action k ok n p).2.posted) :
    channel_event_buffer_sent v ∈ s.posted ∨
      ∃ w, p = .handle_sent w ∧ s.last_send_iob = some v := by
  have hset := s.set_state_frame (P := fun s' => s'.posted = s.posted) fun _ => rfl
  have hread := s.change_read_state_frame (P := fun s' => s'.posted = s.posted) fun _ => rfl
  have hflow := s.flow_send_frame (P := fun s' => s'.posted = s.posted) (fun _ _ => rfl) n
  have hqueue := s.sendlist_step_frame (P := fun s' => s'.posted = s.posted)
    (fun _ _ => rfl) ok
  have hpost : ∀ ev, channel_event_buffer_sent v ∈ (s.post_channel_event ok ev).posted →
      channel_event_buffer_sent v ∈ s.posted ∨ ev = channel_event_buffer_sent v := by
    intro ev hmem
    unfold post_channel_event at hmem
    split at hmem
    · rw [List.mem_append, List.mem_singleton] at hmem
      exact hmem.imp_right Eq.symm
    · exact Or.inl hmem
  cases p with
  | handle_sent w =>
    simp only [action] at h
    split at h
    · exact Or.inl h
    · next iob hlast =>
      split at h
      · rcases hpost _ h with hmem | hev
        · exact Or.inl hmem
        · cases hev
          exact Or.inr ⟨w, rfl, hlast⟩
      · exact Or.inl h
  | stop_post | send_post | read_post =>
    rcases hpost _ h with hmem | hev
    · exact Or.inl hmem
    · cases hev
  | start_state | once_size | once_want | flow_send =>
    left
    simp only [action] at h
    split at h
    all_goals
      first
      | exact h
      | rw [hset] at h
        exact h
      | rw [hflow] at h
        exact h
  | start_stages rest =>
    left
    rcases rest with _ | ⟨st, rest⟩
    · exact h
    · exact h
  | _ =>
    left
    simp only [action, hset, hread, hqueue] at h
    exact h

/-- `sent_cb` is due to a poller that has taken the event, and to nobody else. -/
theorem sent_cb_of_action (k : TransportKind) (s : BaseTransport ι) (ok : Bool) (n : Int)
    (p : TransportPc) (v : Nat) : (s.action k ok n p).1 ≠ .call (.sent_cb v) := by
  cases p with
  | start_stages rest =>
    rcases rest with _ | ⟨st, rest⟩
    · simp [action]
    · simp only [action]
      split
      · simp
      · simp
  | once_want w | flow_send w | sub_compare w old size | start_tracker w =>
    rcases w with iob | _ | _
    all_goals
      simp only [action, send_failed, send_more, send_done]
      repeat' split
      all_goals simp
  | _ =>
    simp only [action]
    repeat' split
    all_goals simp

end BaseTransport

namespace M2m.Op

/-- A push that reserves a node is at that node then. -/
theorem pushing_of_reserves {τ : Type} {op op' : Op τ} (h : op.reserves op' = true) :
    op'.pushing.isSome := by
  unfold reserves at h
  split at h
  · rfl
  · rfl
  · cases h

/-- A push that returns has had its node. -/
theorem pushing_of_returns {τ : Type} {N : Nat} {created : Bool} {q : Nodes τ} {op : Op τ} {v : τ}
    {res : Result τ} (hv : op.value = some v) (h : (op.step N created q).2 = .returns res) :
    op.pushing.isSome := by
  cases op with
  | push_ready => rfl
  | push_head v node =>
    rcases node with _ | node
    all_goals cases h
  | push_next | push_exchange | extend_lock | extend_create | push_wait =>
    simp only [step] at h
    split at h
    all_goals cases h
  | pop_load | pop_next | pop_check | pop_exchange | pop_data | pop_ready => cases hv
  | _ => cases h

end M2m.Op

namespace Wired

variable {ι : Type} {k : TransportKind} {s : Wired ι} {p : TransportPc}

theorem reserves_of_queue_op (ok : Bool) (h : p.queue_op = none) : s.reserves ok p = [] := by
  cases p with
  | send_push iob op => cases h
  | _ => rfl

/-- A push goes on: it has its node from this step on, or as before. -/
theorem reserves_goes {ok : Bool} (iob : Nat) {op op' : Op Nat}
    (h : (op.step 8 ok s.transp.sendlist).2 = .goes op') :
    (s.reserves ok (.send_push iob op) = [iob] ∧ op'.pushing.isSome) ∨
      (s.reserves ok (.send_push iob op) = [] ∧ op'.pushing = op.pushing) := by
  unfold reserves
  simp only [h]
  split
  · next hreserves => exact Or.inl ⟨rfl, M2m.Op.pushing_of_reserves hreserves⟩
  · next hreserves =>
    rw [M2m.Op.reserves_iff h, not_not] at hreserves
    exact Or.inr ⟨rfl, hreserves⟩

/-- A buffer that waits for its node was waiting, and gets none in this step. -/
theorem waiting_of_action (ok : Bool) (n : Int) {v : Nat}
    (h : (s.transp.action k ok n p).1.buffer = some v)
    (hne : (s.transp.action k ok n p).1.uncounted ≠ some v) :
    p.buffer = some v ∧ p.uncounted ≠ some v ∧ v ∉ s.reserves ok p := by
  rcases BaseTransport.action_sends k s.transp ok n p with howns | ⟨iob, op, rfl⟩ | ⟨iob, rfl⟩ |
    ⟨w, old, size, rfl⟩ | ⟨-, haside⟩
  · rw [BaseTransport.buffer_of_owns_action k s.transp ok n (Or.inl howns)] at h
    cases h
  · obtain ⟨hturn, -⟩ := s.transp.sendlist_step_spec ok op
    simp only [BaseTransport.action, hturn] at h hne
    rcases hgoes : (op.step 8 ok s.transp.sendlist).2 with op' | res
    · simp only [hgoes] at h hne
      cases h
      have hnone : op'.pushing = none := by
        rw [← Option.not_isSome_iff_eq_none]
        intro hsome
        apply hne
        simp [TransportPc.uncounted, hsome]
      rcases reserves_goes v hgoes with ⟨-, hsome⟩ | ⟨hreserves, hsame⟩
      · rw [hnone] at hsome
        cases hsome
      · rw [hsame] at hnone
        refine ⟨rfl, ?_, ?_⟩
        · simp [TransportPc.uncounted, hnone]
        · rw [hreserves]
          exact List.not_mem_nil
    · simp only [hgoes] at h hne
      exact absurd h hne
  · simp only [BaseTransport.action] at h
    split at h
    all_goals cases h
  · rw [BaseTransport.buffer_of_owns_action k s.transp ok n (Or.inr ⟨w, old, size, rfl⟩)] at h
    cases h
  · refine ⟨haside.buffer v h, ?_, ?_⟩
    · rw [← haside.uncounted]
      exact hne
    · rw [reserves_of_queue_op ok haside.queue_op]
      exact List.not_mem_nil

/-- A buffer that is in the list or counted was so before, or gets its node in
    this step. -/
theorem entered_of_action (ok : Bool) (n : Int) {v : Nat}
    (hvalue : ∀ iob op, p = .send_push iob op → op.value = some iob)
    (h : (s.transp.action k ok n p).1.uncounted = some v ∨
      (s.transp.action k ok n p).1.taken = some v) :
    p.uncounted = some v ∨ p.taken = some v ∨ v ∈ s.reserves ok p := by
  have howner : p.owns ∨ (∃ w old size, p = .sub_compare w old size) → ¬ p.adds →
      p.uncounted = some v ∨ p.taken = some v ∨ v ∈ s.reserves ok p := by
    intro howns hadds
    rcases h with h | h
    · rw [BaseTransport.uncounted_of_buffer
        (BaseTransport.buffer_of_owns_action k s.transp ok n howns)] at h
      cases h
    · rcases BaseTransport.taken_of_action s.transp ok n h with htaken | hadds'
      · exact Or.inr (Or.inl htaken)
      · exact absurd hadds' hadds
  rcases BaseTransport.action_sends k s.transp ok n p with howns | ⟨iob, op, rfl⟩ | ⟨iob, rfl⟩ |
    ⟨w, old, size, rfl⟩ | ⟨-, haside⟩
  · apply howner (Or.inl howns)
    intro hadds
    cases p with
    | send_create | send_push | send_add => exact howns
    | _ => exact hadds
  · obtain ⟨hturn, -⟩ := s.transp.sendlist_step_spec ok op
    simp only [BaseTransport.action, hturn] at h
    rcases hgoes : (op.step 8 ok s.transp.sendlist).2 with op' | res
    · simp only [hgoes] at h
      rcases h with h | h
      · simp only [TransportPc.uncounted] at h
        split at h
        · next hsome =>
          cases h
          rcases reserves_goes v hgoes with ⟨hreserves, -⟩ | ⟨-, hsame⟩
          · right
            right
            rw [hreserves]
            exact List.mem_singleton_self v
          · left
            rw [hsame] at hsome
            simp [TransportPc.uncounted, hsome]
        · cases h
      · cases h
    · simp only [hgoes] at h
      rcases h with h | h
      · left
        cases h
        simp [TransportPc.uncounted, M2m.Op.pushing_of_returns (hvalue v op rfl) hgoes]
      · cases h
  · left
    simp only [BaseTransport.action] at h
    split at h
    all_goals
      rcases h with h | h
      · cases h
      · exact h
  · exact howner (Or.inr ⟨w, old, size, rfl⟩) id
  · rcases h with h | h
    · left
      rw [← haside.uncounted]
      exact h
    · exact Or.inr (Or.inl (haside.taken v h))

/-! ## Section 4: What is on the wire -/

theorem bytes_append (iob start count more : Nat) :
    bytes iob start count ++ bytes iob (start + count) more = bytes iob start (count + more) := by
  unfold bytes
  rw [← List.map_append]
  have hrange := List.range'_append_1 (s := start) (m := count) (n := more)
  rw [hrange]

theorem mem_bytes {iob start count v off : Nat} :
    (v, off) ∈ bytes iob start count ↔ v = iob ∧ start ≤ off ∧ off < start + count := by
  unfold bytes
  rw [List.mem_map]
  constructor
  · rintro ⟨x, hx, heq⟩
    cases heq
    exact ⟨rfl, List.mem_range'_1.mp hx⟩
  · rintro ⟨rfl, hoff⟩
    exact ⟨off, List.mem_range'_1.mpr hoff, rfl⟩

/-- Of the buffers that were `popped`, all but the last are on the wire, and of
    the last is what is not left of it. -/
structure Written (s : Wired ι) (reads : ι → Option Nat) (popped : List Nat) : Prop where
  unsent : ∀ v, v ∉ popped → s.transp.iob_size v = s.sizes v
  shrunk : ∀ v, s.transp.iob_size v ≤ s.sizes v
  last : ∀ v, s.transp.InFlight reads v → popped.getLast? = some v
  finished : ∀ v ∈ popped, s.transp.iob_size v = 0 ∨ s.transp.InFlight reads v
  wire : s.wire = popped.flatMap fun v => bytes v 0 (s.sizes v - s.transp.iob_size v)

namespace Written

variable {s' : Wired ι} {reads reads' : ι → Option Nat} {popped : List Nat} {v : Nat}

/-- Nothing is sent. A buffer may be let go when nothing of it is left. -/
theorem congr (h : s.Written reads popped) (hsize : s'.transp.iob_size = s.transp.iob_size)
    (hsizes : s'.sizes = s.sizes) (hwire : s'.wire = s.wire)
    (hdown : ∀ v, s'.transp.InFlight reads' v → s.transp.InFlight reads v)
    (hup : ∀ v, s.transp.InFlight reads v →
      s'.transp.InFlight reads' v ∨ s.transp.iob_size v = 0) : s'.Written reads' popped := by
  refine ⟨?_, ?_, ?_, ?_, ?_⟩
  · rw [hsize, hsizes]
    exact h.unsent
  · rw [hsize, hsizes]
    exact h.shrunk
  · exact fun v hv => h.last v (hdown v hv)
  · intro v hv
    rw [hsize]
    rcases h.finished v hv with hzero | hin
    · exact Or.inl hzero
    · exact (hup v hin).symm
  · rw [hwire, hsize, hsizes]
    exact h.wire

/-- A buffer is popped, while none is in flight. -/
theorem take (h : s.Written reads popped) (hsize : s'.transp.iob_size = s.transp.iob_size)
    (hsizes : s'.sizes = s.sizes) (hwire : s'.wire = s.wire) (hv : v ∉ popped)
    (hnone : ∀ u, ¬ s.transp.InFlight reads u)
    (hin : ∀ u, s'.transp.InFlight reads' u ↔ u = v) : s'.Written reads' (popped ++ [v]) := by
  refine ⟨?_, ?_, ?_, ?_, ?_⟩
  · intro u hu
    rw [hsize, hsizes]
    exact h.unsent u fun hmem => hu (List.mem_append_left _ hmem)
  · rw [hsize, hsizes]
    exact h.shrunk
  · intro u hu
    rw [(hin u).mp hu]
    exact List.getLast?_concat
  · intro u hu
    rw [hsize]
    rcases List.mem_append.mp hu with hu | hu
    · rcases h.finished u hu with hzero | hflight
      · exact Or.inl hzero
      · exact absurd hflight (hnone u)
    · exact Or.inr ((hin u).mpr (List.mem_singleton.mp hu))
  · -- nothing of it is on the wire
    rw [hwire, hsize, hsizes, h.wire, List.flatMap_append, List.flatMap_singleton, h.unsent v hv,
      Nat.sub_self]
    exact (List.append_nil _).symm

/-- A part of the buffer in flight is sent. -/
theorem send (h : s.Written reads popped) (hnodup : popped.Nodup) (count : Nat)
    (hlast : s.transp.last_send_iob = some v)
    (hdown : ∀ u, s'.transp.InFlight reads u → s.transp.InFlight reads u)
    (hup : ∀ u, s.transp.InFlight reads u → s'.transp.InFlight reads u)
    (hsize : s'.transp.iob_size =
      Function.update s.transp.iob_size v (s.transp.iob_size v - count))
    (hsizes : s'.sizes = s.sizes)
    (hwire : s'.wire = s.wire ++ bytes v (s.sizes v - s.transp.iob_size v)
      (min count (s.transp.iob_size v))) : s'.Written reads popped := by
  obtain ⟨before, hpopped⟩ := List.getLast?_eq_some_iff.mp (h.last v (Or.inl hlast))
  have hle := h.shrunk v
  have hself : s'.transp.iob_size v = s.transp.iob_size v - count := by
    rw [hsize, Function.update_self]
  have hother : ∀ u, u ≠ v → s'.transp.iob_size u = s.transp.iob_size u := by
    intro u hu
    rw [hsize, Function.update_of_ne hu]
  refine ⟨?_, ?_, ?_, ?_, ?_⟩
  · intro u hu
    have hne : u ≠ v := by
      rintro rfl
      apply hu
      rw [hpopped]
      exact List.mem_append_right _ (List.mem_singleton_self u)
    rw [hsizes, hother u hne]
    exact h.unsent u hu
  · intro u
    rw [hsizes]
    by_cases hu : u = v
    · subst hu
      rw [hself]
      omega
    · rw [hother u hu]
      exact h.shrunk u
  · exact fun u hu => h.last u (hdown u hu)
  · intro u hu
    by_cases huv : u = v
    · subst huv
      exact Or.inr (hup u (Or.inl hlast))
    · rw [hother u huv]
      exact (h.finished u hu).imp_right (hup u)
  · -- what is sent follows what was sent of the same buffer
    have hbefore : before.flatMap (fun u => bytes u 0 (s'.sizes u - s'.transp.iob_size u)) =
        before.flatMap (fun u => bytes u 0 (s.sizes u - s.transp.iob_size u)) := by
      apply List.flatMap_congr
      intro u hu
      have hne : u ≠ v := by
        rintro rfl
        rw [hpopped, List.nodup_append] at hnodup
        exact hnodup.2.2 u hu u (List.mem_singleton_self u) rfl
      rw [hsizes, hother u hne]
    have hcount : s.sizes v - (s.transp.iob_size v - count) =
        s.sizes v - s.transp.iob_size v + min count (s.transp.iob_size v) := by omega
    have hpart := bytes_append v 0 (s.sizes v - s.transp.iob_size v)
      (min count (s.transp.iob_size v))
    rw [Nat.zero_add] at hpart
    rw [hwire, h.wire, hpopped, List.flatMap_append, List.flatMap_append, List.flatMap_singleton,
      List.flatMap_singleton, hbefore, hself, hsizes, hcount, List.append_assoc, hpart]

/-- What is on the wire is a first part of what is popped, and all of a buffer
    that nothing is left of. -/
theorem first_part (h : s.Written reads popped) (hnodup : popped.Nodup) :
    s.wire <+: popped.flatMap fun v => bytes v 0 (s.sizes v) := by
  rw [h.wire]
  rcases popped.eq_nil_or_concat with hnil | ⟨before, v, hpopped⟩
  · rw [hnil]
    exact List.prefix_refl _
  · have hbefore : before.flatMap (fun u => bytes u 0 (s.sizes u - s.transp.iob_size u)) =
        before.flatMap (fun u => bytes u 0 (s.sizes u)) := by
      apply List.flatMap_congr
      intro u hu
      have hmem : u ∈ popped := by
        rw [hpopped, List.concat_eq_append]
        exact List.mem_append_left _ hu
      rcases h.finished u hmem with hzero | hin
      · rw [hzero, Nat.sub_zero]
      · -- the one in flight is the last one
        have hu' := h.last u hin
        rw [hpopped, List.concat_eq_append, List.getLast?_concat] at hu'
        cases hu'
        rw [hpopped, List.concat_eq_append, List.nodup_append] at hnodup
        exact absurd rfl (hnodup.2.2 v hu v (List.mem_singleton_self v))
    have hpart := bytes_append v 0 (s.sizes v - s.transp.iob_size v) (s.transp.iob_size v)
    rw [Nat.zero_add, Nat.sub_add_cancel (h.shrunk v)] at hpart
    rw [hpopped, List.concat_eq_append, List.flatMap_append, List.flatMap_append,
      List.flatMap_singleton, List.flatMap_singleton, hbefore, ← hpart, ← List.append_assoc]
    exact List.prefix_append _ _

theorem mem_wire (h : s.Written reads popped) {off : Nat} (hzero : s.transp.iob_size v = 0)
    (hoff : off < s.sizes v) : (v, off) ∈ s.wire := by
  have hv : v ∈ popped := by
    by_contra hv
    have hsize := h.unsent v hv
    omega
  rw [h.wire, List.mem_flatMap]
  refine ⟨v, hv, mem_bytes.mpr ⟨rfl, Nat.zero_le off, ?_⟩⟩
  omega

end Written

/-! ## Section 5: The line of the buffers -/

/-- The buffers are in one line: those that were popped, on the wire, and those
    in the list. -/
def InLine (s : Wired ι) : Prop :=
  ∃ slots free reads popped, M2m.Inv 8 s.transp.sendlist s.transp.ops slots free reads ∧
    s.reserved = popped ++ slots.map Slot.value ∧ s.Written reads popped

theorem inLine_new : InLine (new : Wired ι) := by
  obtain ⟨free, hinv⟩ := M2m.init_list_inv (τ := Nat) (ι := ι) (N := 8) (by decide) 32
  refine ⟨[], free, _, [], hinv, rfl, fun v _ => rfl, fun v => le_refl _, ?_, ?_, rfl⟩
  · rintro v (hv | hv | ⟨i, hv⟩)
    all_goals cases hv
  · intro v hv
    cases hv

section

variable [DecidableEq ι] {s' : Wired ι} {i : ι}

/-- A thread enters an operation on the list, or does nothing with it. -/
theorem queue_still {slots : List (Slot Nat)} {free : List Nat} {reads : ι → Option Nat}
    (h : M2m.Inv 8 s.transp.sendlist s.transp.ops slots free reads)
    (hpcs : s'.transp.pcs = Function.update s.transp.pcs i p)
    (hlist : s'.transp.sendlist = s.transp.sendlist) (hold : (s.transp.pcs i).queue_op = none)
    (hnew : ∀ op, p.queue_op = some op → op = .pop_load ∨ ∃ v, op = .push_load v) :
    M2m.Inv 8 s'.transp.sendlist s'.transp.ops slots free reads := by
  rw [hlist, BaseTransport.Stock.ops_of_pcs hpcs]
  rcases hop : p.queue_op with _ | op
  · rw [← hold, show Function.update s.transp.ops i (s.transp.pcs i).queue_op = s.transp.ops from
      Function.update_eq_self i s.transp.ops]
    exact h
  · exact h.begin hold (hnew op hop)

/-- Nothing is reserved, popped or sent. A buffer may be let go when nothing of
    it is left. -/
theorem InLine.aside (h : s.InLine) (hpcs : s'.transp.pcs = Function.update s.transp.pcs i p)
    (hlist : s'.transp.sendlist = s.transp.sendlist) (hold : (s.transp.pcs i).queue_op = none)
    (hnew : ∀ op, p.queue_op = some op → op = .pop_load ∨ ∃ v, op = .push_load v)
    (hsize : s'.transp.iob_size = s.transp.iob_size) (hsizes : s'.sizes = s.sizes)
    (hreserved : s'.reserved = s.reserved) (hwire : s'.wire = s.wire)
    (hdown : ∀ reads v, s'.transp.InFlight reads v → s.transp.InFlight reads v)
    (hup : ∀ reads v, s.transp.InFlight reads v →
      s'.transp.InFlight reads v ∨ s.transp.iob_size v = 0) : s'.InLine := by
  obtain ⟨slots, free, reads, popped, hinv, hline, hw⟩ := h
  refine ⟨slots, free, reads, popped, queue_still hinv hpcs hlist hold hnew, ?_, ?_⟩
  · rw [hreserved]
    exact hline
  · exact hw.congr hsize hsizes hwire (hdown reads) (hup reads)

theorem inFlight_congr (hlast : s'.transp.last_send_iob = s.transp.last_send_iob)
    (hsend : s'.transp.send_iob = s.transp.send_iob) (reads : ι → Option Nat) (v : Nat) :
    s'.transp.InFlight reads v ↔ s.transp.InFlight reads v := by
  unfold BaseTransport.InFlight
  rw [hlast, hsend]

/-- A step of a push. -/
theorem InLine.push (h : s.InLine) (hsend : s.transp.SendInv) {iob : Nat} {op : Op Nat} {ok : Bool}
    (hpc : s.transp.pcs i = .send_push iob op) (hfresh : op.Fresh s.transp.sendlist s.transp.ops)
    (hpcs : s'.transp.pcs = Function.update s.transp.pcs i p)
    (hop : p.queue_op = (op.step 8 ok s.transp.sendlist).2.op)
    (hlist : s'.transp.sendlist = (op.step 8 ok s.transp.sendlist).1)
    (hlast : s'.transp.last_send_iob = s.transp.last_send_iob)
    (hsend' : s'.transp.send_iob = s.transp.send_iob)
    (hsize : s'.transp.iob_size = s.transp.iob_size) (hsizes : s'.sizes = s.sizes)
    (hreserved : s'.reserved = s.reserved ++ s.reserves ok (.send_push iob op))
    (hwire : s'.wire = s.wire) : s'.InLine := by
  obtain ⟨slots, free, reads, popped, hinv, hline, hw⟩ := h
  have hvalue := hsend.pushing hpc
  have hopi : s.transp.ops i = some op := by
    unfold BaseTransport.ops
    rw [hpc]
    rfl
  obtain ⟨slots', free', hinv', hcases⟩ := hinv.push_step hopi hvalue hfresh ok
  refine ⟨slots', free', reads, popped, ?_, ?_, ?_⟩
  · rw [hlist, BaseTransport.Stock.ops_of_pcs hpcs, hop]
    exact hinv'
  · rw [hreserved, hline, List.append_assoc]
    congr 1
    unfold reserves
    rcases hcases with ⟨op', hturn, -, hps, rfl⟩ | ⟨op', node, hturn, -, hps, hps', rfl⟩ |
      ⟨hturn, -, hsame⟩
    · have hno : ¬ op.reserves op' = true := by
        rw [M2m.Op.reserves_iff hturn, not_not]
        exact hps
      simp only [hturn, if_neg hno]
      exact List.append_nil _
    · have hyes : op.reserves op' = true := by
        rw [M2m.Op.reserves_iff hturn, hps, hps']
        exact Option.some_ne_none _
      simp only [hturn, if_pos hyes]
      rw [List.map_append]
      rfl
    · simp only [hturn, hsame]
      exact List.append_nil _
  · have hflight := inFlight_congr hlast hsend' reads
    exact hw.congr hsize hsizes hwire (fun v => (hflight v).mp)
      fun v hv => Or.inl ((hflight v).mpr hv)

omit [DecidableEq ι] in
/-- Beside the only pop nobody reads an element. -/
theorem reads_of_others {slots : List (Slot Nat)} {free : List Nat} {reads : ι → Option Nat}
    {j : ι} (h : M2m.Inv 8 s.transp.sendlist s.transp.ops slots free reads)
    (hothers : ∀ j op', j ≠ i → s.transp.ops j = some op' → op'.value ≠ none) (hji : j ≠ i) :
    reads j = none := by
  apply h.core.not_taken
  show M2m.reading (s.transp.ops j) = none
  rcases hop : s.transp.ops j with _ | op
  · rfl
  · have hvalue := hothers j op hji hop
    cases op with
    | pop_load | pop_next | pop_check | pop_exchange | pop_data | pop_ready =>
      exact absurd rfl hvalue
    | _ => rfl

/-- A step of the pop. -/
theorem InLine.pop (h : s.InLine) (hsend : s.transp.SendInv) (hnodup : s.reserved.Nodup)
    {w : Sending} {op : Op Nat} {ok : Bool} (hpc : s.transp.pcs i = .once_pop w op)
    (hpcs : s'.transp.pcs = Function.update s.transp.pcs i p)
    (hop : p.queue_op = (op.step 8 ok s.transp.sendlist).2.op)
    (hlist : s'.transp.sendlist = (op.step 8 ok s.transp.sendlist).1)
    (hlast : (∃ node, op = .pop_data node ∧
        s'.transp.last_send_iob = s.transp.sendlist.data node) ∨
      ((∀ node, op ≠ .pop_data node) ∧ s'.transp.last_send_iob = s.transp.last_send_iob))
    (hsend' : s'.transp.send_iob = s.transp.send_iob)
    (hsize : s'.transp.iob_size = s.transp.iob_size) (hsizes : s'.sizes = s.sizes)
    (hreserved : s'.reserved = s.reserved) (hwire : s'.wire = s.wire) : s'.InLine := by
  obtain ⟨slots, free, reads, popped, hinv, hline, hw⟩ := h
  obtain ⟨hvalue, hsettled, hothers, hnosend, hfound⟩ := hsend.popping hpc
  have hopi : s.transp.ops i = some op := by
    unfold BaseTransport.ops
    rw [hpc]
    rfl
  have hreads := fun j (hji : j ≠ i) => reads_of_others hinv hothers hji
  obtain ⟨slots', free', reads', hinv', hcases⟩ := hinv.pop_step hopi hvalue hsettled hothers ok
  have hinv₁ : M2m.Inv 8 s'.transp.sendlist s'.transp.ops slots' free' reads' := by
    rw [hlist, BaseTransport.Stock.ops_of_pcs hpcs, hop]
    exact hinv'
  -- what is in flight is what the pop has read
  have hin : ∀ v, s.transp.InFlight reads v ↔ BaseTransport.found op = some v ∨ reads i = some v := by
    intro v
    unfold BaseTransport.InFlight
    rw [hnosend, hfound]
    constructor
    · rintro (hv | hv | ⟨j, hv⟩)
      · exact Or.inl hv
      · cases hv
      · by_cases hji : j = i
        · exact Or.inr (hji ▸ hv)
        · rw [hreads j hji] at hv
          cases hv
    · rintro (hv | hv)
      · exact Or.inl hv
      · exact Or.inr (Or.inr ⟨i, hv⟩)
  have hin' : ∀ v, s'.transp.InFlight reads' v ↔
      s'.transp.last_send_iob = some v ∨ ∃ j, reads' j = some v := by
    intro v
    unfold BaseTransport.InFlight
    rw [hsend', hnosend]
    simp
  rcases hcases with ⟨op', hturn, -, -, -, rfl, rfl⟩ |
    ⟨tail, node, v, rfl, -, rfl, rfl⟩ | ⟨node, v, rfl, -, hread, rfl, rfl⟩ |
    ⟨tail, node, rfl, -, -, rfl, rfl⟩
  · -- the pop goes on
    refine ⟨slots', free', reads', popped, hinv₁, hreserved.trans hline, ?_⟩
    rcases hlast with ⟨node, rfl, hdata⟩ | ⟨-, hsame⟩
    · -- the element goes into `last_send_iob_`, and it is read still
      obtain ⟨-, -, v, hread, hvalue'⟩ := hinv.core.taken i node (by
        show M2m.reading (s.transp.ops i) = some node
        rw [hopi]
        rfl)
      have hiff : ∀ u, s'.transp.InFlight reads' u ↔ s.transp.InFlight reads' u := by
        intro u
        rw [hin, hin', hdata, hvalue', hread]
        constructor
        · rintro (hu | ⟨j, hu⟩)
          · exact Or.inr hu
          · by_cases hji : j = i
            · rw [hji, hread] at hu
              exact Or.inr hu
            · rw [hreads j hji] at hu
              cases hu
        · rintro (hu | hu)
          · cases hu
          · exact Or.inl hu
      exact hw.congr hsize hsizes hwire (fun u => (hiff u).mp) fun u hu => Or.inl ((hiff u).mpr hu)
    · have hiff := inFlight_congr hsame hsend' reads'
      exact hw.congr hsize hsizes hwire (fun u => (hiff u).mp) fun u hu => Or.inl ((hiff u).mpr hu)
  · -- it takes the first of the list
    have hnone : reads i = none := by
      apply hinv.core.not_taken
      show M2m.reading (s.transp.ops i) = none
      rw [hopi]
      rfl
    have hlast' : s'.transp.last_send_iob = none := by
      rcases hlast with ⟨node', hop', -⟩ | ⟨-, hsame⟩
      · cases hop'
      · rw [hsame, hfound]
        rfl
    have hv : v ∉ popped := by
      rw [hline, List.map_cons, List.nodup_append] at hnodup
      intro hmem
      exact hnodup.2.2 v hmem v List.mem_cons_self rfl
    refine ⟨slots', free', _, popped ++ [v], hinv₁, ?_, ?_⟩
    · rw [hreserved, hline, List.append_assoc]
      rfl
    · apply hw.take hsize hsizes hwire hv
      · intro u hu
        rcases (hin u).mp hu with hu | hu
        · cases hu
        · rw [hnone] at hu
          cases hu
      · intro u
        rw [hin', hlast']
        constructor
        · rintro (hu | ⟨j, hu⟩)
          · cases hu
          · rcases M2m.update_some hu with ⟨-, hu⟩ | ⟨hji, hu⟩
            · cases hu
              rfl
            · rw [hreads j hji] at hu
              cases hu
        · rintro rfl
          exact Or.inr ⟨i, Function.update_self i (some u) reads⟩
  · -- it returns the element
    have hlast' : s'.transp.last_send_iob = some v := by
      rcases hlast with ⟨node', hop', -⟩ | ⟨-, hsame⟩
      · cases hop'
      · rw [hsame, hfound]
        rfl
    refine ⟨slots', free', _, popped, hinv₁, hreserved.trans hline, ?_⟩
    apply hw.congr hsize hsizes hwire
    · intro u hu
      rw [hin]
      rcases (hin' u).mp hu with hu | ⟨j, hu⟩
      · rw [hlast'] at hu
        exact Or.inl hu
      · rcases M2m.update_some hu with ⟨-, hu⟩ | ⟨hji, hu⟩
        · cases hu
        · rw [hreads j hji] at hu
          cases hu
    · intro u hu
      left
      rw [hin', hlast']
      rcases (hin u).mp hu with hu | hu
      · exact Or.inl hu
      · rw [hread] at hu
        exact Or.inl hu
  · have hsame : s'.transp.last_send_iob = s.transp.last_send_iob := by
      rcases hlast with ⟨node', hop', -⟩ | ⟨-, hsame⟩
      · cases hop'
      · exact hsame
    refine ⟨slots', free', reads', popped, hinv₁, hreserved.trans hline, ?_⟩
    have hiff := inFlight_congr hsame hsend' reads'
    exact hw.congr hsize hsizes hwire (fun u => (hiff u).mp) fun u hu => Or.inl ((hiff u).mpr hu)

/-- The flow sends. -/
theorem InLine.flow_send (h : s.InLine) (hnodup : s.reserved.Nodup) {w : Sending} {v : Nat}
    (n : Int) (hpc : s.transp.pcs i = .flow_send w) (hlast : s.transp.last_send_iob = some v)
    (hsend : s.transp.send_iob = some v) (hp : p.queue_op = none)
    (hpcs : s'.transp.pcs = Function.update s.transp.pcs i p)
    (hflow : ∃ send_iob, (send_iob = some v ∨ send_iob = none) ∧
      s'.transp.sendlist = s.transp.sendlist ∧ s'.transp.last_send_iob = some v ∧
      s'.transp.send_iob = send_iob ∧ s'.transp.iob_size =
        Function.update s.transp.iob_size v (s.transp.iob_size v - n.toNat))
    (hsizes : s'.sizes = s.sizes) (hreserved : s'.reserved = s.reserved)
    (hwire : s'.wire = s.wire ++ s.writes n (.flow_send w)) : s'.InLine := by
  obtain ⟨slots, free, reads, popped, hinv, hline, hw⟩ := h
  obtain ⟨send_iob, hsend_iob, hlist, hlast', hsend', hsize⟩ := hflow
  have hold : (s.transp.pcs i).queue_op = none := by
    rw [hpc]
    rfl
  have hnew : ∀ op, p.queue_op = some op → op = .pop_load ∨ ∃ v, op = .push_load v := by
    intro op hop
    rw [hp] at hop
    cases hop
  refine ⟨slots, free, reads, popped, queue_still hinv hpcs hlist hold hnew, ?_, ?_⟩
  · rw [hreserved]
    exact hline
  · have hpopped : popped.Nodup := by
      rw [hline, List.nodup_append] at hnodup
      exact hnodup.1
    apply hw.send hpopped n.toNat hlast
    · intro u hu
      unfold BaseTransport.InFlight at hu ⊢
      rw [hlast', hsend'] at hu
      rw [hlast, hsend]
      rcases hu with hu | hu | hu
      · exact Or.inl hu
      · rcases hsend_iob with rfl | rfl
        · exact Or.inl hu
        · cases hu
      · exact Or.inr (Or.inr hu)
    · intro u hu
      unfold BaseTransport.InFlight at hu ⊢
      rw [hlast, hsend] at hu
      rw [hlast']
      rcases hu with hu | hu | hu
      · exact Or.inl hu
      · exact Or.inl hu
      · exact Or.inr (Or.inr hu)
    · exact hsize
    · exact hsizes
    · rw [hwire]
      unfold writes
      simp only [hsend]

/-- A buffer is created. -/
theorem InLine.create (h : s.InLine) (hlt : ∀ v ∈ s.reserved, v < s.transp.iobs) (size : Nat)
    (hidle : s.transp.pcs i = .idle) (hp : p.queue_op = none)
    (hpcs : s'.transp.pcs = Function.update s.transp.pcs i p)
    (hlist : s'.transp.sendlist = s.transp.sendlist)
    (hlast : s'.transp.last_send_iob = s.transp.last_send_iob)
    (hsend : s'.transp.send_iob = s.transp.send_iob)
    (hsize : s'.transp.iob_size = Function.update s.transp.iob_size s.transp.iobs size)
    (hsizes : s'.sizes = Function.update s.sizes s.transp.iobs size)
    (hreserved : s'.reserved = s.reserved) (hwire : s'.wire = s.wire) : s'.InLine := by
  obtain ⟨slots, free, reads, popped, hinv, hline, hw⟩ := h
  have hold : (s.transp.pcs i).queue_op = none := by
    rw [hidle]
    rfl
  have hnew : ∀ op, p.queue_op = some op → op = .pop_load ∨ ∃ v, op = .push_load v := by
    intro op hop
    rw [hp] at hop
    cases hop
  have hflight := inFlight_congr hlast hsend reads
  -- the new number is none of those that were popped
  have hold' : ∀ v ∈ popped, v ≠ s.transp.iobs := by
    rintro v hv rfl
    have hlt' := hlt s.transp.iobs (by
      rw [hline]
      exact List.mem_append_left _ hv)
    exact lt_irrefl _ hlt'
  refine ⟨slots, free, reads, popped, queue_still hinv hpcs hlist hold hnew, ?_, ?_, ?_, ?_, ?_, ?_⟩
  · rw [hreserved]
    exact hline
  · intro v hv
    rw [hsize, hsizes]
    by_cases hvi : v = s.transp.iobs
    · rw [hvi, Function.update_self, Function.update_self]
    · rw [Function.update_of_ne hvi, Function.update_of_ne hvi]
      exact hw.unsent v hv
  · intro v
    rw [hsize, hsizes]
    by_cases hvi : v = s.transp.iobs
    · rw [hvi, Function.update_self, Function.update_self]
    · rw [Function.update_of_ne hvi, Function.update_of_ne hvi]
      exact hw.shrunk v
  · exact fun v hv => hw.last v ((hflight v).mp hv)
  · intro v hv
    rw [hsize, Function.update_of_ne (hold' v hv), hflight]
    exact hw.finished v hv
  · rw [hwire, hw.wire]
    apply List.flatMap_congr
    intro v hv
    rw [hsize, hsizes, Function.update_of_ne (hold' v hv), Function.update_of_ne (hold' v hv)]

omit [DecidableEq ι] in
theorem writes_of_quiet (n : Int) (h : ∀ w, p ≠ .flow_send w) : s.writes n p = [] := by
  cases p with
  | flow_send w => exact absurd rfl (h w)
  | _ => rfl

/-- **Step lemma for the threads.** -/
theorem InLine.action (h : s.InLine) (hsend : s.transp.SendInv) (hnodup : s.reserved.Nodup)
    (hok : s.transp.PcOrderly (s.transp.pcs i)) (ok : Bool) (n : Int) :
    ({ s with
      transp := (s.transp.action k ok n (s.transp.pcs i)).2.goto i
        (s.transp.action k ok n (s.transp.pcs i)).1
      reserved := s.reserved ++ s.reserves ok (s.transp.pcs i)
      wire := s.wire ++ s.writes n (s.transp.pcs i) } : Wired ι).InLine := by
  have hpcs : ((s.transp.action k ok n (s.transp.pcs i)).2.goto i
      (s.transp.action k ok n (s.transp.pcs i)).1).pcs =
        Function.update s.transp.pcs i (s.transp.action k ok n (s.transp.pcs i)).1 := by
    show Function.update (s.transp.action k ok n (s.transp.pcs i)).2.pcs i _ = _
    rw [(BaseTransport.action_recorded k s.transp ok n (s.transp.pcs i)).pcs]
  rcases BaseTransport.action_still k s.transp ok n (s.transp.pcs i) with ⟨iob, op, hpc⟩ |
    ⟨w, op, hpc⟩ | ⟨w, hpc⟩ | ⟨w, hpc⟩ | ⟨w, hpc⟩ | hstill
  · obtain ⟨hturn, last, hstate, hlast⟩ := s.transp.sendlist_step_spec ok op
    have hvalue := hsend.pushing hpc
    rw [hpc] at hok hpcs ⊢
    simp only [BaseTransport.action, hturn, hstate] at hpcs ⊢
    -- a push reads no element, so `last_send_iob_` stays
    have hsame : last = s.transp.last_send_iob := by
      rcases hlast with ⟨node, hop, -⟩ | ⟨-, hsame⟩
      · rw [hop] at hvalue
        cases hvalue
      · exact hsame
    refine h.push hsend hpc hok hpcs ?_ rfl hsame rfl rfl rfl rfl ?_
    · rcases (op.step 8 ok s.transp.sendlist).2 with op' | res
      · rfl
      · rfl
    · exact List.append_nil _
  · obtain ⟨hturn, last, hstate, hlast⟩ := s.transp.sendlist_step_spec ok op
    rw [hpc] at hpcs ⊢
    simp only [BaseTransport.action, hturn, hstate] at hpcs ⊢
    refine h.pop hsend hnodup hpc hpcs ?_ rfl ?_ rfl rfl rfl ?_ ?_
    · rcases (op.step 8 ok s.transp.sendlist).2 with op' | res
      · rfl
      · rcases res with _ | _ | _
        all_goals rfl
    · rcases hlast with ⟨node, hop, hdata, -⟩ | ⟨hno, hsame⟩
      · exact Or.inl ⟨node, hop, hdata⟩
      · refine Or.inr ⟨?_, hsame⟩
        rintro node rfl
        exact hno node _ rfl
    · exact List.append_nil _
    · exact List.append_nil _
  · obtain ⟨v, hlast, hsend'⟩ := hsend.sending hpc
    rw [hpc] at hpcs ⊢
    simp only [BaseTransport.action, hsend'] at hpcs ⊢
    refine h.flow_send hnodup n hpc hlast hsend' ?_ hpcs ?_ rfl ?_ rfl
    · rcases w with iob | _ | _
      all_goals
        simp only [BaseTransport.send_failed]
        split
        all_goals rfl
    · unfold BaseTransport.flow_send BaseTransport.goto
      split
      · next hzero =>
        refine ⟨_, Or.inl hsend', rfl, hlast, rfl, ?_⟩
        simp [hzero]
      · split
        · next hneg =>
          refine ⟨_, Or.inl hsend', rfl, hlast, rfl, ?_⟩
          simp [Int.toNat_of_nonpos hneg.le]
        · simp only
          split
          · exact ⟨_, Or.inr rfl, rfl, hlast, rfl, rfl⟩
          · exact ⟨_, Or.inl hsend', rfl, hlast, rfl, rfl⟩
    · exact List.append_nil _
  · obtain ⟨hnone, v, hlast⟩ := hsend.wanting hpc
    rw [hpc] at hpcs ⊢
    have hfree : ¬ (s.transp.last_send_iob = none ∨ s.transp.send_iob ≠ none) := by
      rw [hlast, hnone]
      simp
    simp only [BaseTransport.action, if_neg hfree] at hpcs ⊢
    refine h.aside hpcs rfl ?_ ?_ rfl rfl ?_ ?_ ?_ ?_
    · rw [hpc]
      rfl
    · rintro op ⟨⟩
    · exact List.append_nil _
    · exact List.append_nil _
    · intro reads u hu
      rcases hu with hu | hu | hu
      · exact Or.inl hu
      · exact Or.inl hu
      · exact Or.inr (Or.inr hu)
    · intro reads u hu
      left
      rcases hu with hu | hu | hu
      · exact Or.inl hu
      · rw [hnone] at hu
        cases hu
      · exact Or.inr (Or.inr hu)
  · obtain ⟨hnone, v, hlast, hzero⟩ := hsend.handling (Or.inr hpc)
    rw [hpc] at hpcs ⊢
    refine h.aside hpcs rfl ?_ ?_ rfl rfl ?_ ?_ ?_ ?_
    · rw [hpc]
      rfl
    · rintro op ⟨⟩
    · exact List.append_nil _
    · exact List.append_nil _
    · intro reads u hu
      rcases hu with hu | hu | hu
      · cases hu
      · exact Or.inr (Or.inl hu)
      · exact Or.inr (Or.inr hu)
    · intro reads u hu
      rcases hu with hu | hu | hu
      · -- nothing is left of the buffer that is let go
        rw [hlast] at hu
        cases hu
        exact Or.inr hzero
      · exact Or.inl (Or.inr (Or.inl hu))
      · exact Or.inl (Or.inr (Or.inr hu))
  · have hreserves : s.reserves ok (s.transp.pcs i) = [] := reserves_of_queue_op ok hstill.queue_op
    have hwrites : s.writes n (s.transp.pcs i) = [] := writes_of_quiet n hstill.quiet
    rw [hreserves, hwrites, List.append_nil, List.append_nil]
    have hflight : ∀ reads v, ((s.transp.action k ok n (s.transp.pcs i)).2.goto i
        (s.transp.action k ok n (s.transp.pcs i)).1).InFlight reads v ↔
          s.transp.InFlight reads v := by
      intro reads v
      unfold BaseTransport.InFlight BaseTransport.goto
      rw [hstill.last, hstill.send_iob]
    exact h.aside hpcs hstill.sendlist hstill.queue_op hstill.begins hstill.iob_size rfl rfl rfl
      (fun reads v => (hflight reads v).mp) fun reads v hv => Or.inl ((hflight reads v).mpr hv)

/-! ## Section 6: Every run -/

/-- The poller has the news that a buffer is sent, or has told it. -/
def Told (t : BaseTransport ι) (v : Nat) : Prop :=
  channel_event_buffer_sent v ∈ t.posted ∨ (∃ i, t.pcs i = .call (.sent_cb v)) ∨
    .sent_cb v ∈ t.calls

/-- **The invariant** about who is in the line. -/
structure Kept (s : Wired ι) : Prop where
  nodup : s.reserved.Nodup
  lt : ∀ v ∈ s.reserved, v < s.transp.iobs
  waiting : ∀ i v, (s.transp.pcs i).buffer = some v → (s.transp.pcs i).uncounted ≠ some v →
    v ∉ s.reserved
  entered : ∀ i v, (s.transp.pcs i).uncounted = some v ∨ (s.transp.pcs i).taken = some v →
    v ∈ s.reserved
  results : ∀ v, (v, error_none) ∈ s.transp.results → v ∈ s.reserved
  told : ∀ v, Told s.transp v → v ∈ s.reserved ∧ s.transp.iob_size v = 0

omit [DecidableEq ι] in
theorem kept_new : (new : Wired ι).Kept := by
  refine ⟨List.nodup_nil, ?_, ?_, ?_, ?_, ?_⟩
  · intro v hv
    cases hv
  · intro i v hv
    cases hv
  · rintro i v (hv | hv)
    all_goals cases hv
  · intro v hv
    cases hv
  · rintro v (hv | ⟨i, hv⟩ | hv)
    all_goals cases hv

omit [DecidableEq ι] in
/-- Who gets a node has been waiting for it. -/
theorem waiting_of_reserves {ok : Bool} {v : Nat} (h : v ∈ s.reserves ok p) :
    p.buffer = some v ∧ p.uncounted ≠ some v := by
  unfold reserves at h
  split at h
  · next iob op =>
    split at h
    · next op' hturn =>
      split at h
      · next hreserves =>
        rw [List.mem_singleton] at h
        subst h
        have hnone : op.pushing = none := by
          unfold M2m.Op.reserves at hreserves
          split at hreserves
          · rfl
          · rfl
          · cases hreserves
        refine ⟨rfl, ?_⟩
        simp [TransportPc.uncounted, hnone]
      · cases h
    · cases h
  · cases h

/-- A thread enters a function of the transport. -/
theorem Kept.enter (h : s.Kept) (hpcs : s'.transp.pcs = Function.update s.transp.pcs i p)
    (hreserved : s'.reserved = s.reserved) (hiobs : s.transp.iobs ≤ s'.transp.iobs)
    (hbuffer : ∀ v, p.buffer = some v → v = s.transp.iobs) (huncounted : p.uncounted = none)
    (htaken : p.taken = none) (hresults : s'.transp.results = s.transp.results)
    (hposted : ∀ ev ∈ s'.transp.posted, ev ∈ s.transp.posted)
    (hcalls : s'.transp.calls = s.transp.calls)
    (hcall : ∀ v, p = .call (.sent_cb v) → channel_event_buffer_sent v ∈ s.transp.posted)
    (hsize : ∀ v, v < s.transp.iobs → s'.transp.iob_size v = s.transp.iob_size v) : s'.Kept := by
  have hcases := BaseTransport.Stock.pcs_cases hpcs
  refine ⟨?_, ?_, ?_, ?_, ?_, ?_⟩
  · rw [hreserved]
    exact h.nodup
  · intro v hv
    rw [hreserved] at hv
    exact (h.lt v hv).trans_le hiobs
  · intro j v hv hne
    rw [hreserved]
    rcases hcases j with ⟨-, hj⟩ | ⟨-, hj⟩
    · -- the buffer is new
      rw [hj] at hv
      rw [hbuffer v hv]
      intro hmem
      exact lt_irrefl _ (h.lt _ hmem)
    · rw [hj] at hv hne
      exact h.waiting j v hv hne
  · intro j v hv
    rw [hreserved]
    rcases hcases j with ⟨-, hj⟩ | ⟨-, hj⟩
    · rw [hj, huncounted, htaken] at hv
      rcases hv with hv | hv
      all_goals cases hv
    · rw [hj] at hv
      exact h.entered j v hv
  · rw [hreserved, hresults]
    exact h.results
  · intro v hv
    have hv' : Told s.transp v := by
      rcases hv with hv | ⟨j, hv⟩ | hv
      · exact Or.inl (hposted _ hv)
      · rcases hcases j with ⟨-, hj⟩ | ⟨-, hj⟩
        · rw [hj] at hv
          exact Or.inl (hcall v hv)
        · rw [hj] at hv
          exact Or.inr (Or.inl ⟨j, hv⟩)
      · rw [hcalls] at hv
        exact Or.inr (Or.inr hv)
    obtain ⟨hmem, hzero⟩ := h.told v hv'
    rw [hreserved, hsize v (h.lt v hmem)]
    exact ⟨hmem, hzero⟩

/-- A step of a thread. -/
theorem Kept.action (h : s.Kept) (hline : s.InLine) (hsend : s.transp.SendInv) (ok : Bool) (n : Int) :
    ({ s with
      transp := (s.transp.action k ok n (s.transp.pcs i)).2.goto i
        (s.transp.action k ok n (s.transp.pcs i)).1
      reserved := s.reserved ++ s.reserves ok (s.transp.pcs i)
      wire := s.wire ++ s.writes n (s.transp.pcs i) } : Wired ι).Kept := by
  have hrec := BaseTransport.action_recorded k s.transp ok n (s.transp.pcs i)
  have hpcs : ((s.transp.action k ok n (s.transp.pcs i)).2.goto i
      (s.transp.action k ok n (s.transp.pcs i)).1).pcs =
        Function.update s.transp.pcs i (s.transp.action k ok n (s.transp.pcs i)).1 := by
    show Function.update (s.transp.action k ok n (s.transp.pcs i)).2.pcs i _ = _
    rw [hrec.pcs]
  have hcases := BaseTransport.Stock.pcs_cases hpcs
  have hgets : ∀ v ∈ s.reserves ok (s.transp.pcs i), v ∉ s.reserved := by
    intro v hv
    obtain ⟨hbuffer, hne⟩ := waiting_of_reserves hv
    exact h.waiting i v hbuffer hne
  refine ⟨?_, ?_, ?_, ?_, ?_, ?_⟩
  · rw [List.nodup_append]
    refine ⟨h.nodup, ?_, ?_⟩
    · unfold reserves
      repeat' split
      all_goals first | exact List.nodup_nil | exact List.nodup_singleton _
    · rintro v hv u hu rfl
      exact hgets v hu hv
  · intro v hv
    show v < (s.transp.action k ok n (s.transp.pcs i)).2.iobs
    rw [hrec.iobs]
    rcases List.mem_append.mp hv with hv | hv
    · exact h.lt v hv
    · exact hsend.buffer_lt (waiting_of_reserves hv).1
  · intro j v hv hne
    rw [List.mem_append, not_or]
    rcases hcases j with ⟨-, hj⟩ | ⟨hji, hj⟩
    · rw [hj] at hv hne
      obtain ⟨hbuffer, hne', hnot⟩ := waiting_of_action ok n hv hne
      exact ⟨h.waiting i v hbuffer hne', hnot⟩
    · rw [hj] at hv hne
      refine ⟨h.waiting j v hv hne, ?_⟩
      intro hmem
      exact hji (hsend.buffer_unique hv (waiting_of_reserves hmem).1)
  · intro j v hv
    rcases hcases j with ⟨-, hj⟩ | ⟨-, hj⟩
    · rw [hj] at hv
      rcases entered_of_action ok n (fun iob op hpc => hsend.pushing hpc) hv with hv | hv | hv
      · exact List.mem_append_left _ (h.entered i v (Or.inl hv))
      · exact List.mem_append_left _ (h.entered i v (Or.inr hv))
      · exact List.mem_append_right _ hv
    · rw [hj] at hv
      exact List.mem_append_left _ (h.entered j v hv)
  · intro v hv
    have hv' : (v, error_none) ∈ (s.transp.action k ok n (s.transp.pcs i)).2.results := hv
    rw [hrec.results, List.mem_append] at hv'
    rcases hv' with hv' | hv'
    · exact List.mem_append_left _ (h.results v hv')
    · exact List.mem_append_left _ (h.entered i v (Or.inr (BaseTransport.returned_taken hv')))
  · intro v hv
    have hv' : v ∈ s.reserved ∧ s.transp.iob_size v = 0 := by
      rcases hv with hv | ⟨j, hv⟩ | hv
      · rcases BaseTransport.sent_posted_of_action k s.transp ok n hv with hv | ⟨w, hpc, hlast⟩
        · exact h.told v (Or.inl hv)
        · -- the last buffer is handled as sent
          obtain ⟨-, u, hu, hzero⟩ := hsend.handling (Or.inl hpc)
          rw [hlast] at hu
          cases hu
          obtain ⟨slots, free, reads, popped, -, hreserved, hw⟩ := hline
          refine ⟨?_, hzero⟩
          rw [hreserved]
          exact List.mem_append_left _ (List.mem_of_getLast? (hw.last v (Or.inl hlast)))
      · rcases hcases j with ⟨-, hj⟩ | ⟨-, hj⟩
        · rw [hj] at hv
          exact absurd hv (BaseTransport.sent_cb_of_action k s.transp ok n _ v)
        · rw [hj] at hv
          exact h.told v (Or.inr (Or.inl ⟨j, hv⟩))
      · have hcall : .sent_cb v ∈ (s.transp.action k ok n (s.transp.pcs i)).2.calls := hv
        rw [hrec.calls, List.mem_append] at hcall
        rcases hcall with hcall | hcall
        · exact h.told v (Or.inr (Or.inr hcall))
        · cases hpc : s.transp.pcs i with
          | call c =>
            rw [hpc] at hcall
            have hc : TransportCall.sent_cb v = c := List.mem_singleton.mp hcall
            exact h.told v (Or.inr (Or.inl ⟨i, by rw [hpc, hc]⟩))
          | data_call size disconnected =>
            rw [hpc] at hcall
            cases List.mem_singleton.mp hcall
          | _ =>
            rw [hpc] at hcall
            cases hcall
    obtain ⟨hmem, hzero⟩ := hv'
    refine ⟨List.mem_append_left _ hmem, ?_⟩
    have hle := BaseTransport.size_of_action (k := k) s.transp ok n (s.transp.pcs i) v
    rw [hzero] at hle
    exact Nat.le_zero.mp hle

/-- **The invariant.** -/
structure Ordered (s : Wired ι) : Prop where
  sends : s.transp.SendInv
  line : s.InLine
  kept : s.Kept

/-- A function that has nothing to do with what is sent is entered. -/
theorem Ordered.enter (h : s.Ordered) (hsends : s'.transp.SendInv)
    (hidle : s.transp.pcs i = .idle)
    (hpcs : s'.transp.pcs = Function.update s.transp.pcs i p) (hp : p.queue_op = none)
    (hbuffer : p.buffer = none) (htaken : p.taken = none)
    (hsame : s'.transp.sendlist = s.transp.sendlist ∧
      s'.transp.last_send_iob = s.transp.last_send_iob ∧
      s'.transp.send_iob = s.transp.send_iob ∧ s'.transp.iob_size = s.transp.iob_size ∧
      s'.transp.iobs = s.transp.iobs ∧ s'.transp.results = s.transp.results ∧
      s'.transp.calls = s.transp.calls)
    (hposted : ∀ ev ∈ s'.transp.posted, ev ∈ s.transp.posted)
    (hcall : ∀ v, p = .call (.sent_cb v) → channel_event_buffer_sent v ∈ s.transp.posted)
    (hrec : s'.sizes = s.sizes ∧ s'.reserved = s.reserved ∧ s'.wire = s.wire) : s'.Ordered := by
  obtain ⟨hlist, hlast, hsend, hsize, hiobs, hresults, hcalls⟩ := hsame
  obtain ⟨hsizes, hreserved, hwire⟩ := hrec
  refine ⟨hsends, ?_, ?_⟩
  · apply h.line.aside hpcs hlist _ _ hsize hsizes hreserved hwire
    · exact fun reads v => (inFlight_congr hlast hsend reads v).mp
    · exact fun reads v hv => Or.inl ((inFlight_congr hlast hsend reads v).mpr hv)
    · rw [hidle]
      rfl
    · intro op hop
      rw [hp] at hop
      cases hop
  · apply h.kept.enter hpcs hreserved hiobs.ge _ (BaseTransport.uncounted_of_buffer hbuffer)
      htaken hresults hposted hcalls hcall
    · exact fun v _ => congrFun hsize v
    · intro v hv
      rw [hbuffer] at hv
      cases hv

/-- **Every step keeps the invariant.** -/
theorem Ordered.step (h : s.Ordered) {l : TransportLabel ι} (hok : s.transp.Orderly l)
    (hstep : s.step k l = some s') : s'.Ordered := by
  have hsends := BaseTransport.step_sendInv h.sends hok (step_transp hstep)
  obtain ⟨transp, htransp, rfl⟩ := Option.map_eq_some_iff.mp hstep
  cases l with
  | start i valid mode sent_cb =>
    obtain ⟨hidle, rfl⟩ := BaseTransport.enter_eq htransp
    refine h.enter hsends hidle rfl ?_ ?_ ?_ ⟨rfl, rfl, rfl, rfl, rfl, rfl, rfl⟩ (fun _ hev => hev)
      ?_ ⟨rfl, rfl, rfl⟩
    all_goals
      split
      all_goals simp [TransportPc.queue_op, TransportPc.buffer, TransportPc.taken]
  | stop i | force_stop i | async_read i =>
    obtain ⟨hidle, rfl⟩ := BaseTransport.enter_eq htransp
    exact h.enter hsends hidle rfl rfl rfl rfl ⟨rfl, rfl, rfl, rfl, rfl, rfl, rfl⟩
      (fun _ hev => hev) (by simp) ⟨rfl, rfl, rfl⟩
  | send i size copied =>
    simp only [BaseTransport.step] at htransp
    split at htransp
    · obtain ⟨hidle, rfl⟩ := BaseTransport.enter_eq htransp
      have hidle' : s.transp.pcs i = .idle := hidle
      refine ⟨hsends, ?_, ?_⟩
      · refine h.line.create h.kept.lt size hidle' ?_ rfl rfl rfl rfl rfl rfl rfl rfl
        split
        · rfl
        · rfl
      · refine h.kept.enter rfl rfl (Nat.le_succ _) ?_ ?_ ?_ rfl (fun _ hev => hev) rfl ?_ ?_
        · intro v hv
          split at hv
          · cases hv
          · cases hv
            rfl
        · split
          · rfl
          · rfl
        · split
          · rfl
          · rfl
        · intro v hv
          split at hv
          · cases hv
          · cases hv
        · intro v hv
          exact Function.update_of_ne hv.ne _ _
    · cases htransp
  | read_event i | send_event i =>
    simp only [BaseTransport.step] at htransp
    split at htransp
    · obtain ⟨hidle, rfl⟩ := BaseTransport.enter_eq htransp
      exact h.enter hsends hidle rfl rfl rfl rfl ⟨rfl, rfl, rfl, rfl, rfl, rfl, rfl⟩
        (fun _ hev => hev) (by simp) ⟨rfl, rfl, rfl⟩
    · cases htransp
  | channel_event i ev =>
    simp only [BaseTransport.step] at htransp
    split at htransp
    · next hposted =>
      obtain ⟨hidle, rfl⟩ := BaseTransport.enter_eq htransp
      refine h.enter hsends hidle rfl ?_ ?_ ?_ ⟨rfl, rfl, rfl, rfl, rfl, rfl, rfl⟩
        (fun _ hev => List.mem_of_mem_erase hev) ?_ ⟨rfl, rfl, rfl⟩
      all_goals cases ev
      -- the poller that takes the event calls `sent_cb` for its buffer
      case refine_4.channel_event_buffer_sent iob =>
        intro v hv
        cases hv
        exact hposted
      case refine_1.channel_event_read | refine_2.channel_event_read | refine_3.channel_event_read =>
        simp only
        split
        · rfl
        · rfl
      case refine_4.channel_event_read =>
        intro v hv
        simp only at hv
        split at hv
        · cases hv
        · cases hv
      case refine_4.channel_event_disconnected =>
        intro v hv
        cases hv
      all_goals rfl
    · cases htransp
  | step i ok n =>
    cases htransp
    exact ⟨hsends, h.line.action h.sends h.kept.nodup hok ok n,
      h.kept.action h.line h.sends ok n⟩

theorem reachable_ordered (h : Reachable (step k) (fun s l => s.transp.Orderly l) new s) :
    s.Ordered := by
  apply h.invariant
  · exact ⟨BaseTransport.new_sendInv, inLine_new, kept_new⟩
  · intro s l s' hinv hok hstep
    exact hinv.step hok hstep

/-- What is reserved and sent is not taken back. -/
theorem step_extends {l : TransportLabel ι} (h : s.step k l = some s') :
    s.reserved <+: s'.reserved ∧ s.wire <+: s'.wire := by
  obtain ⟨transp, -, rfl⟩ := Option.map_eq_some_iff.mp h
  cases l with
  | step i ok n => exact ⟨List.prefix_append _ _, List.prefix_append _ _⟩
  | _ => exact ⟨List.prefix_refl _, List.prefix_refl _⟩

theorem exec_extends {ls : List (TransportLabel ι)} (h : exec (step k) s ls = some s') :
    s.reserved <+: s'.reserved ∧ s.wire <+: s'.wire := by
  induction ls generalizing s with
  | nil =>
    cases h
    exact ⟨List.prefix_refl _, List.prefix_refl _⟩
  | cons l ls ih =>
    obtain ⟨mid, hmid, hrest⟩ := Option.bind_eq_some_iff.mp h
    obtain ⟨hreserved, hwire⟩ := step_extends hmid
    obtain ⟨hreserved', hwire'⟩ := ih hrest
    exact ⟨hreserved.trans hreserved', hwire.trans hwire'⟩

/-- **What is on the wire.** The buffers are in one order, that every later
    state goes on with, and what is on the wire is a first part of their bytes
    in that order. A buffer for which `send` has returned `error_none` has its
    place in the order, and is all on the wire where nothing is pending. When
    `sent_cb` is called for a buffer, it is all on the wire. -/
structure InOrder (k : TransportKind) (s : Wired ι) : Prop where
  nodup : s.reserved.Nodup
  first_part : s.wire <+: s.reserved.flatMap fun v => bytes v 0 (s.sizes v)
  accepted : ∀ v, (v, error_none) ∈ s.transp.results → v ∈ s.reserved
  drained : s.transp.pending_send_size = 0 →
    ∀ v off, (v, error_none) ∈ s.transp.results → off < s.sizes v → (v, off) ∈ s.wire
  sent : ∀ v off, .sent_cb v ∈ s.transp.calls → off < s.sizes v → (v, off) ∈ s.wire
  later : ∀ ls s', exec (step k) s ls = some s' → s.reserved <+: s'.reserved ∧ s.wire <+: s'.wire

/-- **The order of sending.** In every run of any number of threads that send,
    and pollers that send on. -/
theorem run_sends_in_order (h : Reachable (step k) (fun s l => s.transp.Orderly l) new s) :
    s.InOrder k := by
  obtain ⟨hsends, hline, hkept⟩ := reachable_ordered h
  obtain ⟨slots, free, reads, popped, -, hreserved, hw⟩ := hline
  have hpopped : popped.Nodup := by
    have hnodup := hkept.nodup
    rw [hreserved, List.nodup_append] at hnodup
    exact hnodup.1
  refine ⟨hkept.nodup, ?_, hkept.results, ?_, ?_, fun ls s' => exec_extends⟩
  · rw [hreserved, List.flatMap_append]
    exact (hw.first_part hpopped).trans (List.prefix_append _ _)
  · intro hzero v off hv hoff
    exact hw.mem_wire (BaseTransport.sent_of_pending hsends hzero (Or.inl hv)) hoff
  · intro v off hv hoff
    exact hw.mem_wire (hkept.told v (Or.inr (Or.inr hv))).2 hoff

/-- Thread 1 sends while thread 0 does, in parts, and then the poller sends
    what both of them have left. -/
theorem run_sends_in_order_two_buffers :
    ∃ s : Wired (Fin 2), exec (step .tcp) new BaseTransport.two_buffers_labels = some s ∧
      s.wire = bytes 0 0 10 ++ bytes 1 0 5 ∧ s.InOrder .tcp := by
  have hexec : (exec (step .tcp) (new : Wired (Fin 2)) BaseTransport.two_buffers_labels).map
      (·.wire) = some (bytes 0 0 10 ++ bytes 1 0 5) := by
    decide +kernel
  have hmeets : Meets (step .tcp) (fun s l => s.transp.Orderly l) (new : Wired (Fin 2))
      BaseTransport.two_buffers_labels := by
    decide +kernel
  obtain ⟨s, hs, hwire⟩ := Option.map_eq_some_iff.mp hexec
  exact ⟨s, hs, hwire, run_sends_in_order (.of_exec hs hmeets)⟩

end

end Wired

end Pump
