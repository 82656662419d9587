import Pump.Places
import Pump.Transport.SingleSender

/-! # References to buffers

    Each call of `send` takes one reference to its buffer. It goes through
    `sendlist_`, `last_send_iob_`, a posted event and the thread that calls
    `sent_cb`, and whoever has it last releases it. A `tcp_transport` is
    destroyed when no thread is in one of its functions; its destructor
    releases what is left in `last_send_iob_` and `sendlist_`. The posted
    events hold no reference to the transport, and are dropped after that. -/

namespace Pump

open TransportState ErrorCode ChannelEvent
open M2m (Op Ops Slot Turn)

/-! ## Section 1: Model -/

/-- Where a thread is in `__clear_sendlist`. -/
inductive ClearPc where
  | last
  | pop (op : Op Nat)
  | done
  -- a call of a function with a null pointer
  | aborted
  deriving DecidableEq

/-- A transport from its creation to its end: the references that `send` has
    taken, those that were released, and the thread that destroys it. -/
structure Lifetime (ι : Type) where
  transp : BaseTransport ι
  referred : List Nat
  released : List Nat
  clearing : Option (ι × ClearPc)

inductive LifetimeLabel (ι : Type) where
  | run (l : TransportLabel ι)
  /-- Thread `i` gives up the last reference to the transport. -/
  | destroy (i : ι)
  /-- The next step of the destructor. -/
  | clear
  /-- The poller takes a posted event whose transport is gone. -/
  | drop (ev : ChannelEvent)

namespace BaseTransport

variable {ι : Type}

/-- The reference that a thread takes by its next step. In `send_create`, a
    buffer that is created and cannot be written to has `n ≠ 0`. -/
def refers (s : BaseTransport ι) (ok : Bool) (n : Int) : TransportPc → List Nat
  | .send_started iob copied => if s.state = state_started ∧ copied = false then [iob] else []
  | .send_create iob => if ok = true ∨ n ≠ 0 then [iob] else []
  | _ => []

/-- The reference that it releases. -/
def unrefers (s : BaseTransport ι) (ok : Bool) (n : Int) : TransportPc → List Nat
  | .send_create iob => if ok = false ∧ n ≠ 0 then [iob] else []
  | .handle_sent _ => if s.sent_cb then [] else s.last_send_iob.toList
  | .call (.sent_cb iob) => [iob]
  | _ => []

end BaseTransport

namespace Lifetime

variable {ι : Type}

/-- A new transport. -/
def new : Lifetime ι := ⟨.new, [], [], none⟩

/-- `__clear_sendlist`. -/
def clear_sendlist (s : Lifetime ι) (i : ι) : ClearPc → Option (Lifetime ι)
  | .last =>
    some { s with
      released := s.released ++ s.transp.last_send_iob.toList
      clearing := some (i, .pop .pop_load) }
  | .pop op =>
    let r := op.step 8 true s.transp.sendlist
    let s := { s with transp := { s.transp with sendlist := r.1 } }
    match r.2 with
    | .goes op => some { s with clearing := some (i, .pop op) }
    | .returns (.popped (some iob)) =>
      some { s with released := s.released ++ [iob], clearing := some (i, .pop .pop_load) }
    | .returns (.popped none) => some { s with clearing := some (i, .aborted) }
    | .returns _ => some { s with clearing := some (i, .done) }
  | .done | .aborted => none

variable [DecidableEq ι] [Fintype ι]

def step (s : Lifetime ι) : LifetimeLabel ι → Option (Lifetime ι)
  | .run l =>
    if s.clearing.isNone then
      (s.transp.step .tcp l).map fun transp =>
        match l with
        | .step i ok n =>
          { s with
            transp := transp
            referred := s.referred ++ s.transp.refers ok n (s.transp.pcs i)
            released := s.released ++ s.transp.unrefers ok n (s.transp.pcs i) }
        | _ => { s with transp := transp }
    else none
  | .destroy i =>
    if s.clearing.isNone ∧ ∀ j, s.transp.pcs j = .idle then
      some { s with clearing := some (i, .last) }
    else none
  | .clear => do
    let ⟨i, pc⟩ ← s.clearing
    s.clear_sendlist i pc
  | .drop ev =>
    if s.clearing.isSome ∧ ev ∈ s.transp.posted then
      some { s with transp := { s.transp with posted := s.transp.posted.erase ev } }
    else none

end Lifetime

/-! ## Section 2: Where a reference is -/

namespace TransportPc

/-- The buffer of a `send` that has no reference to it yet. -/
def starting : TransportPc → Option Nat
  | .send_check iob _ | .send_opt iob _ | .send_started iob _ | .send_create iob => some iob
  | _ => none

/-- The buffer of a `send` that has no node for it in the list yet. -/
def pushing : TransportPc → Option Nat
  | .send_push iob op => if op.pushing.isSome then none else some iob
  | _ => none

/-- The buffer that `sent_cb` is called with. -/
def calling : TransportPc → Option Nat
  | .call (.sent_cb iob) => some iob
  | _ => none

/-- The thread has passed the reference in `last_send_iob_` on. -/
def clears : TransportPc → Prop
  | .handle_clear _ => True
  | _ => False

/-- The places that have nothing to do with a reference or with `sendlist_`. -/
def plain : TransportPc → Prop
  | .send_started _ _ | .send_create _ | .send_push _ _ | .once _ | .once_pop _ _ | .handle_sent _
  | .handle_clear _ | .call (.sent_cb _) => False
  | _ => True

/-- A thread there has no reference and no operation on the list. -/
structure Bare (p : TransportPc) : Prop where
  queue_op : p.queue_op = none
  pushing : p.pushing = none
  calling : p.calling = none
  clears : ¬ p.clears

theorem bare_of_plain {p : TransportPc} (h : p.plain) : p.Bare := by
  cases p with
  | send_started | send_create | send_push | once | once_pop | handle_sent | handle_clear =>
    exact h.elim
  | call c =>
    cases c with
    | sent_cb => exact h.elim
    | _ => exact ⟨rfl, rfl, rfl, id⟩
  | _ => exact ⟨rfl, rfl, rfl, id⟩

theorem bare_of_starting {p : TransportPc} {v : Nat} (h : p.starting = some v) : p.Bare := by
  cases p with
  | send_check | send_opt | send_started | send_create => exact ⟨rfl, rfl, rfl, id⟩
  | _ => cases h

theorem owns_of_clears {p : TransportPc} (h : p.clears) : p.owns := by
  cases p with
  | handle_clear => trivial
  | _ => exact h.elim

theorem buffer_of_starting {p : TransportPc} {v : Nat} (h : p.starting = some v) :
    p.buffer = some v := by
  cases p with
  | send_check | send_opt | send_started | send_create => exact h
  | _ => cases h

end TransportPc

/-- The places of a reference. -/
inductive Place (ι : Type) where
  | untaken
  | pushing (i : ι)
  | listed
  | flying
  | posted
  | calling (i : ι)
  | released

namespace BaseTransport

variable {ι : Type}

/-- It is what a pop has read, or in `last_send_iob_` and not passed on. -/
def Flying (s : BaseTransport ι) (reads : ι → Option Nat) (v : Nat) : Prop :=
  (∃ i, reads i = some v) ∨ (s.last_send_iob = some v ∧ ∀ i, ¬ (s.pcs i).clears)

/-- The number of posted events with the buffer. -/
def sent (s : BaseTransport ι) (v : Nat) : Nat := s.posted.count (channel_event_buffer_sent v)

end BaseTransport

namespace Lifetime

variable {ι : Type}

/-- Reference `v` is at a place. -/
def At (s : Lifetime ι) (slots : List (Slot Nat)) (reads : ι → Option Nat) (v : Nat) :
    Place ι → Prop
  | .untaken => v ∉ s.referred
  | .pushing i => (s.transp.pcs i).pushing = some v
  | .listed => v ∈ slots.map Slot.value
  | .flying => s.transp.Flying reads v
  | .posted => s.transp.sent v ≠ 0
  | .calling i => (s.transp.pcs i).calling = some v
  | .released => v ∈ s.released

/-- Nothing is anywhere twice, and each reference is at one place. -/
structure Ledger (s : Lifetime ι) (slots : List (Slot Nat)) (free : List Nat)
    (reads : ι → Option Nat) : Prop where
  queue : M2m.Inv 8 s.transp.sendlist s.transp.ops slots free reads
  slots_nodup : (slots.map Slot.value).Nodup
  sent_le : ∀ v, s.transp.sent v ≤ 1
  referred_nodup : s.referred.Nodup
  released_nodup : s.released.Nodup
  referred_lt : ∀ v ∈ s.referred, v < s.transp.iobs
  starting : ∀ i v, (s.transp.pcs i).starting = some v → v ∉ s.referred
  place : OnePlace (s.At slots reads)

theorem new_ledger : ∃ free, Ledger (new : Lifetime ι) [] free fun _ => none := by
  obtain ⟨free, hinv⟩ := M2m.init_list_inv (τ := Nat) (ι := ι) (N := 8) (by decide) 32
  refine ⟨free, hinv, List.nodup_nil, fun _ => Nat.zero_le 1, List.nodup_nil, List.nodup_nil,
    nofun, nofun, ?_⟩
  intro v
  refine ⟨.untaken, nofun, ?_⟩
  intro q hq
  cases q with
  | untaken => rfl
  | flying =>
    rcases hq with ⟨i, hi⟩ | ⟨hlast, -⟩
    · cases hi
    · cases hlast
  | posted => exact absurd rfl hq
  | listed | released | pushing i | calling i => cases hq

section

variable {s s' : Lifetime ι} {slots slots' : List (Slot Nat)} {free free' : List Nat}
  {reads reads' : ι → Option Nat} {i : ι} {p : TransportPc} {v : Nat}

/-- Only a thread that pops has read a buffer. -/
theorem Ledger.owns_of_reads (h : Ledger s slots free reads) (hsend : s.transp.SendInv)
    (hv : reads i = some v) : (s.transp.pcs i).owns ∧ (s.transp.pcs i).queue_op ≠ none := by
  have hreading : M2m.reading (s.transp.pcs i).queue_op ≠ none := by
    intro hnone
    have hnot := h.queue.core.not_taken i hnone
    rw [hv] at hnot
    cases hnot
  refine ⟨?_, ?_⟩
  · obtain ⟨_, _, _, _, _, _, hst, _⟩ := hsend
    cases hpc : s.transp.pcs i with
    | send_push iob op =>
      -- a push reads no buffer
      rw [hpc] at hreading
      have hvalue := hst.pushes i iob op hpc
      cases op with
      | pop_load | pop_next | pop_check | pop_exchange | pop_data | pop_ready => cases hvalue
      | _ => exact absurd rfl hreading
    | once_pop => trivial
    | _ =>
      rw [hpc] at hreading
      exact absurd rfl hreading
  · intro hnone
    rw [hnone] at hreading
    exact hreading rfl

/-- A reference at another place is not released yet. -/
theorem Ledger.released_concat (h : Ledger s slots free reads) {q : Place ι}
    (hv : s.At slots reads v q) (hq : q ≠ .released) : (s.released ++ [v]).Nodup := by
  rw [← List.concat_eq_append]
  apply h.released_nodup.concat
  intro hmem
  have hreleased : s.At slots reads v .released := hmem
  exact hq (h.place.eq hv hreleased)

/-- While the thread that sends has no operation on the list, nothing is read. -/
theorem Ledger.reads_none (h : Ledger s slots free reads) (hsend : s.transp.SendInv)
    (hi : (s.transp.pcs i).owns) (hop : (s.transp.pcs i).queue_op = none) (j : ι) :
    reads j = none := by
  rcases hj : reads j with _ | v
  · rfl
  · obtain ⟨howns, hne⟩ := h.owns_of_reads hsend hj
    rw [hsend.single.unique j i howns hi] at hne
    exact absurd hop hne

variable [DecidableEq ι]

/-- What the places of the threads are after a step of thread `i`. -/
theorem pcs_some {f : TransportPc → Option Nat}
    (hpcs : s'.transp.pcs = Function.update s.transp.pcs i p) (j : ι) :
    f (s'.transp.pcs j) = if j = i then f p else f (s.transp.pcs j) := by
  rw [hpcs]
  by_cases hj : j = i
  · rw [hj, Function.update_self, if_pos rfl]
  · rw [Function.update_of_ne hj, if_neg hj]

/-- The same for what does not change with the place of thread `i`. -/
theorem pcs_same {f : TransportPc → Option Nat}
    (hpcs : s'.transp.pcs = Function.update s.transp.pcs i p) (hf : f p = f (s.transp.pcs i))
    (j : ι) : f (s'.transp.pcs j) = f (s.transp.pcs j) := by
  rw [pcs_some (f := f) hpcs, hf]
  split
  · next hj => rw [hj]
  · rfl

/-- A step that does not touch what its thread has in `push`, -/
theorem at_pushing (hpcs : s'.transp.pcs = Function.update s.transp.pcs i p)
    (hpushing : p.pushing = (s.transp.pcs i).pushing) (u : Nat) (j : ι) :
    s'.At slots' reads' u (.pushing j) ↔ s.At slots reads u (.pushing j) := by
  show (s'.transp.pcs j).pushing = some u ↔ (s.transp.pcs j).pushing = some u
  rw [pcs_same (f := TransportPc.pushing) hpcs hpushing]

/-- or in the callback. -/
theorem at_calling (hpcs : s'.transp.pcs = Function.update s.transp.pcs i p)
    (hcalling : p.calling = (s.transp.pcs i).calling) (u : Nat) (j : ι) :
    s'.At slots' reads' u (.calling j) ↔ s.At slots reads u (.calling j) := by
  show (s'.transp.pcs j).calling = some u ↔ (s.transp.pcs j).calling = some u
  rw [pcs_same (f := TransportPc.calling) hpcs hcalling]

theorem clears_same (hpcs : s'.transp.pcs = Function.update s.transp.pcs i p)
    (hp : p.clears ↔ (s.transp.pcs i).clears) :
    (∀ j, ¬ (s'.transp.pcs j).clears) ↔ ∀ j, ¬ (s.transp.pcs j).clears := by
  apply forall_congr'
  intro j
  rw [hpcs]
  by_cases hj : j = i
  · rw [hj, Function.update_self, hp]
  · rw [Function.update_of_ne hj]

/-- It changes for the reference `v` only. -/
theorem pcs_moved {f : TransportPc → Option Nat}
    (hpcs : s'.transp.pcs = Function.update s.transp.pcs i p)
    (hf : ∀ u, u ≠ v → (f p = some u ↔ f (s.transp.pcs i) = some u)) {j : ι} {u : Nat}
    (hu : ¬ (u = v ∧ j = i)) : f (s'.transp.pcs j) = some u ↔ f (s.transp.pcs j) = some u := by
  rw [pcs_some (f := f) hpcs]
  split
  · next hj =>
    rw [hj]
    apply hf
    intro huv
    exact hu ⟨huv, hj⟩
  · rfl

/-- A thread that goes to a place with no other buffer to start with. -/
theorem Ledger.starting_kept (h : Ledger s slots free reads)
    (hpcs : s'.transp.pcs = Function.update s.transp.pcs i p)
    (hp : ∀ u, p.starting = some u → u ∉ s.referred) (j : ι) (u : Nat)
    (hj : (s'.transp.pcs j).starting = some u) : u ∉ s.referred := by
  rw [pcs_some (f := TransportPc.starting) hpcs] at hj
  split at hj
  · exact hp u hj
  · exact h.starting j u hj

/-- Nothing moves when thread `i` goes to `p`. -/
theorem Ledger.stays (h : Ledger s slots free reads)
    (hpcs : s'.transp.pcs = Function.update s.transp.pcs i p)
    (hqueue : M2m.Inv 8 s'.transp.sendlist s'.transp.ops slots' free' reads')
    (hvalues : slots'.map Slot.value = slots.map Slot.value)
    (hreferred : s'.referred = s.referred) (hreleased : s'.released = s.released)
    (hiobs : s.transp.iobs ≤ s'.transp.iobs)
    (hsent : ∀ u, s'.transp.sent u = s.transp.sent u)
    (hpushing : p.pushing = (s.transp.pcs i).pushing)
    (hcalling : p.calling = (s.transp.pcs i).calling)
    (hstarting : ∀ u, p.starting = some u → u ∉ s.referred)
    (hflying : ∀ u, s'.transp.Flying reads' u ↔ s.transp.Flying reads u) :
    Ledger s' slots' free' reads' := by
  constructor
  case queue => exact hqueue
  case slots_nodup =>
    rw [hvalues]
    exact h.slots_nodup
  case sent_le =>
    intro u
    rw [hsent]
    exact h.sent_le u
  case referred_nodup =>
    rw [hreferred]
    exact h.referred_nodup
  case released_nodup =>
    rw [hreleased]
    exact h.released_nodup
  case referred_lt =>
    rw [hreferred]
    intro u hu
    exact lt_of_lt_of_le (h.referred_lt u hu) hiobs
  case starting =>
    rw [hreferred]
    exact h.starting_kept hpcs hstarting
  case place =>
    -- every reference is where it was
    apply h.place.stay
    intro u q
    cases q with
    | untaken =>
      show u ∉ s'.referred ↔ u ∉ s.referred
      rw [hreferred]
    | pushing j => exact at_pushing hpcs hpushing u j
    | listed =>
      show u ∈ slots'.map Slot.value ↔ u ∈ slots.map Slot.value
      rw [hvalues]
    | flying => exact hflying u
    | posted =>
      show s'.transp.sent u ≠ 0 ↔ s.transp.sent u ≠ 0
      rw [hsent]
    | calling j => exact at_calling hpcs hcalling u j
    | released =>
      show u ∈ s'.released ↔ u ∈ s.released
      rw [hreleased]

/-- The list, where thread `i` begins an operation on it at most. -/
theorem Ledger.queue_kept (h : Ledger s slots free reads)
    (hpcs : s'.transp.pcs = Function.update s.transp.pcs i p)
    (hlist : s'.transp.sendlist = s.transp.sendlist) (hold : (s.transp.pcs i).queue_op = none)
    (hnew : p.queue_op = none ∨ p.queue_op = some .pop_load ∨
      ∃ u, p.queue_op = some (.push_load u)) :
    M2m.Inv 8 s'.transp.sendlist s'.transp.ops slots free reads := by
  rw [hlist, BaseTransport.Stock.ops_of_pcs hpcs]
  rcases hnew with hnone | hpop | ⟨u, hpush⟩
  · rw [hnone, ← hold]
    rw [show Function.update s.transp.ops i (s.transp.pcs i).queue_op = s.transp.ops from
      Function.update_eq_self i s.transp.ops]
    exact h.queue
  · rw [hpop]
    exact h.queue.begin hold (Or.inl rfl)
  · rw [hpush]
    exact h.queue.begin hold (Or.inr ⟨u, rfl⟩)

theorem flying_kept (hpcs : s'.transp.pcs = Function.update s.transp.pcs i p)
    (hlast : s'.transp.last_send_iob = s.transp.last_send_iob)
    (hp : p.clears ↔ (s.transp.pcs i).clears) (u : Nat) :
    s'.transp.Flying reads u ↔ s.transp.Flying reads u := by
  unfold BaseTransport.Flying
  rw [hlast, clears_same hpcs hp]

/-! ## Section 3: The steps of a send -/

/-- A thread goes on that has no reference. -/
theorem Ledger.goes (h : Ledger s slots free reads)
    (hpcs : s'.transp.pcs = Function.update s.transp.pcs i p) (hold : (s.transp.pcs i).Bare)
    (hnew : p.queue_op = none ∨ p.queue_op = some .pop_load) (hpushing : p.pushing = none)
    (hcalling : p.calling = none) (hclears : ¬ p.clears)
    (hlist : s'.transp.sendlist = s.transp.sendlist)
    (hlast : s'.transp.last_send_iob = s.transp.last_send_iob)
    (hsent : ∀ u, s'.transp.sent u = s.transp.sent u)
    (hreferred : s'.referred = s.referred) (hreleased : s'.released = s.released)
    (hiobs : s.transp.iobs ≤ s'.transp.iobs)
    (hstarting : ∀ u, p.starting = some u → u ∉ s.referred) : Ledger s' slots free reads := by
  apply h.stays hpcs _ rfl hreferred hreleased hiobs hsent _ _ hstarting
  · exact flying_kept hpcs hlast (iff_of_false hclears hold.clears)
  · apply h.queue_kept hpcs hlist hold.queue_op
    exact hnew.imp_right Or.inl
  · rw [hpushing, hold.pushing]
  · rw [hcalling, hold.calling]

/-- A thread passes the reference `v` on. -/
theorem Ledger.moves (h : Ledger s slots free reads)
    (hpcs : s'.transp.pcs = Function.update s.transp.pcs i p)
    (hqueue : M2m.Inv 8 s'.transp.sendlist s'.transp.ops slots' free' reads')
    (hslots : (slots'.map Slot.value).Nodup) (hsent : ∀ u, s'.transp.sent u ≤ 1)
    (hreferred : s'.referred = s.referred) (hreleased : s'.released.Nodup)
    (hiobs : s'.transp.iobs = s.transp.iobs) (hstarting : p.starting = none)
    {source target : Place ι}
    (hmove : Moves (s.At slots reads) (s'.At slots' reads') v source target) :
    Ledger s' slots' free' reads' := by
  refine ⟨hqueue, hslots, hsent, ?_, hreleased, ?_, ?_, h.place.move hmove⟩
  · rw [hreferred]
    exact h.referred_nodup
  · rw [hreferred, hiobs]
    exact h.referred_lt
  · rw [hreferred]
    apply h.starting_kept hpcs
    rw [hstarting]
    nofun

/-- A thread takes a reference to the buffer of its `send`. -/
theorem Ledger.takes (h : Ledger s slots free reads) (hsend : s.transp.SendInv)
    (hpcs : s'.transp.pcs = Function.update s.transp.pcs i p)
    (hqueue : M2m.Inv 8 s'.transp.sendlist s'.transp.ops slots free reads)
    (hstart : (s.transp.pcs i).starting = some v) (hp : p.starting = none)
    (hsent : s'.transp.sent = s.transp.sent) (hreferred : s'.referred = s.referred ++ [v])
    (hreleased : s'.released.Nodup) (hiobs : s'.transp.iobs = s.transp.iobs) {target : Place ι}
    (hmove : Moves (s.At slots reads) (s'.At slots reads) v .untaken target) :
    Ledger s' slots free reads := by
  obtain ⟨_, _, _, _, _, _, hst, _⟩ := hsend
  have hbuffer := TransportPc.buffer_of_starting hstart
  constructor
  case queue => exact hqueue
  case slots_nodup => exact h.slots_nodup
  case sent_le =>
    rw [hsent]
    exact h.sent_le
  case referred_nodup =>
    rw [hreferred, ← List.concat_eq_append]
    exact h.referred_nodup.concat hmove.before
  case released_nodup => exact hreleased
  case referred_lt =>
    intro u hu
    rw [hreferred, List.mem_append, List.mem_singleton] at hu
    rw [hiobs]
    rcases hu with hu | rfl
    · exact h.referred_lt u hu
    · exact hst.buffer_lt i u hbuffer
  case starting =>
    intro j u hj hu
    rw [hreferred, List.mem_append, List.mem_singleton] at hu
    rcases hu with hu | rfl
    · apply h.starting_kept hpcs _ j u hj hu
      rw [hp]
      nofun
    · -- no other thread has the buffer
      rw [pcs_some (f := TransportPc.starting) hpcs] at hj
      split at hj
      · rw [hp] at hj
        cases hj
      · next hji =>
        exact hji (hst.buffer_unique j i u (TransportPc.buffer_of_starting hj) hbuffer)
  case place => exact h.place.move hmove

/-- `send` takes a reference and goes on to `__async_send`. -/
theorem Ledger.refer (h : Ledger s slots free reads) (hsend : s.transp.SendInv)
    (hstart : (s.transp.pcs i).starting = some v) :
    Ledger { s with
      transp := s.transp.goto i (.send_push v (.push_load v))
      referred := s.referred ++ [v] } slots free reads := by
  have hbare := TransportPc.bare_of_starting hstart
  obtain ⟨s', hs'⟩ : ∃ s' : Lifetime ι, s' = { s with
      transp := s.transp.goto i (.send_push v (.push_load v))
      referred := s.referred ++ [v] } := ⟨_, rfl⟩
  rw [← hs']
  have hpcs : s'.transp.pcs = Function.update s.transp.pcs i (.send_push v (.push_load v)) := by
    rw [hs']
    rfl
  have hmem : ∀ u, u ∈ s'.referred ↔ u ∈ s.referred ∨ u = v := by
    intro u
    rw [hs', List.mem_append, List.mem_singleton]
  have hmove : Moves (s.At slots reads) (s'.At slots reads) v .untaken (.pushing i) := by
    constructor
    case before => exact h.starting i v hstart
    case after =>
      show (s'.transp.pcs i).pushing = some v
      rw [hpcs, Function.update_self]
      rfl
    case leaves => exact fun hv => hv ((hmem v).mpr (Or.inr rfl))
    case others =>
      intro u q hq
      cases q with
      | untaken =>
        show u ∉ s'.referred ↔ u ∉ s.referred
        have huv : u ≠ v := fun huv => hq ⟨huv, Or.inl rfl⟩
        rw [hmem, or_iff_left huv]
      | pushing j =>
        apply pcs_moved (f := TransportPc.pushing) (v := v) hpcs
        · intro w hw
          rw [hbare.pushing]
          exact iff_of_false (fun heq => hw (Option.some.inj heq).symm) nofun
        · rintro ⟨huv, hji⟩
          exact hq ⟨huv, Or.inr (congrArg Place.pushing hji)⟩
      | calling j => exact at_calling hpcs hbare.calling.symm u j
      | flying => exact flying_kept hpcs (by rw [hs']; rfl) (iff_of_false id hbare.clears) u
      | listed => exact Iff.rfl
      | posted | released =>
        rw [hs']
        exact Iff.rfl
  apply h.takes hsend hpcs _ hstart rfl (by rw [hs']; rfl) (by rw [hs'])
    (by rw [hs']; exact h.released_nodup) (by rw [hs']; rfl) hmove
  · apply h.queue_kept hpcs (by rw [hs']; rfl) hbare.queue_op
    exact Or.inr (Or.inr ⟨v, rfl⟩)

/-- `send` cannot write to the buffer that it has created. -/
theorem Ledger.refuse (h : Ledger s slots free reads) (hsend : s.transp.SendInv)
    (hstart : (s.transp.pcs i).starting = some v) (ec : ErrorCode) :
    Ledger { s with
      transp := s.transp.goto i (.send_sub v ec)
      referred := s.referred ++ [v]
      released := s.released ++ [v] } slots free reads := by
  have hbare := TransportPc.bare_of_starting hstart
  have hnot : s.At slots reads v .untaken := h.starting i v hstart
  obtain ⟨s', hs'⟩ : ∃ s' : Lifetime ι, s' = { s with
      transp := s.transp.goto i (.send_sub v ec)
      referred := s.referred ++ [v]
      released := s.released ++ [v] } := ⟨_, rfl⟩
  rw [← hs']
  have hpcs : s'.transp.pcs = Function.update s.transp.pcs i (.send_sub v ec) := by
    rw [hs']
    rfl
  have hmem : ∀ u, u ∈ s'.referred ↔ u ∈ s.referred ∨ u = v := by
    intro u
    rw [hs', List.mem_append, List.mem_singleton]
  have hmem' : ∀ u, u ∈ s'.released ↔ u ∈ s.released ∨ u = v := by
    intro u
    rw [hs', List.mem_append, List.mem_singleton]
  have hmove : Moves (s.At slots reads) (s'.At slots reads) v .untaken .released := by
    constructor
    case before => exact hnot
    case after => exact (hmem' v).mpr (Or.inr rfl)
    case leaves => exact fun hv => hv ((hmem v).mpr (Or.inr rfl))
    case others =>
      intro u q hq
      cases q with
      | untaken =>
        show u ∉ s'.referred ↔ u ∉ s.referred
        have huv : u ≠ v := fun huv => hq ⟨huv, Or.inl rfl⟩
        rw [hmem, or_iff_left huv]
      | released =>
        have huv : u ≠ v := fun huv => hq ⟨huv, Or.inr rfl⟩
        show u ∈ s'.released ↔ u ∈ s.released
        rw [hmem', or_iff_left huv]
      | pushing j => exact at_pushing hpcs hbare.pushing.symm u j
      | calling j => exact at_calling hpcs hbare.calling.symm u j
      | flying => exact flying_kept hpcs (by rw [hs']; rfl) (iff_of_false id hbare.clears) u
      | listed => exact Iff.rfl
      | posted =>
        rw [hs']
        exact Iff.rfl
  apply h.takes hsend hpcs _ hstart rfl (by rw [hs']; rfl) (by rw [hs']) _ (by rw [hs']; rfl) hmove
  · apply h.queue_kept hpcs (by rw [hs']; rfl) hbare.queue_op
    exact Or.inl rfl
  · rw [hs']
    exact h.released_concat hnot nofun

/-- A step of `push` for the buffer. -/
theorem Ledger.push (h : Ledger s slots free reads) (hsend : s.transp.SendInv) {op : Op Nat}
    (hpc : s.transp.pcs i = .send_push v op) (hfresh : op.Fresh s.transp.sendlist s.transp.ops)
    (ok : Bool) :
    ∃ slots' free', Ledger { s with
      transp := (s.transp.sendlist_step ok op).2.goto i
        (match (s.transp.sendlist_step ok op).1 with
          | .goes op => .send_push v op
          | .returns _ => .send_add v) } slots' free' reads := by
  obtain ⟨_, _, _, _, _, _, hst, _⟩ := hsend
  have hvalue := hst.pushes i v op hpc
  have hop : s.transp.ops i = some op := by
    unfold BaseTransport.ops
    rw [hpc]
    rfl
  obtain ⟨slots', free', hinv, hcases⟩ := h.queue.push_step hop hvalue hfresh ok
  obtain ⟨hturn, last, hstate, hlast⟩ := BaseTransport.sendlist_step_spec s.transp ok op
  obtain ⟨turn, hturn'⟩ : ∃ turn, turn = (op.step 8 ok s.transp.sendlist).2 := ⟨_, rfl⟩
  rw [hturn, hstate, ← hturn']
  rw [← hturn'] at hinv hcases hlast
  have hlast₀ : last = s.transp.last_send_iob := by
    rcases hlast with ⟨node, rfl, -⟩ | ⟨-, hsame⟩
    · cases hvalue
    · exact hsame
  rw [hlast₀]
  obtain ⟨p, hp⟩ : ∃ p, p = (match turn with
      | .goes op => TransportPc.send_push v op
      | .returns _ => .send_add v) := ⟨_, rfl⟩
  rw [← hp]
  obtain ⟨s', hs'⟩ : ∃ s' : Lifetime ι, s' = { s with
      transp := ({ s.transp with
        sendlist := (op.step 8 ok s.transp.sendlist).1
        last_send_iob := s.transp.last_send_iob } : BaseTransport ι).goto i p } := ⟨_, rfl⟩
  rw [← hs']
  have hpcs : s'.transp.pcs = Function.update s.transp.pcs i p := by
    rw [hs']
    rfl
  have hsent : s'.transp.sent = s.transp.sent := by
    rw [hs']
    rfl
  have hiobs : s'.transp.iobs = s.transp.iobs := by
    rw [hs']
    rfl
  have hqueue : M2m.Inv 8 s'.transp.sendlist s'.transp.ops slots' free' reads := by
    have hp' : p.queue_op = turn.op := by
      rw [hp]
      rcases turn with op' | res <;> rfl
    rw [BaseTransport.Stock.ops_of_pcs hpcs, hp', hs']
    exact hinv
  have hcalling : p.calling = (s.transp.pcs i).calling := by
    rw [hp, hpc]
    rcases turn with op' | res <;> rfl
  have hflying : ∀ u, s'.transp.Flying reads u ↔ s.transp.Flying reads u := by
    apply flying_kept hpcs (by rw [hs']; rfl)
    rw [hp, hpc]
    rcases turn with op' | res <;> exact Iff.rfl
  have hstarting : p.starting = none := by
    rw [hp]
    rcases turn with op' | res <;> rfl
  have hpushing : (s.transp.pcs i).pushing = if op.pushing.isSome then none else some v := by
    rw [hpc]
    rfl
  refine ⟨slots', free', ?_⟩
  -- by what the step does to the list: the buffer's place follows from it
  rcases hcases with ⟨op', rfl, -, hps, hsame⟩ | ⟨op', node, rfl, -, hps, hps', happ⟩ |
    ⟨rfl, hps, hsame⟩
  · -- no node is reserved by this step
    apply h.stays hpcs hqueue _ (by rw [hs']) (by rw [hs']) hiobs.ge (congrFun hsent) _ hcalling _
      hflying
    · rw [hsame]
    · rw [hpushing, hp, ← hps]
      rfl
    · rw [hstarting]
      nofun
  · -- the buffer has its node in the list now
    have hbefore : s.At slots reads v (.pushing i) := by
      show (s.transp.pcs i).pushing = some v
      rw [hpushing, hps]
      rfl
    have hnone : p.pushing = none := by
      rw [hp]
      simp [TransportPc.pushing, hps']
    have hmem : ∀ u, u ∈ slots'.map Slot.value ↔ u ∈ slots.map Slot.value ∨ u = v := by
      intro u
      rw [happ, List.map_append, List.mem_append]
      exact or_congr_right List.mem_singleton
    have hmove : Moves (s.At slots reads) (s'.At slots' reads) v (.pushing i) .listed := by
      constructor
      case before => exact hbefore
      case after => exact (hmem v).mpr (Or.inr rfl)
      case leaves =>
        show (s'.transp.pcs i).pushing ≠ some v
        rw [hpcs, Function.update_self, hnone]
        nofun
      case others =>
        intro u q hq
        cases q with
        | pushing j =>
          apply pcs_moved (f := TransportPc.pushing) (v := v) hpcs
          · intro w hw
            rw [hnone, hbefore]
            exact iff_of_false nofun (fun heq => hw (Option.some.inj heq).symm)
          · rintro ⟨huv, hji⟩
            exact hq ⟨huv, Or.inl (congrArg Place.pushing hji)⟩
        | listed =>
          have huv : u ≠ v := fun huv => hq ⟨huv, Or.inr rfl⟩
          show u ∈ slots'.map Slot.value ↔ u ∈ slots.map Slot.value
          rw [hmem, or_iff_left huv]
        | calling j => exact at_calling hpcs hcalling u j
        | flying => exact hflying u
        | untaken | posted | released =>
          rw [hs']
          exact Iff.rfl
    apply h.moves hpcs hqueue _ _ (by rw [hs']) _ hiobs hstarting hmove
    · rw [happ, List.map_append]
      show (slots.map Slot.value ++ [v]).Nodup
      rw [← List.concat_eq_append]
      apply h.slots_nodup.concat
      intro hlisted
      have hlisted' : s.At slots reads v .listed := hlisted
      cases h.place.eq hbefore hlisted'
    · rw [hsent]
      exact h.sent_le
    · rw [hs']
      exact h.released_nodup
  · -- the push returns
    apply h.stays hpcs hqueue hsame (by rw [hs']) (by rw [hs']) hiobs.ge (congrFun hsent) _ hcalling
      _ hflying
    · rw [hpushing, if_pos (Option.isSome_iff_ne_none.mpr hps), hp]
      rfl
    · rw [hstarting]
      nofun

/-- A step of the pop in `__send_once`. -/
theorem Ledger.pop (h : Ledger s slots free reads) (hsend : s.transp.SendInv) {w : Sending}
    {op : Op Nat} (hpc : s.transp.pcs i = .once_pop w op) (ok : Bool) :
    ∃ slots' free' reads', Ledger { s with
      transp := (s.transp.sendlist_step ok op).2.goto i
        (match (s.transp.sendlist_step ok op).1 with
          | .goes op => .once_pop w op
          | .returns (.popped _) => .once_size w
          | .returns _ => .aborted) } slots' free' reads' := by
  have hunique := hsend.single.unique
  obtain ⟨_, _, _, _, _, _, hst, hr⟩ := hsend
  obtain ⟨hi, -, hfound, -, -⟩ := BaseTransport.phase_at hr hpc trivial
  obtain ⟨hvalue, hsettled⟩ := hst.pops i w op hpc
  have hop : s.transp.ops i = some op := by
    unfold BaseTransport.ops
    rw [hpc]
    rfl
  have hothers := hst.others_push fun j hji w' op' hpcj => hji <| hunique j i
    (by rw [hpcj]; trivial) hi
  obtain ⟨slots', free', reads', hinv, hcases⟩ :=
    h.queue.pop_step hop hvalue hsettled hothers ok
  obtain ⟨hturn, last, hstate, hlast⟩ := BaseTransport.sendlist_step_spec s.transp ok op
  obtain ⟨turn, hturn'⟩ : ∃ turn, turn = (op.step 8 ok s.transp.sendlist).2 := ⟨_, rfl⟩
  rw [hturn, hstate, ← hturn']
  rw [← hturn'] at hinv hcases hlast
  obtain ⟨p, hp⟩ : ∃ p, p = (match turn with
      | .goes op => TransportPc.once_pop w op
      | .returns (.popped _) => .once_size w
      | .returns _ => .aborted) := ⟨_, rfl⟩
  rw [← hp]
  obtain ⟨s', hs'⟩ : ∃ s' : Lifetime ι, s' = { s with
      transp := ({ s.transp with
        sendlist := (op.step 8 ok s.transp.sendlist).1
        last_send_iob := last } : BaseTransport ι).goto i p } := ⟨_, rfl⟩
  rw [← hs']
  have hpcs : s'.transp.pcs = Function.update s.transp.pcs i p := by
    rw [hs']
    rfl
  have hsent : s'.transp.sent = s.transp.sent := by
    rw [hs']
    rfl
  have hiobs : s'.transp.iobs = s.transp.iobs := by
    rw [hs']
    rfl
  have hplace : p.queue_op = turn.op ∧ p.pushing = none ∧ p.calling = none ∧ ¬ p.clears ∧
      p.starting = none := by
    rw [hp]
    rcases turn with op' | res
    · exact ⟨rfl, rfl, rfl, id, rfl⟩
    · cases res <;> exact ⟨rfl, rfl, rfl, id, rfl⟩
  obtain ⟨hqueue_op, hpushing, hcalling, hclears, hstarting⟩ := hplace
  have hqueue : M2m.Inv 8 s'.transp.sendlist s'.transp.ops slots' free' reads' := by
    rw [BaseTransport.Stock.ops_of_pcs hpcs, hqueue_op, hs']
    exact hinv
  have hpushing' : p.pushing = (s.transp.pcs i).pushing := by
    rw [hpushing, hpc]
    rfl
  have hcalling' : p.calling = (s.transp.pcs i).calling := by
    rw [hcalling, hpc]
    rfl
  have hnone : ∀ u, p.starting = some u → u ∉ s.referred := by
    rw [hstarting]
    nofun
  -- no thread has passed `last_send_iob_` on
  have hclear : ∀ j, ¬ (s.transp.pcs j).clears := by
    intro j hj
    rw [hunique j i (TransportPc.owns_of_clears hj) hi, hpc] at hj
    exact hj
  have hclear' : ∀ j, ¬ (s'.transp.pcs j).clears := by
    apply (clears_same hpcs _).mpr hclear
    exact iff_of_false hclears (hclear i)
  have hbefore : ∀ u, s.transp.Flying reads u ↔
      (∃ j, reads j = some u) ∨ BaseTransport.found op = some u := by
    intro u
    unfold BaseTransport.Flying
    rw [hfound, and_iff_left hclear]
  have hafter : ∀ u, s'.transp.Flying reads' u ↔ (∃ j, reads' j = some u) ∨ last = some u := by
    intro u
    unfold BaseTransport.Flying
    rw [and_iff_left hclear', hs']
    exact Iff.rfl
  have hsame : (∀ node data, turn ≠ .goes (.pop_ready node data)) →
      last = BaseTransport.found op := by
    intro hne
    rcases hlast with ⟨node, -, -, hgoes⟩ | ⟨-, hsame⟩
    · exact absurd hgoes (hne node last)
    · rw [hsame, hfound]
  refine ⟨slots', free', reads', ?_⟩
  rcases hcases with ⟨op', rfl, hvalue', -, hreading, rfl, rfl⟩ |
    ⟨tail, node, v, rfl, rfl, rfl, rfl⟩ | ⟨node, v, rfl, rfl, hv, rfl, rfl⟩ |
    ⟨tail, node, rfl, hready, rfl, rfl, rfl⟩
  · -- the pop goes on
    apply h.stays hpcs hqueue rfl (by rw [hs']) (by rw [hs']) hiobs.ge (congrFun hsent) hpushing'
      hcalling' hnone
    intro u
    have hnofound := BaseTransport.found_of_goes hturn'.symm
    rw [hafter, hbefore, hnofound, or_iff_left (Option.some_ne_none u).symm, or_iff_left_iff_imp]
    intro hu
    rcases hlast with ⟨node, rfl, hdata, -⟩ | ⟨-, hold⟩
    · -- `last_send_iob_` is what is being read
      obtain ⟨-, -, v, hreads, hv⟩ := h.queue.core.taken i node
        ((M2m.Inv.reading_eq hop).trans rfl)
      rw [hdata, hv] at hu
      exact ⟨i, hreads.trans hu⟩
    · rw [hold, hfound, hnofound] at hu
      cases hu
  · -- the buffer is taken out of the list
    have hreads : reads i = none := by
      apply h.queue.core.not_taken
      show M2m.reading (s.transp.ops i) = none
      rw [hop]
      rfl
    have hnodup := h.slots_nodup
    rw [List.map_cons, List.nodup_cons] at hnodup
    have hbefore' : ∀ u, s.transp.Flying reads u ↔ ∃ j, reads j = some u := by
      intro u
      rw [hbefore]
      exact or_iff_left nofun
    have hafter' : ∀ u, s'.transp.Flying (Function.update reads i (some v)) u ↔
        ∃ j, Function.update reads i (some v) j = some u := by
      intro u
      rw [hafter, hsame nofun]
      exact or_iff_left nofun
    have hmove : Moves (s.At (⟨node, v, true⟩ :: slots') reads)
        (s'.At slots' (Function.update reads i (some v))) v .listed .flying := by
      constructor
      case before => exact List.mem_cons_self
      case after => exact (hafter' v).mpr ⟨i, Function.update_self i (some v) reads⟩
      case leaves => exact hnodup.1
      case others =>
        intro u q hq
        cases q with
        | listed =>
          have huv : u ≠ v := fun huv => hq ⟨huv, Or.inl rfl⟩
          show u ∈ slots'.map Slot.value ↔ u ∈ v :: slots'.map Slot.value
          rw [List.mem_cons, or_iff_right huv]
        | flying =>
          have huv : u ≠ v := fun huv => hq ⟨huv, Or.inr rfl⟩
          show s'.transp.Flying _ u ↔ s.transp.Flying reads u
          rw [hafter', hbefore']
          apply exists_congr
          intro j
          by_cases hj : j = i
          · rw [hj, Function.update_self, hreads]
            exact iff_of_false (fun heq => huv (Option.some.inj heq).symm) nofun
          · rw [Function.update_of_ne hj]
        | pushing j => exact at_pushing hpcs hpushing' u j
        | calling j => exact at_calling hpcs hcalling' u j
        | untaken | posted | released =>
          rw [hs']
          exact Iff.rfl
    apply h.moves hpcs hqueue hnodup.2 _ (by rw [hs']) _ hiobs hstarting hmove
    · rw [hsent]
      exact h.sent_le
    · rw [hs']
      exact h.released_nodup
  · -- the pop returns, and the buffer stays in `last_send_iob_`
    apply h.stays hpcs hqueue rfl (by rw [hs']) (by rw [hs']) hiobs.ge (congrFun hsent) hpushing'
      hcalling' hnone
    intro u
    rw [hafter, hbefore, hsame nofun]
    show (∃ j, Function.update reads i none j = some u) ∨ some v = some u ↔
      (∃ j, reads j = some u) ∨ some v = some u
    have hone : ∀ j, reads j = some u → j = i := by
      intro j hj
      exact hunique j i (h.owns_of_reads ⟨_, _, _, _, _, _, hst, hr⟩ hj).1 hi
    constructor
    · rintro (⟨j, hj⟩ | hu)
      · rcases M2m.update_some hj with ⟨-, heq⟩ | ⟨-, hold⟩
        · cases heq
        · exact Or.inl ⟨j, hold⟩
      · exact Or.inr hu
    · rintro (⟨j, hj⟩ | hu)
      · rw [hone j hj, hv] at hj
        exact Or.inr hj
      · exact Or.inr hu
  · -- the pop has found nothing
    apply h.stays hpcs hqueue rfl (by rw [hs']) (by rw [hs']) hiobs.ge (congrFun hsent) hpushing'
      hcalling' hnone
    intro u
    rw [hafter, hbefore, hsame nofun]

/-- What `last_send_iob_` is in `__handle_sent_buffer`: the reference in
    flight, and none is when the thread has passed it on. -/
theorem Ledger.handled (h : Ledger s slots free reads) (hsend : s.transp.SendInv) {w : Sending}
    (hpc : s.transp.pcs i = .handle_sent w) (hlast : s.transp.last_send_iob = some v)
    (hpcs : s'.transp.pcs = Function.update s.transp.pcs i (.handle_clear w)) :
    (∀ u, s.transp.Flying reads u ↔ u = v) ∧ ∀ u, ¬ s'.transp.Flying reads u := by
  have hi : (s.transp.pcs i).owns := by
    rw [hpc]
    trivial
  have hreads := h.reads_none hsend hi (by rw [hpc]; rfl)
  refine ⟨?_, ?_⟩
  · intro u
    constructor
    · rintro (⟨j, hj⟩ | ⟨hu, -⟩)
      · rw [hreads j] at hj
        cases hj
      · rw [hlast] at hu
        exact (Option.some.inj hu).symm
    · rintro rfl
      refine Or.inr ⟨hlast, ?_⟩
      intro j hj
      rw [hsend.single.unique j i (TransportPc.owns_of_clears hj) hi, hpc] at hj
      exact hj
  · rintro u (⟨j, hj⟩ | ⟨-, hclear⟩)
    · rw [hreads j] at hj
      cases hj
    · apply hclear i
      rw [hpcs, Function.update_self]
      trivial

/-- The event is posted, with the reference. -/
theorem Ledger.post (h : Ledger s slots free reads) (hsend : s.transp.SendInv) {w : Sending}
    (hpc : s.transp.pcs i = .handle_sent w) (hlast : s.transp.last_send_iob = some v) :
    Ledger { s with
      transp := ({ s.transp with
        posted := s.transp.posted ++ [channel_event_buffer_sent v] } : BaseTransport ι).goto i
          (.handle_clear w) } slots free reads := by
  obtain ⟨s', hs'⟩ : ∃ s' : Lifetime ι, s' = { s with
      transp := ({ s.transp with
        posted := s.transp.posted ++ [channel_event_buffer_sent v] } : BaseTransport ι).goto i
          (.handle_clear w) } := ⟨_, rfl⟩
  rw [← hs']
  have hpcs : s'.transp.pcs = Function.update s.transp.pcs i (.handle_clear w) := by
    rw [hs']
    rfl
  obtain ⟨hbefore, hafter⟩ := h.handled hsend hpc hlast hpcs
  have hself : s'.transp.sent v = s.transp.sent v + 1 := by
    rw [hs']
    show (s.transp.posted ++ [channel_event_buffer_sent v]).count _ = _
    rw [List.count_append, List.count_singleton_self]
    rfl
  have hother : ∀ u, u ≠ v → s'.transp.sent u = s.transp.sent u := by
    intro u hu
    rw [hs']
    show (s.transp.posted ++ [channel_event_buffer_sent v]).count _ = _
    rw [List.count_append, List.count_singleton, if_neg, Nat.add_zero]
    · rfl
    · simpa using hu.symm
  have hflying : s.At slots reads v .flying := (hbefore v).mpr rfl
  have hzero : s.transp.sent v = 0 := by
    by_contra hne
    have hposted : s.At slots reads v .posted := hne
    cases h.place.eq hflying hposted
  have hmove : Moves (s.At slots reads) (s'.At slots reads) v .flying .posted := by
    constructor
    case before => exact hflying
    case after =>
      show s'.transp.sent v ≠ 0
      omega
    case leaves => exact hafter v
    case others =>
      intro u q hq
      cases q with
      | flying =>
        have huv : u ≠ v := fun huv => hq ⟨huv, Or.inl rfl⟩
        exact iff_of_false (hafter u) (mt (hbefore u).mp huv)
      | posted =>
        have huv : u ≠ v := fun huv => hq ⟨huv, Or.inr rfl⟩
        show s'.transp.sent u ≠ 0 ↔ s.transp.sent u ≠ 0
        rw [hother u huv]
      | pushing j => exact at_pushing hpcs (by rw [hpc]; rfl) u j
      | calling j => exact at_calling hpcs (by rw [hpc]; rfl) u j
      | listed => exact Iff.rfl
      | untaken | released =>
        rw [hs']
        exact Iff.rfl
  apply h.moves hpcs _ h.slots_nodup _ (by rw [hs']) (by rw [hs']; exact h.released_nodup)
    (by rw [hs']; rfl) rfl hmove
  · apply h.queue_kept hpcs (by rw [hs']; rfl) (by rw [hpc]; rfl)
    exact Or.inl rfl
  · intro u
    by_cases huv : u = v
    · rw [huv]
      omega
    · rw [hother u huv]
      exact h.sent_le u

/-- Without `sent_cb`, the reference is released. -/
theorem Ledger.unrefer (h : Ledger s slots free reads) (hsend : s.transp.SendInv) {w : Sending}
    (hpc : s.transp.pcs i = .handle_sent w) (hlast : s.transp.last_send_iob = some v) :
    Ledger { s with
      transp := s.transp.goto i (.handle_clear w)
      released := s.released ++ [v] } slots free reads := by
  obtain ⟨s', hs'⟩ : ∃ s' : Lifetime ι, s' = { s with
      transp := s.transp.goto i (.handle_clear w)
      released := s.released ++ [v] } := ⟨_, rfl⟩
  rw [← hs']
  have hpcs : s'.transp.pcs = Function.update s.transp.pcs i (.handle_clear w) := by
    rw [hs']
    rfl
  obtain ⟨hbefore, hafter⟩ := h.handled hsend hpc hlast hpcs
  have hflying : s.At slots reads v .flying := (hbefore v).mpr rfl
  have hmem : ∀ u, u ∈ s'.released ↔ u ∈ s.released ∨ u = v := by
    intro u
    rw [hs', List.mem_append, List.mem_singleton]
  have hmove : Moves (s.At slots reads) (s'.At slots reads) v .flying .released := by
    constructor
    case before => exact hflying
    case after => exact (hmem v).mpr (Or.inr rfl)
    case leaves => exact hafter v
    case others =>
      intro u q hq
      cases q with
      | flying =>
        have huv : u ≠ v := fun huv => hq ⟨huv, Or.inl rfl⟩
        exact iff_of_false (hafter u) (mt (hbefore u).mp huv)
      | released =>
        have huv : u ≠ v := fun huv => hq ⟨huv, Or.inr rfl⟩
        show u ∈ s'.released ↔ u ∈ s.released
        rw [hmem, or_iff_left huv]
      | pushing j => exact at_pushing hpcs (by rw [hpc]; rfl) u j
      | calling j => exact at_calling hpcs (by rw [hpc]; rfl) u j
      | listed => exact Iff.rfl
      | untaken | posted =>
        rw [hs']
        exact Iff.rfl
  apply h.moves hpcs _ h.slots_nodup (by rw [hs']; exact h.sent_le) (by rw [hs'])
    (by rw [hs']; exact h.released_concat hflying nofun) (by rw [hs']; rfl) rfl hmove
  · apply h.queue_kept hpcs (by rw [hs']; rfl) (by rw [hpc]; rfl)
    exact Or.inl rfl

/-- `last_send_iob_` is cleared when its reference is passed on. -/
theorem Ledger.clear_last (h : Ledger s slots free reads) (hsend : s.transp.SendInv) {w : Sending}
    (hpc : s.transp.pcs i = .handle_clear w) :
    Ledger { s with
      transp := ({ s.transp with last_send_iob := none } : BaseTransport ι).goto i
        (.sub_size w) } slots free reads := by
  obtain ⟨s', hs'⟩ : ∃ s' : Lifetime ι, s' = { s with
      transp := ({ s.transp with last_send_iob := none } : BaseTransport ι).goto i
        (.sub_size w) } := ⟨_, rfl⟩
  rw [← hs']
  have hpcs : s'.transp.pcs = Function.update s.transp.pcs i (.sub_size w) := by
    rw [hs']
    rfl
  have hi : (s.transp.pcs i).owns := by
    rw [hpc]
    trivial
  have hreads := h.reads_none hsend hi (by rw [hpc]; rfl)
  apply h.stays hpcs _ rfl (by rw [hs']) (by rw [hs']) (by rw [hs']; exact le_refl _)
    (by rw [hs']; exact fun _ => rfl) (by rw [hpc]; rfl) (by rw [hpc]; rfl) nofun
  · intro u
    apply iff_of_false
    · rintro (⟨j, hj⟩ | ⟨hu, -⟩)
      · rw [hreads j] at hj
        cases hj
      · rw [hs'] at hu
        cases hu
    · rintro (⟨j, hj⟩ | ⟨-, hclear⟩)
      · rw [hreads j] at hj
        cases hj
      · apply hclear i
        rw [hpc]
        trivial
  · apply h.queue_kept hpcs (by rw [hs']; rfl) (by rw [hpc]; rfl)
    exact Or.inl rfl

/-! ## Section 4: The callback -/

/-- The poller takes the event, and `on_channel_event` has the reference. -/
theorem Ledger.take_event (h : Ledger s slots free reads) (hidle : s.transp.pcs i = .idle)
    (hmem : channel_event_buffer_sent v ∈ s.transp.posted) :
    Ledger { s with
      transp := ({ s.transp with
        posted := s.transp.posted.erase (channel_event_buffer_sent v) } : BaseTransport ι).goto i
          (.call (.sent_cb v)) } slots free reads := by
  obtain ⟨s', hs'⟩ : ∃ s' : Lifetime ι, s' = { s with
      transp := ({ s.transp with
        posted := s.transp.posted.erase (channel_event_buffer_sent v) } : BaseTransport ι).goto i
          (.call (.sent_cb v)) } := ⟨_, rfl⟩
  rw [← hs']
  have hpcs : s'.transp.pcs = Function.update s.transp.pcs i (.call (.sent_cb v)) := by
    rw [hs']
    rfl
  have hself : s'.transp.sent v = s.transp.sent v - 1 := by
    rw [hs']
    show (s.transp.posted.erase (channel_event_buffer_sent v)).count _ = _
    rw [List.count_erase_self]
    rfl
  have hother : ∀ u, u ≠ v → s'.transp.sent u = s.transp.sent u := by
    intro u hu
    rw [hs']
    show (s.transp.posted.erase (channel_event_buffer_sent v)).count _ = _
    rw [List.count_erase_of_ne]
    · rfl
    · simpa using hu
  have hle := h.sent_le v
  have hposted : s.At slots reads v .posted := (List.count_pos_iff.mpr hmem).ne'
  have hmove : Moves (s.At slots reads) (s'.At slots reads) v .posted (.calling i) := by
    constructor
    case before => exact hposted
    case after =>
      show (s'.transp.pcs i).calling = some v
      rw [hpcs, Function.update_self]
      rfl
    case leaves =>
      show ¬ s'.transp.sent v ≠ 0
      omega
    case others =>
      intro u q hq
      cases q with
      | posted =>
        have huv : u ≠ v := fun huv => hq ⟨huv, Or.inl rfl⟩
        show s'.transp.sent u ≠ 0 ↔ s.transp.sent u ≠ 0
        rw [hother u huv]
      | calling j =>
        apply pcs_moved (f := TransportPc.calling) (v := v) hpcs
        · intro w hw
          rw [hidle]
          exact iff_of_false (fun heq => hw (Option.some.inj heq).symm) nofun
        · rintro ⟨huv, hji⟩
          exact hq ⟨huv, Or.inr (congrArg Place.calling hji)⟩
      | pushing j => exact at_pushing hpcs (by rw [hidle]; rfl) u j
      | flying => exact flying_kept hpcs (by rw [hs']; rfl) (by rw [hidle]; exact Iff.rfl) u
      | listed => exact Iff.rfl
      | untaken | released =>
        rw [hs']
        exact Iff.rfl
  apply h.moves hpcs _ h.slots_nodup _ (by rw [hs']) (by rw [hs']; exact h.released_nodup)
    (by rw [hs']; rfl) rfl hmove
  · apply h.queue_kept hpcs (by rw [hs']; rfl) (by rw [hidle]; rfl)
    exact Or.inl rfl
  · intro u
    by_cases huv : u = v
    · rw [huv]
      omega
    · rw [hother u huv]
      exact h.sent_le u

/-- The reference is released after `sent_cb`. -/
theorem Ledger.call (h : Ledger s slots free reads)
    (hpc : s.transp.pcs i = .call (.sent_cb v)) (calls : List TransportCall) :
    Ledger { s with
      transp := ({ s.transp with calls := calls } : BaseTransport ι).goto i .idle
      released := s.released ++ [v] } slots free reads := by
  obtain ⟨s', hs'⟩ : ∃ s' : Lifetime ι, s' = { s with
      transp := ({ s.transp with calls := calls } : BaseTransport ι).goto i .idle
      released := s.released ++ [v] } := ⟨_, rfl⟩
  rw [← hs']
  have hpcs : s'.transp.pcs = Function.update s.transp.pcs i .idle := by
    rw [hs']
    rfl
  have hcalling : s.At slots reads v (.calling i) := by
    show (s.transp.pcs i).calling = some v
    rw [hpc]
    rfl
  have hmem : ∀ u, u ∈ s'.released ↔ u ∈ s.released ∨ u = v := by
    intro u
    rw [hs', List.mem_append, List.mem_singleton]
  -- the reference goes from the callback to those released
  have hmove : Moves (s.At slots reads) (s'.At slots reads) v (.calling i) .released := by
    constructor
    case before => exact hcalling
    case after => exact (hmem v).mpr (Or.inr rfl)
    case leaves =>
      show (s'.transp.pcs i).calling ≠ some v
      rw [hpcs, Function.update_self]
      nofun
    case others =>
      intro u q hq
      cases q with
      | calling j =>
        apply pcs_moved (f := TransportPc.calling) (v := v) hpcs
        · intro w hw
          rw [hpc]
          exact iff_of_false nofun (fun heq => hw (Option.some.inj heq).symm)
        · rintro ⟨huv, hji⟩
          exact hq ⟨huv, Or.inl (congrArg Place.calling hji)⟩
      | released =>
        have huv : u ≠ v := fun huv => hq ⟨huv, Or.inr rfl⟩
        show u ∈ s'.released ↔ u ∈ s.released
        rw [hmem, or_iff_left huv]
      | pushing j => exact at_pushing hpcs (by rw [hpc]; rfl) u j
      | flying => exact flying_kept hpcs (by rw [hs']; rfl) (by rw [hpc]; exact Iff.rfl) u
      | listed => exact Iff.rfl
      | untaken | posted =>
        rw [hs']
        exact Iff.rfl
  apply h.moves hpcs _ h.slots_nodup (by rw [hs']; exact h.sent_le) (by rw [hs'])
    (by rw [hs']; exact h.released_concat hcalling nofun) (by rw [hs']; rfl) rfl hmove
  · apply h.queue_kept hpcs (by rw [hs']; rfl) (by rw [hpc]; rfl)
    exact Or.inl rfl

end

end Lifetime

end Pump
