import Pump.Baton
import Pump.Toolkit.M2mLine
import Pump.Transport.Terminal

/-! # The buffers of a transport

    A buffer goes into `sendlist_` first and is counted in
    `pending_send_size_` after that. Here is what the list, the counter and
    the threads have of the buffers, and what each step of `__async_send` and
    `__send_once` does to that. -/

namespace Pump

open TransportState ErrorCode Tracker
open M2m (Op Ops Slot Turn)

/-! ## Section 1: What a thread has -/

namespace TransportPc

/-- The operation on `sendlist_`. -/
def queue_op : TransportPc → Option (Op Nat)
  | .send_push _ op | .once_pop _ op => some op
  | _ => none

/-- The buffer that is to be counted. -/
def buffer : TransportPc → Option Nat
  | .send_check iob _ | .send_opt iob _ | .send_started iob _ | .send_create iob
  | .send_push iob _ | .send_add iob => some iob
  | _ => none

/-- The buffer that is to be counted and has its node in the list. -/
def uncounted : TransportPc → Option Nat
  | .send_push iob op => if op.pushing.isSome then some iob else none
  | .send_add iob => some iob
  | _ => none

/-- The buffer that is counted next. -/
def adding : TransportPc → Option Nat
  | .send_add iob => some iob
  | _ => none

/-- The thread is the one that sends, from the addition to a counter of zero
    or the event of the poller on. -/
def owns : TransportPc → Prop
  | .once _ | .once_pop _ _ | .once_size _ | .once_want _ | .flow_send _ | .handle_sent _
  | .handle_clear _ | .sub_size _ | .sub _ _ | .start_tracker _ | .event_last => True
  | .sub_compare _ old size => old.toInt > size.toInt
  | _ => False

instance : DecidablePred owns := fun p => by
  apply TransportPc.casesOn (motive := fun p => Decidable (owns p)) p <;> intros <;>
    unfold owns <;> infer_instance

theorem buffer_of_uncounted {p : TransportPc} {v : Nat} (h : p.uncounted = some v) :
    p.buffer = some v := by
  cases p with
  | send_push iob op =>
    simp only [uncounted] at h
    split at h
    · exact h
    · cases h
  | send_add iob => exact h
  | _ => cases h

end TransportPc

namespace BaseTransport

variable {ι : Type}

/-- The operations on `sendlist_`. -/
def ops (s : BaseTransport ι) : Ops ι Nat := fun i => (s.pcs i).queue_op

/-! ## Section 2: The stock -/

/-- The buffer is sent or about to be. -/
def InFlight (s : BaseTransport ι) (reads : ι → Option Nat) (v : Nat) : Prop :=
  s.last_send_iob = some v ∨ s.send_iob = some v ∨ ∃ i, reads i = some v

/-- A buffer of one call of `send`: in the list, those `counted` and the
    others, with the thread that adds it, or in flight. -/
structure Stock (s : BaseTransport ι) (slots : List (Slot Nat)) (free : List Nat)
    (reads : ι → Option Nat) (counted : Finset Nat) : Prop where
  queue : M2m.Inv 8 s.sendlist s.ops slots free reads
  nodup : (slots.map Slot.value).Nodup
  counted_iff : ∀ v, v ∈ counted ↔
    v ∈ slots.map Slot.value ∧ ∀ i, (s.pcs i).uncounted ≠ some v
  stored_lt : ∀ v ∈ slots.map Slot.value, v < s.iobs
  buffer_lt : ∀ i v, (s.pcs i).buffer = some v → v < s.iobs
  buffer_unique : ∀ i j v, (s.pcs i).buffer = some v → (s.pcs j).buffer = some v → i = j
  stored : ∀ i v, (s.pcs i).buffer = some v →
    (v ∈ slots.map Slot.value ↔ (s.pcs i).uncounted = some v)
  pushes : ∀ i iob op, s.pcs i = .send_push iob op → op.value = some iob
  pops : ∀ i w op, s.pcs i = .once_pop w op → op.value = none ∧ op.Settled s.sendlist
  size : ∀ v, (v ∈ slots.map Slot.value ∨ ∃ i, (s.pcs i).buffer = some v) →
    0 < s.iob_size v ∧ s.iob_size v < 2 ^ 31
  flight : ∀ v, s.InFlight reads v →
    v < s.iobs ∧ v ∉ slots.map Slot.value ∧ ∀ i, (s.pcs i).buffer ≠ some v

theorem new_stock : ∃ free, Stock (new : BaseTransport ι) [] free (fun _ => none) ∅ := by
  obtain ⟨free, hinv⟩ := M2m.init_list_inv (τ := Nat) (ι := ι) (N := 8) (by decide) 32
  refine ⟨free, hinv, List.nodup_nil, ?_, nofun, nofun, nofun, nofun, nofun, nofun, ?_, ?_⟩
  · intro v
    constructor
    · intro hv
      exact absurd hv (Finset.notMem_empty v)
    · rintro ⟨hv, -⟩
      cases hv
  · rintro v (hv | ⟨i, hv⟩)
    · cases hv
    · cases hv
  · rintro v (hv | hv | ⟨i, hv⟩)
    all_goals cases hv

namespace Stock

variable {s s' : BaseTransport ι} {slots : List (Slot Nat)} {free : List Nat}
  {reads : ι → Option Nat} {counted : Finset Nat} {i : ι} {p : TransportPc}

/-- A buffer that is counted is not any thread's to count. -/
theorem counted_mem (h : Stock s slots free reads counted) {v : Nat} (hv : v ∈ counted) :
    v ∈ slots.map Slot.value ∧ ∀ j, (s.pcs j).buffer ≠ some v := by
  obtain ⟨hmem, hnone⟩ := (h.counted_iff v).mp hv
  refine ⟨hmem, ?_⟩
  intro j hj
  exact hnone j ((h.stored j v hj).mp hmem)

variable [DecidableEq ι]

theorem ops_of_pcs (hpcs : s'.pcs = Function.update s.pcs i p) :
    s'.ops = Function.update s.ops i p.queue_op := by
  funext j
  unfold ops
  rw [hpcs]
  by_cases hji : j = i
  · rw [hji, Function.update_self, Function.update_self]
  · rw [Function.update_of_ne hji, Function.update_of_ne hji]

/-- What a thread has that is at `p` now, or was not moved. -/
theorem pcs_cases (hpcs : s'.pcs = Function.update s.pcs i p) (j : ι) :
    (j = i ∧ s'.pcs j = p) ∨ (j ≠ i ∧ s'.pcs j = s.pcs j) := by
  rw [hpcs]
  by_cases hji : j = i
  · left
    rw [hji, Function.update_self]
    exact ⟨rfl, rfl⟩
  · right
    rw [Function.update_of_ne hji]
    exact ⟨hji, rfl⟩

/-- A thread has what it had, or less. -/
theorem buffer_cases (hpcs : s'.pcs = Function.update s.pcs i p)
    (hbuffer : ∀ v, p.buffer = some v → (s.pcs i).buffer = some v) (j : ι) (v : Nat)
    (hj : (s'.pcs j).buffer = some v) : (s.pcs j).buffer = some v := by
  rcases pcs_cases hpcs j with ⟨rfl, hpc⟩ | ⟨-, hpc⟩
  · rw [hpc] at hj
    exact hbuffer v hj
  · rwa [hpc] at hj

theorem uncounted_kept (hpcs : s'.pcs = Function.update s.pcs i p)
    (huncounted : p.uncounted = (s.pcs i).uncounted) (j : ι) :
    (s'.pcs j).uncounted = (s.pcs j).uncounted := by
  rcases pcs_cases hpcs j with ⟨rfl, hpc⟩ | ⟨-, hpc⟩
  · rw [hpc, huncounted]
  · rw [hpc]

/-- A step of thread `i`: the list holds no new buffers but its own, and a
    buffer comes into flight from the list. -/
theorem update (h : Stock s slots free reads counted) {slots' : List (Slot Nat)}
    {free' : List Nat} {reads' : ι → Option Nat} {counted' : Finset Nat}
    (hpcs : s'.pcs = Function.update s.pcs i p)
    (hqueue : M2m.Inv 8 s'.sendlist s'.ops slots' free' reads') (hiobs : s'.iobs = s.iobs)
    (hbuffer : ∀ v, p.buffer = some v → (s.pcs i).buffer = some v)
    (hpush : ∀ iob op, p = .send_push iob op → op.value = some iob)
    (hpop : ∀ w op, p = .once_pop w op → op.value = none ∧ op.Settled s'.sendlist)
    (hsettled : ∀ j w op, j ≠ i → s.pcs j = .once_pop w op → op.Settled s'.sendlist)
    (hsize : ∀ v, ¬ s.InFlight reads v → s'.iob_size v = s.iob_size v)
    (hnodup : (slots'.map Slot.value).Nodup)
    (hvalues : ∀ v ∈ slots'.map Slot.value, v ∈ slots.map Slot.value ∨
      (s.pcs i).buffer = some v)
    (hcounted : ∀ v, v ∈ counted' ↔
      v ∈ slots'.map Slot.value ∧ ∀ j, (s'.pcs j).uncounted ≠ some v)
    (hstored : ∀ j v, (s'.pcs j).buffer = some v →
      (v ∈ slots'.map Slot.value ↔ (s'.pcs j).uncounted = some v))
    (hflight : ∀ v, s'.InFlight reads' v →
      (s.InFlight reads v ∧ (s.pcs i).buffer ≠ some v) ∨
        (v ∈ counted ∧ v ∉ slots'.map Slot.value)) :
    Stock s' slots' free' reads' counted' := by
  -- no thread has a buffer that it did not have
  have hbuf := buffer_cases hpcs hbuffer
  have hlt : ∀ v ∈ slots'.map Slot.value, v < s.iobs := by
    intro v hv
    rcases hvalues v hv with hv | hv
    · exact h.stored_lt v hv
    · exact h.buffer_lt i v hv
  constructor
  case queue => exact hqueue
  case nodup => exact hnodup
  case counted_iff => exact hcounted
  case stored_lt =>
    rw [hiobs]
    exact hlt
  case buffer_lt =>
    intro j v hv
    rw [hiobs]
    exact h.buffer_lt j v (hbuf j v hv)
  case buffer_unique =>
    intro j j' v hv hv'
    exact h.buffer_unique j j' v (hbuf j v hv) (hbuf j' v hv')
  case stored => exact hstored
  case pushes =>
    intro j iob op hpc
    rcases pcs_cases hpcs j with ⟨rfl, hj⟩ | ⟨-, hj⟩
    · exact hpush iob op (hj.symm.trans hpc)
    · exact h.pushes j iob op (hj.symm.trans hpc)
  case pops =>
    intro j w op hpc
    rcases pcs_cases hpcs j with ⟨rfl, hj⟩ | ⟨hji, hj⟩
    · exact hpop w op (hj.symm.trans hpc)
    · have hold := hj.symm.trans hpc
      exact ⟨(h.pops j w op hold).1, hsettled j w op hji hold⟩
  case size =>
    intro v hv
    have hv' : v ∈ slots.map Slot.value ∨ ∃ j, (s.pcs j).buffer = some v := by
      rcases hv with hv | ⟨j, hj⟩
      · exact (hvalues v hv).imp_right fun hi => ⟨i, hi⟩
      · exact Or.inr ⟨j, hbuf j v hj⟩
    rw [hsize]
    · exact h.size v hv'
    · -- it is not in flight
      intro hin
      obtain ⟨-, hnot, hnone⟩ := h.flight v hin
      rcases hv' with hv' | ⟨j, hj⟩
      · exact hnot hv'
      · exact hnone j hj
  case flight =>
    intro v hv
    rw [hiobs]
    rcases hflight v hv with ⟨hin, hne⟩ | ⟨hcnt, hnot⟩
    · obtain ⟨hlt', hnot, hnone⟩ := h.flight v hin
      refine ⟨hlt', ?_, ?_⟩
      · intro hmem
        rcases hvalues v hmem with hmem | hmem
        · exact hnot hmem
        · exact hne hmem
      · intro j hj
        exact hnone j (hbuf j v hj)
    · obtain ⟨hmem, hnone⟩ := h.counted_mem hcnt
      refine ⟨h.stored_lt v hmem, hnot, ?_⟩
      intro j hj
      exact hnone j (hbuf j v hj)

/-- A step that leaves the list alone, with what is reserved there: it may
    begin an operation. -/
theorem quiet (h : Stock s slots free reads counted)
    (hpcs : s'.pcs = Function.update s.pcs i p) (hlist : s'.sendlist = s.sendlist)
    (hiobs : s'.iobs = s.iobs) (hold : (s.pcs i).queue_op = none)
    (hpush : ∀ iob op, p = .send_push iob op → op = .push_load iob)
    (hpop : ∀ w op, p = .once_pop w op → op = .pop_load)
    (hbuffer : ∀ v, p.buffer = some v → (s.pcs i).buffer = some v)
    (huncounted : p.uncounted = (s.pcs i).uncounted)
    (hsize : ∀ v, ¬ s.InFlight reads v → s'.iob_size v = s.iob_size v)
    (hflight : ∀ v, s'.InFlight reads v → s.InFlight reads v) :
    Stock s' slots free reads counted := by
  have hunc := uncounted_kept hpcs huncounted
  apply h.update hpcs
  case hqueue =>
    rw [hlist, ops_of_pcs hpcs]
    -- the thread is outside the queue, or enters it here
    rcases hop : p.queue_op with _ | op
    · rw [← hold]
      rw [show Function.update s.ops i (s.pcs i).queue_op = s.ops from
        Function.update_eq_self i s.ops]
      exact h.queue
    · apply h.queue.begin hold
      cases p with
      | send_push iob op' =>
        cases hop
        exact Or.inr ⟨iob, hpush iob op rfl⟩
      | once_pop w op' =>
        cases hop
        exact Or.inl (hpop w op rfl)
      | _ => cases hop
  case hiobs => exact hiobs
  case hbuffer => exact hbuffer
  case hpush =>
    intro iob op hpc
    rw [hpush iob op hpc]
    rfl
  case hpop =>
    intro w op hpc
    rw [hpop w op hpc]
    exact ⟨rfl, trivial, nofun⟩
  case hsettled =>
    intro j w op _ hpc
    rw [hlist]
    exact (h.pops j w op hpc).2
  case hsize => exact hsize
  case hnodup => exact h.nodup
  case hvalues => exact fun v hv => Or.inl hv
  case hcounted =>
    intro v
    simp only [hunc]
    exact h.counted_iff v
  case hstored =>
    intro j v hv
    rw [hunc]
    exact h.stored j v (buffer_cases hpcs hbuffer j v hv)
  case hflight =>
    intro v hv
    have hin := hflight v hv
    exact Or.inl ⟨hin, (h.flight v hin).2.2 i⟩

/-- A step of a push. -/
theorem push (h : Stock s slots free reads counted) {iob : Nat} {op : Op Nat} {ok : Bool}
    (hpc : s.pcs i = .send_push iob op) (hfresh : op.Fresh s.sendlist s.ops)
    (hpcs : s'.pcs = Function.update s.pcs i p)
    (hlist : s'.sendlist = (op.step 8 ok s.sendlist).1)
    (hgoes : ∀ op', (op.step 8 ok s.sendlist).2 = .goes op' → p = .send_push iob op')
    (hreturns : ∀ res, (op.step 8 ok s.sendlist).2 = .returns res → p = .send_add iob)
    (hiobs : s'.iobs = s.iobs) (hsize : s'.iob_size = s.iob_size)
    (hlast : s'.last_send_iob = s.last_send_iob) (hsend : s'.send_iob = s.send_iob) :
    ∃ slots' free', Stock s' slots' free' reads counted := by
  have hval := h.pushes i iob op hpc
  have hne : op.value ≠ none := by
    rw [hval]
    exact Option.some_ne_none iob
  have hop : s.ops i = some op := by
    unfold ops
    rw [hpc]
    rfl
  have hbuf : (s.pcs i).buffer = some iob := by
    rw [hpc]
    rfl
  have hunc : (s.pcs i).uncounted = if op.pushing.isSome then some iob else none := by
    rw [hpc]
    rfl
  obtain ⟨slots', free', hinv, hcases⟩ := h.queue.push_step hop hval hfresh ok
  -- what the thread is at, and what is in the list then
  obtain ⟨hqueue, hbuffer, hvalue, hnot_pop, hfacts⟩ :
      p.queue_op = (op.step 8 ok s.sendlist).2.op ∧ p.buffer = some iob ∧
        (∀ iob' op', p = .send_push iob' op' → op'.value = some iob') ∧
        (∀ w op', p ≠ .once_pop w op') ∧
        ((slots'.map Slot.value = slots.map Slot.value ∧ p.uncounted = (s.pcs i).uncounted) ∨
          (slots'.map Slot.value = slots.map Slot.value ++ [iob] ∧
            (s.pcs i).uncounted = none ∧ p.uncounted = some iob)) := by
    rcases hcases with ⟨op', hturn, hval', hps, rfl⟩ | ⟨op', node, hturn, hval', hps, hps', rfl⟩ |
      ⟨hturn, hps, hsame⟩
    · rw [hgoes op' hturn, hturn]
      refine ⟨rfl, rfl, ?_, nofun, Or.inl ⟨rfl, ?_⟩⟩
      · intro iob' op₁ heq
        cases heq
        exact hval'
      · rw [hunc, ← hps]
        rfl
    · rw [hgoes op' hturn, hturn]
      refine ⟨rfl, rfl, ?_, nofun, Or.inr ⟨?_, ?_, ?_⟩⟩
      · intro iob' op₁ heq
        cases heq
        exact hval'
      · rw [List.map_append]
        rfl
      · rw [hunc, hps]
        rfl
      · simp [TransportPc.uncounted, hps']
    · rw [hreturns _ hturn, hturn]
      refine ⟨rfl, rfl, nofun, nofun, Or.inl ⟨hsame, ?_⟩⟩
      rw [hunc, if_pos (Option.isSome_iff_ne_none.mpr hps)]
      rfl
  have hbuf' : ∀ v, p.buffer = some v → (s.pcs i).buffer = some v := by
    intro v hv
    rw [hbuffer] at hv
    rw [hbuf, hv]
  have hother : ∀ j v, (s'.pcs j).buffer = some v → v ≠ iob → j ≠ i := by
    intro j v hv hvi hji
    have hv' := buffer_cases hpcs hbuf' j v hv
    rw [hji, hbuf] at hv'
    cases hv'
    exact hvi rfl
  have hself : s'.pcs i = p := by
    rw [hpcs, Function.update_self]
  refine ⟨slots', free', ?_⟩
  apply h.update hpcs
  case hqueue =>
    rw [hlist, ops_of_pcs hpcs, hqueue]
    exact hinv
  case hiobs => exact hiobs
  case hbuffer => exact hbuf'
  case hpush => exact hvalue
  case hpop =>
    intro w op' heq
    exact absurd heq (hnot_pop w op')
  case hsettled =>
    intro j w op' _ hpc'
    rw [hlist]
    exact h.queue.settled_kept hop hne (h.pops j w op' hpc').2 ok
  case hsize =>
    intro v _
    rw [hsize]
  case hflight =>
    intro v hv
    unfold InFlight at hv
    rw [hlast, hsend] at hv
    exact Or.inl ⟨hv, (h.flight v hv).2.2 i⟩
  all_goals
    rcases hfacts with ⟨hsame, hunc'⟩ | ⟨happ, hnone, hunc'⟩
  case hnodup.inl =>
    rw [hsame]
    exact h.nodup
  case hnodup.inr =>
    rw [happ, List.nodup_append]
    refine ⟨h.nodup, List.nodup_singleton iob, ?_⟩
    intro v hv w hw heq
    rw [List.mem_singleton] at hw
    have hmem := (h.stored i iob hbuf).mp (hw ▸ heq ▸ hv)
    rw [hnone] at hmem
    cases hmem
  case hvalues.inl =>
    intro v hv
    rw [hsame] at hv
    exact Or.inl hv
  case hvalues.inr =>
    intro v hv
    rw [happ, List.mem_append, List.mem_singleton] at hv
    rcases hv with hv | rfl
    · exact Or.inl hv
    · exact Or.inr hbuf
  case hcounted.inl =>
    intro v
    simp only [uncounted_kept hpcs hunc', hsame]
    exact h.counted_iff v
  case hcounted.inr =>
    intro v
    rw [h.counted_iff, happ, List.mem_append, List.mem_singleton]
    constructor
    · rintro ⟨hv, hall⟩
      refine ⟨Or.inl hv, ?_⟩
      intro j hj
      rcases pcs_cases hpcs j with ⟨rfl, hpc'⟩ | ⟨-, hpc'⟩
      · rw [hpc', hunc'] at hj
        cases hj
        have hmem := (h.stored j _ hbuf).mp hv
        exact hall j hmem
      · rw [hpc'] at hj
        exact hall j hj
    · rintro ⟨hv | rfl, hall⟩
      · refine ⟨hv, ?_⟩
        intro j hj
        rcases pcs_cases hpcs j with ⟨rfl, -⟩ | ⟨-, hpc'⟩
        · rw [hnone] at hj
          cases hj
        · exact hall j (hpc' ▸ hj)
      · exact absurd hunc' (hself ▸ hall i)
  case hstored.inl =>
    intro j v hv
    rw [uncounted_kept hpcs hunc', hsame]
    exact h.stored j v (buffer_cases hpcs hbuf' j v hv)
  case hstored.inr =>
    intro j v hv
    rw [happ, List.mem_append, List.mem_singleton]
    by_cases hvi : v = iob
    · have hji : j = i := by
        apply h.buffer_unique j i v (buffer_cases hpcs hbuf' j v hv)
        rw [hvi]
        exact hbuf
      rw [hji, hself, hunc', hvi]
      exact ⟨fun _ => rfl, fun _ => Or.inr rfl⟩
    · have hji := hother j v hv hvi
      have hpcj : s'.pcs j = s.pcs j := by
        rw [hpcs, Function.update_of_ne hji]
      rw [hpcj] at hv ⊢
      rw [← h.stored j v hv]
      simp [hvi]

/-- The buffer of the thread is counted. -/
theorem count (h : Stock s slots free reads counted) {iob : Nat} (hpc : s.pcs i = .send_add iob)
    (hpcs : s'.pcs = Function.update s.pcs i p) (hlist : s'.sendlist = s.sendlist)
    (hqueue : p.queue_op = none) (hbuffer : p.buffer = none) (hunc : p.uncounted = none)
    (hiobs : s'.iobs = s.iobs) (hsize : s'.iob_size = s.iob_size)
    (hlast : s'.last_send_iob = s.last_send_iob) (hsend : s'.send_iob = s.send_iob) :
    iob ∉ counted ∧ Stock s' slots free reads (insert iob counted) := by
  have hbuf : (s.pcs i).buffer = some iob := by
    rw [hpc]
    rfl
  have hunc₀ : (s.pcs i).uncounted = some iob := by
    rw [hpc]
    rfl
  have hstored := (h.stored i iob hbuf).mpr hunc₀
  -- no other thread has this buffer
  have hothers : ∀ j, j ≠ i → (s.pcs j).buffer ≠ some iob := by
    intro j hji hj
    exact hji (h.buffer_unique j i iob hj hbuf)
  have hself : s'.pcs i = p := by
    rw [hpcs, Function.update_self]
  have hbuf' : ∀ v, p.buffer = some v → (s.pcs i).buffer = some v := by
    intro v hv
    rw [hbuffer] at hv
    cases hv
  refine ⟨?_, ?_⟩
  · intro hmem
    exact ((h.counted_iff iob).mp hmem).2 i hunc₀
  · apply h.update hpcs
    case hqueue =>
      have hnone : (s.pcs i).queue_op = none := by
        rw [hpc]
        rfl
      rw [hlist, ops_of_pcs hpcs, hqueue, ← hnone,
        show Function.update s.ops i (s.pcs i).queue_op = s.ops from
          Function.update_eq_self i s.ops]
      exact h.queue
    case hiobs => exact hiobs
    case hbuffer => exact hbuf'
    case hpush =>
      intro iob' op heq
      rw [heq] at hqueue
      cases hqueue
    case hpop =>
      intro w op heq
      rw [heq] at hqueue
      cases hqueue
    case hsettled =>
      intro j w op _ hpc'
      rw [hlist]
      exact (h.pops j w op hpc').2
    case hsize =>
      intro v _
      rw [hsize]
    case hnodup => exact h.nodup
    case hvalues => exact fun v hv => Or.inl hv
    case hcounted =>
      intro v
      rw [Finset.mem_insert, h.counted_iff]
      constructor
      · -- counted now, or counted before
        rintro (rfl | ⟨hv, hall⟩)
        · refine ⟨hstored, ?_⟩
          intro j hj
          rcases pcs_cases hpcs j with ⟨-, hpc'⟩ | ⟨hji, hpc'⟩
          · rw [hpc', hunc] at hj
            cases hj
          · rw [hpc'] at hj
            exact hothers j hji (TransportPc.buffer_of_uncounted hj)
        · refine ⟨hv, ?_⟩
          intro j hj
          rcases pcs_cases hpcs j with ⟨-, hpc'⟩ | ⟨-, hpc'⟩
          · rw [hpc', hunc] at hj
            cases hj
          · rw [hpc'] at hj
            exact hall j hj
      · rintro ⟨hv, hall⟩
        by_cases hvi : v = iob
        · exact Or.inl hvi
        · refine Or.inr ⟨hv, ?_⟩
          intro j hj
          rcases pcs_cases hpcs j with ⟨rfl, -⟩ | ⟨-, hpc'⟩
          · rw [hunc₀] at hj
            cases hj
            exact hvi rfl
          · exact hall j (hpc' ▸ hj)
    case hstored =>
      intro j v hv
      rcases pcs_cases hpcs j with ⟨-, hpc'⟩ | ⟨-, hpc'⟩
      · rw [hpc', hbuffer] at hv
        cases hv
      · rw [hpc'] at hv ⊢
        exact h.stored j v hv
    case hflight =>
      intro v hv
      unfold InFlight at hv
      rw [hlast, hsend] at hv
      exact Or.inl ⟨hv, (h.flight v hv).2.2 i⟩

omit [DecidableEq ι] in
/-- A full slot that nobody counts next is counted. -/
theorem counted_of_full (h : Stock s slots free reads counted) {node v : Nat}
    (hslot : ⟨node, v, true⟩ ∈ slots)
    (hclear : ∀ j iob, (s.pcs j).adding = some iob → s.sendlist.data node ≠ some iob) :
    v ∈ counted := by
  rw [h.counted_iff]
  refine ⟨List.mem_map_of_mem hslot, ?_⟩
  intro j hj
  cases hpc : s.pcs j with
  | send_push iob op =>
    -- the slot of a push is not full
    rw [hpc] at hj
    simp only [TransportPc.uncounted] at hj
    split at hj
    · next hps =>
      cases hj
      obtain ⟨⟨node', w⟩, hps'⟩ := Option.isSome_iff_exists.mp hps
      have hw := M2m.Op.value_of_pushing hps'
      rw [h.pushes j v op hpc] at hw
      cases hw
      have hop : s.ops j = some op := by
        unfold ops
        rw [hpc]
        rfl
      have hmem := h.queue.core.pushes j node' v ((M2m.Inv.pushing_eq hop).trans hps')
      have heq := List.inj_on_of_nodup_map h.nodup hmem hslot rfl
      cases heq
    · cases hj
  | send_add iob =>
    rw [hpc] at hj
    cases hj
    apply hclear j v
    · rw [hpc]
      rfl
    · exact (h.queue.core.full node v hslot).2.1
  | _ =>
    rw [hpc] at hj
    cases hj

omit [DecidableEq ι] in
/-- Beside a thread that pops alone, the others push. -/
theorem others_push (h : Stock s slots free reads counted)
    (hothers : ∀ j, j ≠ i → ∀ w op, s.pcs j ≠ .once_pop w op) :
    ∀ j op', j ≠ i → s.ops j = some op' → op'.value ≠ none := by
  intro j op' hji hj
  unfold ops at hj
  cases hpcj : s.pcs j with
  | send_push iob op =>
    rw [hpcj] at hj
    cases hj
    rw [h.pushes j iob op' hpcj]
    exact Option.some_ne_none iob
  | once_pop w op => exact absurd hpcj (hothers j hji w op)
  | _ =>
    rw [hpcj] at hj
    cases hj

/-- A step of the only pop. -/
theorem pop (h : Stock s slots free reads counted) {w : Sending} {op : Op Nat} {ok : Bool}
    (hpc : s.pcs i = .once_pop w op)
    (hothers : ∀ j, j ≠ i → ∀ w' op', s.pcs j ≠ .once_pop w' op')
    (hclear : ∀ tail node, op = .pop_exchange tail node →
      ∀ j iob, (s.pcs j).adding = some iob → s.sendlist.data node ≠ some iob)
    (hpcs : s'.pcs = Function.update s.pcs i p)
    (hlist : s'.sendlist = (op.step 8 ok s.sendlist).1)
    (hgoes : ∀ op', (op.step 8 ok s.sendlist).2 = .goes op' → p = .once_pop w op')
    (hreturns : ∀ res, (op.step 8 ok s.sendlist).2 = .returns res →
      p.queue_op = none ∧ p.buffer = none)
    (hiobs : s'.iobs = s.iobs) (hsize : s'.iob_size = s.iob_size)
    (hsend : s'.send_iob = s.send_iob)
    (hlast : ∀ v, s'.last_send_iob = some v → s.last_send_iob = some v ∨
      ∃ node, op = .pop_data node ∧ s.sendlist.data node = some v) :
    ∃ slots' free' reads' counted', Stock s' slots' free' reads' counted' ∧
      ((∃ op', (op.step 8 ok s.sendlist).2 = .goes op' ∧ op'.reading = op.reading ∧
          counted' = counted ∧ reads' = reads) ∨
        (∃ node v, (op.step 8 ok s.sendlist).2 = .goes (.pop_data node) ∧ op.reading = none ∧
          v ∈ counted ∧ counted' = counted.erase v ∧
          reads' = Function.update reads i (some v)) ∨
        (∃ node v, op = .pop_ready node (some v) ∧
          (op.step 8 ok s.sendlist).2 = .returns (.popped (some v)) ∧ reads i = some v ∧
          counted' = counted ∧ reads' = Function.update reads i none) ∨
        (∃ tail node, op = .pop_check tail node ∧ s.sendlist.ready node = false ∧
          (op.step 8 ok s.sendlist).2 = .returns .empty ∧ counted' = counted ∧
          reads' = reads)) := by
  obtain ⟨hnone, hsettled⟩ := h.pops i w op hpc
  have hop : s.ops i = some op := by
    unfold ops
    rw [hpc]
    rfl
  have hbuf : (s.pcs i).buffer = none := by
    rw [hpc]
    rfl
  have hunc : (s.pcs i).uncounted = none := by
    rw [hpc]
    rfl
  have hvalues := h.others_push hothers
  obtain ⟨slots', free', reads', hinv, hcases⟩ := h.queue.pop_step hop hnone hsettled hvalues ok
  -- where the thread is then
  have hpc' : p.queue_op = (op.step 8 ok s.sendlist).2.op ∧ p.buffer = none ∧
      p.uncounted = none := by
    rcases hturn : (op.step 8 ok s.sendlist).2 with op' | res
    · rw [hgoes op' hturn]
      exact ⟨rfl, rfl, rfl⟩
    · obtain ⟨hq, hb⟩ := hreturns res hturn
      refine ⟨hq, hb, ?_⟩
      rcases hu : p.uncounted with _ | v
      · rfl
      · rw [TransportPc.buffer_of_uncounted hu] at hb
        cases hb
  obtain ⟨hqueue, hbuffer, huncounted⟩ := hpc'
  have hunc' := uncounted_kept hpcs (huncounted.trans hunc.symm)
  have hbuf' : ∀ v, p.buffer = some v → (s.pcs i).buffer = some v := by
    intro v hv
    rw [hbuffer] at hv
    cases hv
  have hin : ∀ v, s'.last_send_iob = some v ∨ s'.send_iob = some v → s.InFlight reads v := by
    rintro v (hv | hv)
    · rcases hlast v hv with hv | ⟨node, rfl, hdata⟩
      · exact Or.inl hv
      · -- the element that is being read
        obtain ⟨-, -, v', hreads, hv'⟩ := h.queue.core.taken i node
          ((M2m.Inv.reading_eq hop).trans rfl)
        rw [hdata] at hv'
        cases hv'
        exact Or.inr (Or.inr ⟨i, hreads⟩)
    · rw [hsend] at hv
      exact Or.inr (Or.inl hv)
  have hne : ∀ v, (s.pcs i).buffer ≠ some v := by
    intro v hv
    rw [hbuf] at hv
    cases hv
  have hsame : ∀ (slots' : List (Slot Nat)) (free' : List Nat) (reads' : ι → Option Nat)
      (counted' : Finset Nat),
      M2m.Inv 8 (op.step 8 ok s.sendlist).1
        (Function.update s.ops i (op.step 8 ok s.sendlist).2.op) slots' free' reads' →
      (slots'.map Slot.value).Sublist (slots.map Slot.value) →
      (∀ v, v ∈ counted' ↔ v ∈ counted ∧ v ∈ slots'.map Slot.value) →
      (∀ v, v ∈ slots.map Slot.value → v ∉ slots'.map Slot.value → v ∈ counted) →
      (∀ j v, reads' j = some v → reads j = some v ∨
        v ∈ slots.map Slot.value ∧ v ∉ slots'.map Slot.value) →
      (∀ w' op', p = .once_pop w' op' → op'.value = none ∧
        op'.Settled (op.step 8 ok s.sendlist).1) →
      Stock s' slots' free' reads' counted' := by
    intro slots' free' reads' counted' hinv hsub hcounted hgone hreads hpop
    apply h.update hpcs
    case hqueue =>
      rw [hlist, ops_of_pcs hpcs, hqueue]
      exact hinv
    case hiobs => exact hiobs
    case hbuffer => exact hbuf'
    case hpush =>
      intro iob op' heq
      rw [heq] at hbuffer
      cases hbuffer
    case hpop =>
      intro w' op' heq
      rw [hlist]
      exact hpop w' op' heq
    case hsettled =>
      intro j w' op' hji hpcj
      exact absurd hpcj (hothers j hji w' op')
    case hsize =>
      intro v _
      rw [hsize]
    case hnodup => exact hsub.nodup h.nodup
    case hvalues => exact fun v hv => Or.inl (hsub.subset hv)
    case hcounted =>
      intro v
      rw [hcounted, h.counted_iff]
      simp only [hunc']
      constructor
      · rintro ⟨⟨-, hall⟩, hv⟩
        exact ⟨hv, hall⟩
      · rintro ⟨hv, hall⟩
        exact ⟨⟨hsub.subset hv, hall⟩, hv⟩
    case hstored =>
      intro j v hv
      have hvj := buffer_cases hpcs hbuf' j v hv
      rw [hunc', ← h.stored j v hvj]
      constructor
      · intro hmem
        exact hsub.subset hmem
      · intro hmem
        by_contra hnot
        exact (h.counted_mem (hgone v hmem hnot)).2 j hvj
    case hflight =>
      rintro v (hv | hv | ⟨j, hv⟩)
      · exact Or.inl ⟨hin v (Or.inl hv), hne v⟩
      · exact Or.inl ⟨hin v (Or.inr hv), hne v⟩
      · rcases hreads j v hv with hv | ⟨hv, hnot⟩
        · exact Or.inl ⟨Or.inr (Or.inr ⟨j, hv⟩), hne v⟩
        · exact Or.inr ⟨hgone v hv hnot, hnot⟩
  have hkeep : ∀ v, v ∈ counted ↔ v ∈ counted ∧ v ∈ slots.map Slot.value := by
    intro v
    constructor
    · intro hv
      exact ⟨hv, (h.counted_mem hv).1⟩
    · exact And.left
  rcases hcases with ⟨op', hturn, hnone', hsettled', hread, rfl, rfl⟩ |
    ⟨tail, node, v, rfl, hturn, rfl, rfl⟩ | ⟨node, v, rfl, hturn, hreads, rfl, rfl⟩ |
    ⟨tail, node, rfl, hready, hturn, rfl, rfl⟩
  · refine ⟨slots', free', reads', counted, ?_, Or.inl ⟨op', hturn, hread, rfl, rfl⟩⟩
    apply hsame _ _ _ _ hinv (List.Sublist.refl _) hkeep
    · intro v hv hnot
      exact absurd hv hnot
    · exact fun j v hv => Or.inl hv
    · intro w' op₁ heq
      rw [hgoes op' hturn] at heq
      cases heq
      exact ⟨hnone', hsettled'⟩
  · -- the first slot is taken
    have hv := h.counted_of_full List.mem_cons_self (hclear tail node rfl)
    have hnodup := h.nodup
    rw [List.map_cons, List.nodup_cons] at hnodup
    refine ⟨slots', free', _, counted.erase v, ?_,
      Or.inr (Or.inl ⟨node, v, hturn, rfl, hv, rfl, rfl⟩)⟩
    apply hsame _ _ _ _ hinv
    · rw [List.map_cons]
      exact List.sublist_cons_self _ _
    · intro u
      rw [Finset.mem_erase]
      constructor
      · rintro ⟨hne, hu⟩
        have hmem := (h.counted_mem hu).1
        rw [List.map_cons, List.mem_cons] at hmem
        exact ⟨hu, hmem.resolve_left hne⟩
      · rintro ⟨hu, hmem⟩
        refine ⟨?_, hu⟩
        rintro rfl
        exact hnodup.1 hmem
    · intro u hu hnot
      rw [List.map_cons, List.mem_cons] at hu
      rcases hu with rfl | hu
      · exact hv
      · exact absurd hu hnot
    · intro j u hu
      rcases M2m.update_some hu with ⟨-, heq⟩ | ⟨-, hold⟩
      · cases heq
        exact Or.inr ⟨List.mem_cons_self, hnodup.1⟩
      · exact Or.inl hold
    · intro w' op₁ heq
      rw [hgoes _ hturn] at heq
      cases heq
      exact ⟨rfl, trivial, nofun⟩
  · refine ⟨slots', free', _, counted, ?_,
      Or.inr (Or.inr (Or.inl ⟨node, v, rfl, hturn, hreads, rfl, rfl⟩))⟩
    apply hsame _ _ _ _ hinv (List.Sublist.refl _) hkeep
    · intro v hv hnot
      exact absurd hv hnot
    · intro j u hu
      rcases M2m.update_some hu with ⟨-, heq⟩ | ⟨-, hold⟩
      · cases heq
      · exact Or.inl hold
    · intro w' op₁ heq
      have hq := (hreturns _ hturn).1
      rw [heq] at hq
      cases hq
  · refine ⟨slots', free', reads', counted, ?_,
      Or.inr (Or.inr (Or.inr ⟨tail, node, rfl, hready, hturn, rfl, rfl⟩))⟩
    apply hsame _ _ _ _ hinv (List.Sublist.refl _) hkeep
    · intro v hv hnot
      exact absurd hv hnot
    · exact fun j v hv => Or.inl hv
    · intro w' op₁ heq
      have hq := (hreturns _ hturn).1
      rw [heq] at hq
      cases hq

/-- A new buffer. -/
theorem create (h : Stock s slots free reads counted) {size : Nat} (hidle : s.pcs i = .idle)
    (hpcs : s'.pcs = Function.update s.pcs i p) (hlist : s'.sendlist = s.sendlist)
    (hqueue : p.queue_op = none) (hunc : p.uncounted = none)
    (hbuffer : ∀ v, p.buffer = some v → v = s.iobs ∧ 0 < size ∧ size < 2 ^ 31)
    (hiobs : s'.iobs = s.iobs + 1)
    (hsize : s'.iob_size = Function.update s.iob_size s.iobs size)
    (hlast : s'.last_send_iob = s.last_send_iob) (hsend : s'.send_iob = s.send_iob) :
    Stock s' slots free reads counted := by
  have hunc₀ : (s.pcs i).uncounted = none := by
    rw [hidle]
    rfl
  have hunc' := uncounted_kept hpcs (hunc.trans hunc₀.symm)
  -- the buffers of the others are older
  have hbuf : ∀ j v, (s'.pcs j).buffer = some v →
      (j = i ∧ v = s.iobs ∧ 0 < size ∧ size < 2 ^ 31) ∨
        (j ≠ i ∧ (s.pcs j).buffer = some v ∧ v < s.iobs) := by
    intro j v hv
    rcases pcs_cases hpcs j with ⟨hji, hpc'⟩ | ⟨hji, hpc'⟩
    · rw [hpc'] at hv
      exact Or.inl ⟨hji, hbuffer v hv⟩
    · rw [hpc'] at hv
      exact Or.inr ⟨hji, hv, h.buffer_lt j v hv⟩
  have hold : ∀ v, v < s.iobs → s'.iob_size v = s.iob_size v := by
    intro v hv
    rw [hsize, Function.update_of_ne (by omega)]
  constructor
  case queue =>
    have hnone : (s.pcs i).queue_op = none := by
      rw [hidle]
      rfl
    rw [hlist, ops_of_pcs hpcs, hqueue, ← hnone,
      show Function.update s.ops i (s.pcs i).queue_op = s.ops from
        Function.update_eq_self i s.ops]
    exact h.queue
  case nodup => exact h.nodup
  case counted_iff =>
    intro v
    simp only [hunc']
    exact h.counted_iff v
  case stored_lt =>
    intro v hv
    have hlt := h.stored_lt v hv
    omega
  case buffer_lt =>
    intro j v hv
    rcases hbuf j v hv with ⟨-, hvi, -⟩ | ⟨-, -, hlt⟩
    · omega
    · omega
  case buffer_unique =>
    intro j j' v hv hv'
    rcases hbuf j v hv with ⟨hj, hvi, -⟩ | ⟨-, hv, hlt⟩
    · rcases hbuf j' v hv' with ⟨hj', -⟩ | ⟨-, -, hlt'⟩
      · rw [hj, hj']
      · omega
    · rcases hbuf j' v hv' with ⟨-, hvi, -⟩ | ⟨-, hv', -⟩
      · omega
      · exact h.buffer_unique j j' v hv hv'
  case stored =>
    intro j v hv
    rw [hunc']
    rcases hbuf j v hv with ⟨rfl, rfl, -⟩ | ⟨-, hv, -⟩
    · rw [hunc₀]
      constructor
      · intro hmem
        exact absurd (h.stored_lt _ hmem) (Nat.lt_irrefl _)
      · nofun
    · exact h.stored j v hv
  case pushes =>
    intro j iob op hpc
    rcases pcs_cases hpcs j with ⟨-, hj⟩ | ⟨-, hj⟩
    · rw [hj] at hpc
      rw [hpc] at hqueue
      cases hqueue
    · exact h.pushes j iob op (hj.symm.trans hpc)
  case pops =>
    intro j w op hpc
    rw [hlist]
    rcases pcs_cases hpcs j with ⟨-, hj⟩ | ⟨-, hj⟩
    · rw [hj] at hpc
      rw [hpc] at hqueue
      cases hqueue
    · exact h.pops j w op (hj.symm.trans hpc)
  case size =>
    rintro v (hv | ⟨j, hv⟩)
    · rw [hold v (h.stored_lt v hv)]
      exact h.size v (Or.inl hv)
    · rcases hbuf j v hv with ⟨-, rfl, hpos⟩ | ⟨-, hv, hlt⟩
      · rw [hsize, Function.update_self]
        exact hpos
      · rw [hold v hlt]
        exact h.size v (Or.inr ⟨j, hv⟩)
  case flight =>
    intro v hv
    unfold InFlight at hv
    rw [hlast, hsend] at hv
    obtain ⟨hlt, hnot, hnone⟩ := h.flight v hv
    refine ⟨by omega, hnot, ?_⟩
    intro j hj
    rcases hbuf j v hj with ⟨-, hvi, -⟩ | ⟨-, hj, -⟩
    · omega
    · exact hnone j hj

end Stock

end BaseTransport

end Pump
