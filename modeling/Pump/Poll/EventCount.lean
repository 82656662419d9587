import Pump.Lts
import Pump.Poll.Poller
import Pump.Toolkit.M2mLine

/-! # The counts of a poller

    An event is counted after its push has returned, and a node may be
    reserved earlier by a push that has not: then the poller pops as many
    events as are counted and finds that the next node is not ready. Where the
    events are counted in the order of their nodes, it does not. -/

namespace Pump

open M2m (Op Ops Turn Slot)

/-! ## Section 1: What the threads hold -/

/-- The operation on a queue. -/
def PushPc.op (kind : EventKind) : PushPc → Option (Op Nat)
  | .push k _ op => if k = kind then some op else none
  | _ => none

/-- The event that is being pushed or is to be counted. -/
def PushPc.event (kind : EventKind) : PushPc → Option Nat
  | .started k ev | .push k ev _ | .add k ev => if k = kind then some ev else none
  | .idle => none

def WorkerPc.op (kind : EventKind) : WorkerPc → Option (Op Nat)
  | .pop k _ op => if k = kind then some op else none
  | _ => none

/-- How many events the thread of the poller still has to take. -/
def WorkerPc.left (kind : EventKind) : WorkerPc → Nat
  | .handle k cnt => if k = kind then cnt.toNat else 0
  | .pop k cnt op =>
    if k = kind then if op.reading = none then cnt.toNat else cnt.toNat - 1 else 0
  | _ => 0

namespace Poller

variable {ι : Type}

/-- The operations on a queue, that of the poller under `none`. -/
def ops (s : Poller ι) (kind : EventKind) : Ops (Option ι) Nat
  | none => s.worker.op kind
  | some i => (s.pcs i).op kind

def holds (s : Poller ι) (kind : EventKind) : Option ι → Option Nat
  | none => none
  | some i => (s.pcs i).event kind

/-- The condition on a step: the compare and exchange of a push is right, and
    an event is counted when those reserved before it are. -/
def PcInOrder (s : Poller ι) : PushPc → Prop
  | .push kind _ op => op.Fresh (s.events kind) (s.ops kind)
  | .add kind ev => (s.uncounted kind).head? = some ev
  | _ => True

def InOrder (s : Poller ι) : PollerLabel ι → Prop
  | .step i _ => s.PcInOrder (s.pcs i)
  | _ => True

instance [Fintype ι] (s : Poller ι) : DecidablePred s.PcInOrder := fun pc => by
  cases pc <;> unfold PcInOrder <;> infer_instance

instance [Fintype ι] (s : Poller ι) : DecidablePred s.InOrder := fun l => by
  cases l <;> unfold InOrder <;> infer_instance

/-! ## Section 2: The invariant -/

/-- Of the elements of a queue as many are counted as the counter and the
    poller say, or more. -/
def Counted (s : Poller ι) (kind : EventKind) : Prop :=
  ∃ slots free reads counted,
    M2m.Inv 1024 (s.events kind) (s.ops kind) slots free reads ∧
      M2m.Line (s.holds kind) slots counted (s.uncounted kind) ∧
      (∀ ev ∈ counted, ev < s.created) ∧
      (s.cnt kind).toInt.toNat + s.worker.left kind ≤ counted.length

structure EventInv (s : Poller ι) : Prop where
  counted : ∀ kind, s.Counted kind
  events_lt : ∀ i kind ev, (s.pcs i).event kind = some ev → ev < s.created
  values : ∀ i kind ev op, s.pcs i = .push kind ev op → op.value = some ev
  pops : ∀ kind cnt op, s.worker = .pop kind cnt op →
    0 < cnt ∧ op.value = none ∧ op.Sound (s.events kind)
  not_aborted : s.worker ≠ .aborted

theorem construct_inv : EventInv (construct : Poller ι) := by
  refine ⟨?_, nofun, nofun, nofun, nofun⟩
  intro kind
  obtain ⟨free, hinv⟩ := M2m.init_list_inv (τ := Nat) (ι := Option ι) (N := 1024) (by decide) 1024
  have hops : (construct : Poller ι).ops kind = fun _ => none := by
    funext j
    rcases j with _ | i
    all_goals rfl
  refine ⟨[], free, fun _ => none, [], ?_, ⟨rfl, ?_, nofun⟩, nofun, le_rfl⟩
  · rw [hops]
    exact hinv
  · intro i j v hi
    rcases i with _ | i
    all_goals cases hi


/-! ## Section 3: The steps -/

variable {s s' : Poller ι} {kind : EventKind} {i : ι} {ev : Nat} {op : Op Nat}

/-- A queue that a step does not touch. -/
theorem Counted.congr (h : s.Counted kind) (hcnt : s'.cnt kind = s.cnt kind)
    (hevents : s'.events kind = s.events kind) (hops : s'.ops kind = s.ops kind)
    (hholds : ∀ j v, s'.holds kind j = some v → s.holds kind j = some v)
    (huncounted : s'.uncounted kind = s.uncounted kind)
    (hleft : s'.worker.left kind ≤ s.worker.left kind) (hcreated : s.created ≤ s'.created) :
    s'.Counted kind := by
  obtain ⟨slots, free, reads, counted, hinv, hline, hlt, hcount⟩ := h
  refine ⟨slots, free, reads, counted, ?_, ?_, ?_, ?_⟩
  · rw [hevents, hops]
    exact hinv
  · rw [huncounted]
    exact hline.mono hholds
  · intro v hv
    exact (hlt v hv).trans_le hcreated
  · rw [hcnt]
    omega

/-- The events of a queue are different for different threads, and none of
    them is counted. -/
theorem EventInv.push_ops (h : EventInv s) {j : Option ι} {op : Op Nat} {v : Nat}
    (hj : s.ops kind j = some op) (hv : op.value = some v) : s.holds kind j = some v := by
  rcases j with _ | j
  · have hw : s.worker.op kind = some op := hj
    unfold WorkerPc.op at hw
    split at hw
    · next k cnt op' hpc =>
      split at hw
      · next hk =>
        cases hw
        obtain ⟨-, hnone, -⟩ := h.pops k cnt op hpc
        rw [hnone] at hv
        cases hv
      · cases hw
    · cases hw
  · have hp : (s.pcs j).op kind = some op := hj
    show (s.pcs j).event kind = some v
    unfold PushPc.op at hp
    split at hp
    · next k ev op' hpc =>
      split at hp
      · next hk =>
        cases hp
        rw [h.values j k ev op hpc] at hv
        cases hv
        rw [hpc]
        exact if_pos hk
      · cases hp
    · cases hp

/-- Only the poller pops. -/
theorem EventInv.value_ne_none (h : EventInv s) {j : Option ι} (hj : j ≠ none)
    (hop : s.ops kind j = some op) : op.value ≠ none := by
  rcases j with _ | j
  · exact absurd rfl hj
  · have hp : (s.pcs j).op kind = some op := hop
    unfold PushPc.op at hp
    split at hp
    · next k ev op' hpc =>
      split at hp
      · cases hp
        rw [h.values j k ev op hpc]
        exact Option.some_ne_none ev
      · cases hp
    · cases hp

/-- The next node is ready when the poller comes to pop. -/
theorem EventInv.ready {cnt : Int} (h : EventInv s) (hw : s.worker = .pop kind cnt op)
    (hread : op.reading = none) :
    (s.events kind).ready ((s.events kind).next (s.events kind).tail) = true := by
  obtain ⟨slots, free, reads, counted, hinv, hline, -, hcount⟩ := h.counted kind
  apply hline.first_ready hinv
  · intro j op' v hj hv
    exact h.push_ops hj hv
  · have hpos := (h.pops kind cnt op hw).1
    rw [hw] at hcount
    intro hnil
    rw [hnil, List.length_nil, WorkerPc.left, if_pos rfl, if_pos hread] at hcount
    omega

/-- A step of the poller on one queue. -/
theorem EventInv.worker (h : EventInv s) (kind : EventKind) (hpcs : s'.pcs = s.pcs) (hcreated : s'.created = s.created)
    (huncounted : s'.uncounted = s.uncounted)
    (hother : ∀ k, k ≠ kind → s'.cnt k = s.cnt k ∧ s'.events k = s.events k ∧
      s'.worker.op k = s.worker.op k ∧ s'.worker.left k ≤ s.worker.left k)
    (hcounted : s'.Counted kind)
    (hpops : ∀ k cnt op, s'.worker = .pop k cnt op →
      0 < cnt ∧ op.value = none ∧ op.Sound (s'.events k))
    (hnot : s'.worker ≠ .aborted) : EventInv s' := by
  refine ⟨?_, ?_, ?_, hpops, hnot⟩
  · intro k
    by_cases hk : k = kind
    · rw [hk]
      exact hcounted
    · obtain ⟨hcnt, hevents, hop, hleft⟩ := hother k hk
      apply (h.counted k).congr hcnt hevents
      · funext j
        rcases j with _ | j
        · exact hop
        · show (s'.pcs j).op k = _
          rw [hpcs]
          rfl
      · intro j v hj
        rcases j with _ | j
        · cases hj
        · have hj' : (s'.pcs j).event k = some v := hj
          rw [hpcs] at hj'
          exact hj'
      · rw [huncounted]
      · exact hleft
      · exact hcreated.ge
  · intro j k ev hj
    rw [hpcs] at hj
    rw [hcreated]
    exact h.events_lt j k ev hj
  · intro j k ev op hj
    rw [hpcs] at hj
    exact h.values j k ev op hj

variable [DecidableEq ι]

theorem ops_of_pcs {pc : PushPc} (hpcs : s'.pcs = Function.update s.pcs i pc)
    (hworker : s'.worker = s.worker) (kind : EventKind) :
    s'.ops kind = Function.update (s.ops kind) (some i) (pc.op kind) := by
  funext j
  rcases j with _ | j
  · show s'.worker.op kind = _
    rw [hworker]
    rfl
  · show (s'.pcs j).op kind = _
    rw [hpcs]
    by_cases hji : j = i
    · rw [hji, Function.update_self, Function.update_self]
    · rw [Function.update_of_ne hji, Function.update_of_ne (by simpa using hji)]
      rfl

theorem holds_of_pcs {pc : PushPc} (hpcs : s'.pcs = Function.update s.pcs i pc)
    (kind : EventKind) :
    s'.holds kind = Function.update (s.holds kind) (some i) (pc.event kind) := by
  funext j
  rcases j with _ | j
  · rfl
  · show (s'.pcs j).event kind = _
    rw [hpcs]
    by_cases hji : j = i
    · rw [hji, Function.update_self, Function.update_self]
    · rw [Function.update_of_ne hji, Function.update_of_ne (by simpa using hji)]
      rfl

/-- The thread goes on with its operation. -/
theorem ops_kept {pc : PushPc} (hpcs : s'.pcs = Function.update s.pcs i pc)
    (hworker : s'.worker = s.worker) (hop : pc.op kind = (s.pcs i).op kind) :
    s'.ops kind = s.ops kind := by
  rw [ops_of_pcs hpcs hworker, hop]
  exact Function.update_eq_self (some i) (s.ops kind)

/-- The thread keeps its event or lets go of it. -/
theorem holds_mono {pc : PushPc} (hpcs : s'.pcs = Function.update s.pcs i pc)
    (hev : ∀ v, pc.event kind = some v → (s.pcs i).event kind = some v) (j : Option ι) (v : Nat)
    (hj : s'.holds kind j = some v) : s.holds kind j = some v := by
  rw [holds_of_pcs hpcs] at hj
  rcases M2m.update_some hj with ⟨hji, hv⟩ | ⟨-, hv⟩
  · rw [hji]
    exact hev v hv
  · exact hv

/-- A step of a push on its queue. -/
theorem Counted.push (h : s.Counted kind) (hop : s.ops kind (some i) = some op)
    (hev : op.value = some ev) (hfresh : op.Fresh (s.events kind) (s.ops kind)) (ok : Bool)
    (hcnt : s'.cnt kind = s.cnt kind)
    (hevents : s'.events kind = (op.step 1024 ok (s.events kind)).1)
    (hops : s'.ops kind =
      Function.update (s.ops kind) (some i) (op.step 1024 ok (s.events kind)).2.op)
    (hholds : s'.holds kind = s.holds kind)
    (hgoes : ∀ op', (op.step 1024 ok (s.events kind)).2 = .goes op' →
      s'.uncounted kind = if op.reserves op' then s.uncounted kind ++ [ev] else s.uncounted kind)
    (hreturns : ∀ res, (op.step 1024 ok (s.events kind)).2 = .returns res →
      s'.uncounted kind = s.uncounted kind)
    (hworker : s'.worker = s.worker) (hcreated : s'.created = s.created) : s'.Counted kind := by
  obtain ⟨slots, free, reads, counted, hinv, hline, hlt, hcount⟩ := h
  obtain ⟨slots', free', reads', hinv', heff⟩ := hinv.step hop hfresh ok
  have hcount' : (s'.cnt kind).toInt.toNat + s'.worker.left kind ≤ counted.length := by
    rw [hcnt, hworker]
    exact hcount
  rw [← hevents, ← hops] at hinv'
  have hdone : M2m.Line (s.holds kind) slots' counted (s'.uncounted kind) → s'.Counted kind := by
    intro hline'
    refine ⟨slots', free', reads', counted, hinv', ?_, ?_, hcount'⟩
    · rw [hholds]
      exact hline'
    · rw [hcreated]
      exact hlt
  apply hdone
  rcases hline.step rfl heff with ⟨hline', -, op', hturn, hres, -⟩ |
    ⟨op', v, hturn, hres, hv, -, hline'⟩ | ⟨node, v, -, hnone, -⟩ | ⟨hline', res, hturn⟩
  · rw [hgoes op' hturn, hres]
    exact hline'
  · rw [hev] at hv
    cases hv
    rw [hgoes op' hturn, hres]
    exact hline'
  · rw [hev] at hnone
    cases hnone
  · rw [hreturns res hturn]
    exact hline'

theorem toInt_add_one_le (cnt : BitVec 32) : (cnt + 1).toInt.toNat ≤ cnt.toInt.toNat + 1 := by
  have hone : (1 : BitVec 32).toNat = 1 := rfl
  rw [BitVec.toInt_eq_toNat_cond, BitVec.toInt_eq_toNat_cond, BitVec.toNat_add, hone]
  have hlt := cnt.isLt
  split
  · split
    · omega
    · omega
  · omega

/-- The first event that is not counted is counted. -/
theorem Counted.add (h : s.Counted kind) (hholds : s.holds kind (some i) = some ev)
    (hlt : ev < s.created) (hhead : (s.uncounted kind).head? = some ev)
    (hcnt : s'.cnt kind = s.cnt kind + 1) (hevents : s'.events kind = s.events kind)
    (hops : s'.ops kind = s.ops kind)
    (hholds' : s'.holds kind = Function.update (s.holds kind) (some i) none)
    (huncounted : s'.uncounted kind = (s.uncounted kind).erase ev)
    (hworker : s'.worker = s.worker) (hcreated : s'.created = s.created) : s'.Counted kind := by
  obtain ⟨slots, free, reads, counted, hinv, hline, hall, hcount⟩ := h
  obtain ⟨rest, hrest⟩ : ∃ rest, s.uncounted kind = ev :: rest := by
    rcases hunc : s.uncounted kind with _ | ⟨v, rest⟩
    · rw [hunc] at hhead
      cases hhead
    · rw [hunc] at hhead
      cases hhead
      exact ⟨rest, rfl⟩
  rw [hrest] at hline huncounted
  rw [List.erase_cons_head] at huncounted
  refine ⟨slots, free, reads, counted ++ [ev], ?_, ?_, ?_, ?_⟩
  · rw [hevents, hops]
    exact hinv
  · rw [hholds', huncounted]
    exact hline.count hholds
  · intro v hv
    rw [hcreated]
    rw [List.mem_append, List.mem_singleton] at hv
    rcases hv with hv | rfl
    · exact hall v hv
    · exact hlt
  · rw [hcnt, hworker, List.length_append, List.length_singleton]
    have hone := toInt_add_one_le (s.cnt kind)
    omega

theorem pop_inv {cnt : Int} (h : EventInv s) (hw : s.worker = .pop kind cnt op)
    (hstep : s.work s.worker = some s') : EventInv s' := by
  obtain ⟨hpos, hnone, hsound⟩ := h.pops kind cnt op hw
  have hop : s.ops kind none = some op := by
    show s.worker.op kind = some op
    rw [hw]
    exact if_pos rfl
  have hready := h.ready hw
  have hfresh : op.Fresh (s.events kind) (s.ops kind) := by
    apply Op.fresh_of_sound hnone hsound hop
    · intro j op' hj hop'
      exact h.value_ne_none hj hop'
    · exact hready
  have hpop := op.pop_step 1024 true hnone hsound hready
  obtain ⟨slots, free, reads, counted, hinv, hline, hlt, hcount⟩ := h.counted kind
  obtain ⟨slots', free', reads', hinv', heff⟩ := hinv.step hop hfresh true
  have hstepped := hline.step rfl heff
  rw [hw, WorkerPc.left, if_pos rfl] at hcount
  obtain ⟨⟨q, turn⟩, hr⟩ : ∃ r, r = op.step 1024 true (s.events kind) := ⟨_, rfl⟩
  rw [← hr] at hinv' heff hstepped hpop
  simp only at hinv' heff hstepped hpop
  obtain ⟨hpcs, hcreated, huncounted, hcnt, hevents, hworker⟩ : s'.pcs = s.pcs ∧
      s'.created = s.created ∧ s'.uncounted = s.uncounted ∧ s'.cnt = s.cnt ∧
      s'.events = Function.update s.events kind q ∧ s'.worker = after_pop kind cnt turn := by
    rw [hw] at hstep
    simp only [work, queue_step, ← hr] at hstep
    cases hstep
    exact ⟨rfl, rfl, rfl, rfl, rfl, rfl⟩
  have hq : s'.events kind = q := by
    rw [hevents, Function.update_self]
  have hothers : ∀ k, k ≠ kind → (∀ w, s'.worker = w → w.op k = none ∧ w.left k = 0) →
      s'.cnt k = s.cnt k ∧ s'.events k = s.events k ∧ s'.worker.op k = s.worker.op k ∧
        s'.worker.left k ≤ s.worker.left k := by
    intro k hk hnone'
    obtain ⟨hop', hleft⟩ := hnone' _ rfl
    refine ⟨by rw [hcnt], by rw [hevents, Function.update_of_ne hk], ?_, by omega⟩
    rw [hop', hw]
    exact (if_neg hk.symm).symm
  -- the counted events of the queue
  have hcounted : ∀ counted', M2m.Line (s.holds kind) slots' counted' (s.uncounted kind) →
      s'.worker.op kind = turn.op → (∀ ev ∈ counted', ev < s.created) →
      (s.cnt kind).toInt.toNat + s'.worker.left kind ≤ counted'.length → s'.Counted kind := by
    intro counted' hline' hop' hlt' hcount'
    have hops : s'.ops kind = Function.update (s.ops kind) none turn.op := by
      funext j
      rcases j with _ | j
      · rw [Function.update_self]
        exact hop'
      · rw [Function.update_of_ne (Option.some_ne_none j)]
        show (s'.pcs j).op kind = _
        rw [hpcs]
        rfl
    have hholds : s'.holds kind = s.holds kind := by
      funext j
      rcases j with _ | j
      · rfl
      · show (s'.pcs j).event kind = _
        rw [hpcs]
        rfl
    refine ⟨slots', free', reads', counted', ?_, ?_, ?_, ?_⟩
    · rw [hq, hops]
      exact hinv'
    · rw [hholds, huncounted]
      exact hline'
    · rw [hcreated]
      exact hlt'
    · rw [hcnt]
      exact hcount'
  rcases hpop with ⟨op', hgoes, hnone', hsound'⟩ | ⟨hread, data, hreturns⟩
  · have hpc : s'.worker = .pop kind cnt op' := by
      rw [hworker, hgoes]
      rfl
    have hop' : s'.worker.op kind = turn.op := by
      rw [hpc, hgoes]
      exact if_pos rfl
    apply h.worker kind hpcs hcreated huncounted
    · intro k hk
      apply hothers k hk
      rintro w rfl
      rw [hpc]
      exact ⟨if_neg hk.symm, if_neg hk.symm⟩
    · rcases hstepped with ⟨hline', -, op₁, hturn, -, hrd⟩ | ⟨op₁, v, -, -, hv, -⟩ |
        ⟨node, v, hturn, -, hrd, -, hall⟩ | ⟨-, res, hturn⟩
      · rw [hgoes] at hturn
        cases hturn
        apply hcounted counted hline' hop' hlt
        rw [hpc, WorkerPc.left, if_pos rfl, hrd]
        exact hcount
      · rw [hnone] at hv
        cases hv
      · rw [hgoes] at hturn
        cases hturn
        rw [if_pos hrd] at hcount
        rcases counted with _ | ⟨v', counted'⟩
        · rw [List.length_nil] at hcount
          omega
        · obtain ⟨rfl, hrest⟩ := List.cons.inj hall
          apply hcounted counted' ⟨hrest.symm, hline.unique, ?_⟩ hop'
          · intro ev hev
            exact hlt ev (List.mem_cons_of_mem _ hev)
          · rw [hpc, WorkerPc.left, if_pos rfl, 
              if_neg (show (Op.pop_data node : Op Nat).reading ≠ none from Option.some_ne_none node)]
            rw [List.length_cons] at hcount
            omega
          · intro ev hev
            exact hline.finished ev (List.mem_cons_of_mem _ hev)
      · rw [hgoes] at hturn
        cases hturn
    · intro k c op₁ hw'
      rw [hpc] at hw'
      cases hw'
      rw [hq]
      exact ⟨hpos, hnone', hsound'⟩
    · rw [hpc]
      simp
  · have hpc : s'.worker = .handle kind (cnt - 1) := by
      rw [hworker, hreturns]
      rfl
    apply h.worker kind hpcs hcreated huncounted
    · intro k hk
      apply hothers k hk
      rintro w rfl
      rw [hpc]
      exact ⟨rfl, if_neg hk.symm⟩
    · rcases hstepped with ⟨-, -, op₁, hturn, -⟩ | ⟨op₁, v, hturn, -⟩ | ⟨node, v, hturn, -⟩ |
        ⟨hline', -⟩
      · rw [hreturns] at hturn
        cases hturn
      · rw [hreturns] at hturn
        cases hturn
      · rw [hreturns] at hturn
        cases hturn
      · apply hcounted counted hline' _ hlt
        · rw [hpc, WorkerPc.left, if_pos rfl]
          rw [if_neg hread] at hcount
          omega
        · rw [hpc, hreturns]
          rfl
    · intro k c op₁ hw'
      rw [hpc] at hw'
      cases hw'
    · rw [hpc]
      simp

/-- The poller begins to pop. -/
theorem Counted.begin {cnt : Int} (h : s.Counted kind) (hw : s.worker = .handle kind cnt) :
    ({ s with worker := .pop kind cnt .pop_load } : Poller ι).Counted kind := by
  obtain ⟨slots, free, reads, counted, hinv, hline, hlt, hcount⟩ := h
  have hnone : s.ops kind none = none := by
    show s.worker.op kind = none
    rw [hw]
    rfl
  have hops : ({ s with worker := .pop kind cnt .pop_load } : Poller ι).ops kind =
      Function.update (s.ops kind) none (some .pop_load) := by
    funext j
    rcases j with _ | j
    · rw [Function.update_self]
      exact if_pos rfl
    · rw [Function.update_of_ne (Option.some_ne_none j)]
      rfl
  have hholds : ({ s with worker := .pop kind cnt .pop_load } : Poller ι).holds kind =
      s.holds kind := by
    funext j
    rcases j with _ | j
    all_goals rfl
  refine ⟨slots, free, reads, counted, ?_, ?_, hlt, ?_⟩
  · rw [hops]
    exact hinv.begin hnone (Or.inl rfl)
  · rw [hholds]
    exact hline
  · rw [hw] at hcount
    rw [WorkerPc.left, if_pos rfl] at hcount
    rw [WorkerPc.left, if_pos rfl, if_pos (show (Op.pop_load : Op Nat).reading = none from rfl)]
    exact hcount

omit [DecidableEq ι] in
/-- A step of the poller outside its pops, which has taken what the counter says. -/
theorem EventInv.turned (h : EventInv s) {cnt : EventKind → BitVec 32} {w : WorkerPc}
    (hold : ∀ k, s.worker.op k = none) (hnew : ∀ k, w.op k = none)
    (hleft : ∀ k, (cnt k).toInt.toNat + w.left k ≤ (s.cnt k).toInt.toNat + s.worker.left k)
    (hpop : ∀ k c op, w ≠ .pop k c op) (hnot : w ≠ .aborted) :
    EventInv ({ s with cnt := cnt, worker := w } : Poller ι) := by
  refine ⟨?_, h.events_lt, h.values, ?_, hnot⟩
  · intro k
    obtain ⟨slots, free, reads, counted, hinv, hline, hlt, hcount⟩ := h.counted k
    have hops : ({ s with cnt := cnt, worker := w } : Poller ι).ops k = s.ops k := by
      funext j
      rcases j with _ | j
      · exact (hnew k).trans (hold k).symm
      · rfl
    have hholds : ({ s with cnt := cnt, worker := w } : Poller ι).holds k = s.holds k := by
      funext j
      rcases j with _ | j
      all_goals rfl
    refine ⟨slots, free, reads, counted, ?_, ?_, hlt, (hleft k).trans hcount⟩
    · rw [hops]
      exact hinv
    · rw [hholds]
      exact hline
  · intro k c op hw
    exact absurd hw (hpop k c op)

omit [DecidableEq ι] in
/-- The poller goes on to the other queue or to the next round. -/
theorem EventInv.moved (h : EventInv s) {w : WorkerPc} (hold : ∀ k, s.worker.op k = none)
    (hw : w = .exited ∨ w = .loop ∨ ∃ k, w = .exchange k) :
    EventInv ({ s with worker := w } : Poller ι) := by
  rcases hw with rfl | rfl | ⟨k', rfl⟩
  all_goals
    apply h.turned hold
    · intro k
      rfl
    · intro k
      exact Nat.add_le_add_left (Nat.zero_le _) _
    · exact nofun
    · exact nofun

/-- A step of the loop of the poller. -/
theorem work_inv (h : EventInv s) (hstep : s.work s.worker = some s') : EventInv s' := by
  rcases hw : s.worker with _ | _ | kind | ⟨kind, cnt⟩ | ⟨kind, cnt, op⟩ | _
  case exited =>
    rw [hw] at hstep
    cases hstep
  case loop =>
    rw [hw] at hstep
    cases hstep
    apply h.moved
    · rw [hw]
      intro k
      rfl
    · split
      · exact Or.inr (Or.inr ⟨_, rfl⟩)
      · exact Or.inl rfl
  case exchange =>
    -- all the events counted are taken over at once
    rw [hw] at hstep
    cases hstep
    apply h.turned
    · rw [hw]
      intro k
      rfl
    · intro k
      rfl
    · intro k
      rw [hw]
      by_cases hk : k = kind
      · rw [hk, Function.update_self, WorkerPc.left, if_pos rfl]
        exact (Nat.zero_add _).le
      · rw [Function.update_of_ne hk, WorkerPc.left, if_neg (Ne.symm hk)]
        exact le_rfl
    · exact nofun
    · exact nofun
  case handle =>
    -- one pop for each of them, then the next kind
    rw [hw] at hstep
    cases hstep
    split
    · next hpos =>
      refine h.worker kind ?_ ?_ ?_ ?_ ?_ ?_ ?_
      any_goals rfl
      · intro k hk
        rw [hw]
        refine ⟨rfl, rfl, if_neg hk.symm, ?_⟩
        show (if kind = k then _ else 0) ≤ _
        rw [if_neg hk.symm]
        exact Nat.zero_le _
      · exact (h.counted kind).begin hw
      · intro k c op hw'
        cases hw'
        exact ⟨hpos, rfl, trivial⟩
      · exact nofun
    · apply h.moved
      · rw [hw]
        intro k
        rfl
      · rcases kind with _ | _
        · exact Or.inr (Or.inr ⟨_, rfl⟩)
        · exact Or.inr (Or.inl rfl)
  case pop => exact pop_inv h hw hstep
  case aborted => exact absurd hw h.not_aborted

/-- A step of a thread that pushes an event. -/
theorem EventInv.thread (h : EventInv s) {pc : PushPc} (hpcs : s'.pcs = Function.update s.pcs i pc)
    (hcreated : s.created ≤ s'.created) (hworker : s'.worker = s.worker)
    (hcounted : ∀ k, s'.Counted k)
    (hlt : ∀ k ev, pc.event k = some ev → ev < s'.created)
    (hvalue : ∀ k ev op, pc = .push k ev op → op.value = some ev)
    (hsound : ∀ k (op : Op Nat), op.Sound (s.events k) → op.Sound (s'.events k)) : EventInv s' := by
  refine ⟨hcounted, ?_, ?_, ?_, ?_⟩
  · intro j k ev hj
    rw [hpcs] at hj
    by_cases hji : j = i
    · rw [hji, Function.update_self] at hj
      exact hlt k ev hj
    · rw [Function.update_of_ne hji] at hj
      exact (h.events_lt j k ev hj).trans_le hcreated
  · intro j k ev op hj
    rw [hpcs] at hj
    by_cases hji : j = i
    · rw [hji, Function.update_self] at hj
      exact hvalue k ev op hj
    · rw [Function.update_of_ne hji] at hj
      exact h.values j k ev op hj
  · intro k cnt op hw
    rw [hworker] at hw
    obtain ⟨hpos, hnone, hs⟩ := h.pops k cnt op hw
    exact ⟨hpos, hnone, hsound k op hs⟩
  · rw [hworker]
    exact h.not_aborted

theorem enter_inv (h : EventInv s) (hstep : s.enter i kind = some s') : EventInv s' := by
  obtain ⟨hidle, hpcs, hcreated, hworker, hcnt, hevents, huncounted⟩ : s.pcs i = .idle ∧
      s'.pcs = Function.update s.pcs i (.started kind s.created) ∧ s'.created = s.created + 1 ∧
      s'.worker = s.worker ∧ s'.cnt = s.cnt ∧ s'.events = s.events ∧
      s'.uncounted = s.uncounted := by
    unfold enter at hstep
    split at hstep
    · next hidle =>
      cases hstep
      exact ⟨hidle, rfl, rfl, rfl, rfl, rfl, rfl⟩
    · cases hstep
  -- the new event is larger than all that have been made
  have hlt' : ∀ k j v, s.holds k j = some v → v < s.created := by
    intro k j v hj
    rcases j with _ | j
    · cases hj
    · exact h.events_lt j k v hj
  refine h.thread hpcs (by omega) hworker ?_ ?_ nofun ?_
  · intro k
    obtain ⟨slots, free, reads, counted, hinv, hline, hlt, hcount⟩ := h.counted k
    refine ⟨slots, free, reads, counted, ?_, ?_, ?_, ?_⟩
    · rw [hevents, ops_kept hpcs hworker]
      · exact hinv
      · rw [hidle]
        rfl
    · rw [huncounted, holds_of_pcs hpcs]
      by_cases hk : kind = k
      · rw [PushPc.event, if_pos hk]
        apply hline.begin
        · intro j hj
          exact Nat.lt_irrefl _ (hlt' k j _ hj)
        · intro hmem
          exact Nat.lt_irrefl _ (hlt _ hmem)
      · rw [PushPc.event, if_neg hk]
        apply hline.mono
        intro j v hj
        rcases M2m.update_some hj with ⟨-, hv⟩ | ⟨-, hv⟩
        · cases hv
        · exact hv
    · intro v hv
      have hvlt := hlt v hv
      omega
    · rw [hcnt, hworker]
      exact hcount
  · intro k ev hev
    rw [PushPc.event] at hev
    split at hev
    · cases hev
      omega
    · cases hev
  · intro k op hs
    rw [hevents]
    exact hs

/-- A thread goes on with its push or gives it up before it begins. -/
theorem started_inv {ok : Bool} {ev : Nat} (h : EventInv s) (hpc : s.pcs i = .started kind ev)
    (hstep : s.action i ok (s.pcs i) = some s') : EventInv s' := by
  obtain ⟨pc, hor, hpcs, hcreated, hworker, hcnt, hevents, huncounted⟩ :
      ∃ pc, (pc = .push kind ev (.push_load ev) ∨ pc = .idle) ∧
      s'.pcs = Function.update s.pcs i pc ∧ s'.created = s.created ∧
      s'.worker = s.worker ∧ s'.cnt = s.cnt ∧ s'.events = s.events ∧
      s'.uncounted = s.uncounted := by
    rw [hpc] at hstep
    cases hstep
    refine ⟨_, ?_, rfl, rfl, rfl, rfl, rfl, rfl⟩
    split
    · exact Or.inl rfl
    · exact Or.inr rfl
  -- the thread holds the event it held, or lets go of it
  have hevent : ∀ k v, pc.event k = some v → (s.pcs i).event k = some v := by
    intro k v hv
    rw [hpc]
    rcases hor with rfl | rfl
    · exact hv
    · cases hv
  refine h.thread hpcs hcreated.ge hworker ?_ ?_ ?_ ?_
  · intro k
    obtain ⟨slots, free, reads, counted, hinv, hline, hlt, hcount⟩ := h.counted k
    have hnone : s.ops k (some i) = none := by
      show (s.pcs i).op k = none
      rw [hpc]
      rfl
    refine ⟨slots, free, reads, counted, ?_, ?_, ?_, ?_⟩
    · rw [hevents, ops_of_pcs hpcs hworker]
      rcases hop : pc.op k with _ | op
      · rw [← hnone, Function.update_eq_self]
        exact hinv
      · apply hinv.begin hnone
        rcases hor with rfl | rfl
        · rw [PushPc.op] at hop
          split at hop
          · cases hop
            exact Or.inr ⟨ev, rfl⟩
          · cases hop
        · cases hop
    · rw [huncounted]
      exact hline.mono (holds_mono hpcs (hevent k))
    · rw [hcreated]
      exact hlt
    · rw [hcnt, hworker]
      exact hcount
  · intro k v hv
    rw [hcreated]
    exact h.events_lt i k v (hevent k v hv)
  · intro k ev' op heq
    rcases hor with rfl | rfl
    · cases heq
      rfl
    · cases heq
  · intro k op hs
    rw [hevents]
    exact hs

/-- A push on a queue goes on or returns. -/
theorem push_inv {ok : Bool} (h : EventInv s) (hpc : s.pcs i = .push kind ev op)
    (hfresh : op.Fresh (s.events kind) (s.ops kind))
    (hstep : s.action i ok (s.pcs i) = some s') : EventInv s' := by
  have hop : s.ops kind (some i) = some op := by
    show (s.pcs i).op kind = some op
    rw [hpc]
    exact if_pos rfl
  have hev := h.values i kind ev op hpc
  have hlt : ev < s.created := by
    apply h.events_lt i kind ev
    rw [hpc]
    exact if_pos rfl
  have hkept : (op.step 1024 ok (s.events kind)).1.tail = (s.events kind).tail ∧
      (op.step 1024 ok (s.events kind)).1.next (s.events kind).tail =
        (s.events kind).next (s.events kind).tail := by
    obtain ⟨slots, free, reads, counted, hinv, -⟩ := h.counted kind
    apply hinv.front_kept hop
    rw [hev]
    exact Option.some_ne_none ev
  -- what the step leaves as it is, and where the thread goes
  obtain ⟨pc, hpc', hevent, hvalue, hpcs, hcreated, hworker, hcnt, hevents, hgoes, hreturns, huncounted⟩ :
      ∃ pc : PushPc, (pc.op kind = (op.step 1024 ok (s.events kind)).2.op ∧
          ∀ k, k ≠ kind → pc.op k = none) ∧
        (∀ k, pc.event k = (s.pcs i).event k) ∧
        (∀ k ev' op', pc = .push k ev' op' → op'.value = some ev') ∧
        s'.pcs = Function.update s.pcs i pc ∧ s'.created = s.created ∧ s'.worker = s.worker ∧
        s'.cnt = s.cnt ∧
        s'.events = Function.update s.events kind (op.step 1024 ok (s.events kind)).1 ∧
        (∀ op', (op.step 1024 ok (s.events kind)).2 = .goes op' → s'.uncounted kind =
          if op.reserves op' then s.uncounted kind ++ [ev] else s.uncounted kind) ∧
        (∀ res, (op.step 1024 ok (s.events kind)).2 = .returns res →
          s'.uncounted kind = s.uncounted kind) ∧
        ∀ k, k ≠ kind → s'.uncounted k = s.uncounted k := by
    rw [hpc] at hstep ⊢
    simp only [action, queue_step] at hstep
    rcases hturn : (op.step 1024 ok (s.events kind)).2 with op' | res
    · simp only [hturn] at hstep
      cases hstep
      refine ⟨.push kind ev op', ⟨if_pos rfl, fun k hk => if_neg (Ne.symm hk)⟩, fun k => rfl, ?_,
        rfl, rfl, rfl, rfl, rfl, ?_, nofun, ?_⟩
      · intro k ev' op₁ heq
        cases heq
        rw [M2m.Op.value_step hturn]
        exact hev
      · intro op₁ hop₁
        cases hop₁
        exact Function.update_self _ _ _
      · intro k hk
        exact Function.update_of_ne hk _ _
    · simp only [hturn] at hstep
      cases hstep
      exact ⟨.add kind ev, ⟨rfl, fun k hk => rfl⟩, fun k => rfl, nofun, rfl, rfl, rfl, rfl, rfl, nofun,
        fun _ _ => rfl, fun _ _ => rfl⟩
  refine h.thread hpcs hcreated.ge hworker ?_ ?_ hvalue ?_
  · intro k
    by_cases hk : k = kind
    · rw [hk]
      refine (h.counted kind).push hop hev hfresh ok ?_ ?_ ?_ ?_ hgoes hreturns hworker hcreated
      · rw [hcnt]
      · rw [hevents, Function.update_self]
      · rw [ops_of_pcs hpcs hworker, hpc'.1]
      · rw [holds_of_pcs hpcs, hevent kind]
        exact Function.update_eq_self (some i) (s.holds kind)
    · refine (h.counted k).congr ?_ ?_ ?_ ?_ (huncounted k hk) ?_ hcreated.ge
      · rw [hcnt]
      · rw [hevents, Function.update_of_ne hk]
      · apply ops_kept hpcs hworker
        rw [hpc'.2 k hk, hpc]
        exact (if_neg (Ne.symm hk)).symm
      · apply holds_mono hpcs
        intro v hv
        rw [← hevent k]
        exact hv
      · rw [hworker]
  · intro k v hv
    rw [hcreated]
    rw [hevent k] at hv
    exact h.events_lt i k v hv
  · intro k op' hs
    rw [hevents]
    by_cases hk : k = kind
    · rw [hk] at hs ⊢
      rw [Function.update_self]
      exact hs.frame hkept.1 hkept.2
    · rw [Function.update_of_ne hk]
      exact hs

/-- The event is counted. -/
theorem add_inv {ok : Bool} {ev : Nat} (h : EventInv s) (hpc : s.pcs i = .add kind ev)
    (hhead : (s.uncounted kind).head? = some ev)
    (hstep : s.action i ok (s.pcs i) = some s') : EventInv s' := by
  obtain ⟨hpcs, hcreated, hworker, hcnt, hevents, huncounted⟩ :
      s'.pcs = Function.update s.pcs i .idle ∧ s'.created = s.created ∧ s'.worker = s.worker ∧
      s'.cnt = Function.update s.cnt kind (s.cnt kind + 1) ∧ s'.events = s.events ∧
      s'.uncounted = Function.update s.uncounted kind ((s.uncounted kind).erase ev) := by
    rw [hpc] at hstep
    cases hstep
    exact ⟨rfl, rfl, rfl, rfl, rfl, rfl⟩
  have hev : (s.pcs i).event kind = some ev := by
    rw [hpc]
    exact if_pos rfl
  have hops : ∀ k, s'.ops k = s.ops k := by
    intro k
    apply ops_kept hpcs hworker
    rw [hpc]
    rfl
  refine h.thread hpcs hcreated.ge hworker ?_ nofun nofun ?_
  · intro k
    by_cases hk : k = kind
    · rw [hk]
      refine (h.counted kind).add (i := i) hev (h.events_lt i kind ev hev) hhead ?_ ?_ (hops kind) ?_ ?_
        hworker hcreated
      · rw [hcnt, Function.update_self]
      · rw [hevents]
      · exact holds_of_pcs hpcs kind
      · rw [huncounted, Function.update_self]
    · refine (h.counted k).congr ?_ ?_ (hops k) ?_ ?_ ?_ hcreated.ge
      · rw [hcnt, Function.update_of_ne hk]
      · rw [hevents]
      · exact holds_mono hpcs nofun
      · rw [huncounted, Function.update_of_ne hk]
      · rw [hworker]
  · intro k op hs
    rw [hevents]
    exact hs

theorem action_inv {ok : Bool} (h : EventInv s) (hok : s.InOrder (.step i ok))
    (hstep : s.action i ok (s.pcs i) = some s') : EventInv s' := by
  rcases hpc : s.pcs i with _ | ⟨kind, ev⟩ | ⟨kind, ev, op⟩ | ⟨kind, ev⟩
  · rw [hpc] at hstep
    cases hstep
  · exact started_inv h hpc hstep
  · simp only [InOrder, PcInOrder, hpc] at hok
    exact push_inv h hpc hok hstep
  · simp only [InOrder, PcInOrder, hpc] at hok
    exact add_inv h hpc hok hstep

theorem step_inv {l : PollerLabel ι} (h : EventInv s) (hok : s.InOrder l)
    (hstep : s.step l = some s') : EventInv s' := by
  cases l with
  | start =>
    simp only [step] at hstep
    split at hstep
    · next hw =>
      cases hstep
      have hmoved := h.moved (w := .loop) (fun k => by rw [hw]; rfl) (Or.inr (Or.inl rfl))
      exact ⟨hmoved.counted, hmoved.events_lt, hmoved.values, hmoved.pops, hmoved.not_aborted⟩
    · cases hstep
  | stop =>
    cases hstep
    exact ⟨h.counted, h.events_lt, h.values, h.pops, h.not_aborted⟩
  | push_channel_event i => exact enter_inv h hstep
  | install_channel_tracker i => exact enter_inv h hstep
  | uninstall_channel_tracker i => exact enter_inv h hstep
  | step i ok => exact action_inv h hok hstep
  | work => exact work_inv h hstep

/-- **The poller does not abort** in any run whose steps all meet the
    condition. -/
theorem run_not_aborted {s : Poller ι} (h : Reachable step InOrder construct s) :
    s.worker ≠ .aborted := by
  have hinv : EventInv s := by
    apply h.invariant
    · exact construct_inv
    · intro s l s' hs hok hstep
      exact step_inv hs hok hstep
  exact hinv.not_aborted

/-- Two events are pushed and counted one after the other, and handled. -/
theorem run_not_aborted_two_events :
    ∃ s : Poller (Fin 2), exec step construct
        (PollerLabel.start :: .push_channel_event 0 :: List.replicate 10 (.step 0 true) ++
          PollerLabel.install_channel_tracker 1 :: List.replicate 10 (.step 1 true) ++
          List.replicate 19 PollerLabel.work) = some s ∧
      s.worker = .loop ∧ s.worker ≠ .aborted := by
  have hrun : (exec step (construct : Poller (Fin 2))
      (PollerLabel.start :: .push_channel_event 0 :: List.replicate 10 (.step 0 true) ++
        PollerLabel.install_channel_tracker 1 :: List.replicate 10 (.step 1 true) ++
        List.replicate 19 PollerLabel.work)).map worker = some .loop := by
    decide
  obtain ⟨s, hexec, hworker⟩ := Option.map_eq_some_iff.mp hrun
  exact ⟨s, hexec, hworker, run_not_aborted (.of_exec hexec (by decide))⟩

/-- Thread 0 has reserved the first node when thread 1 pushes into the next
    one and counts its event. -/
theorem aborted_out_of_order :
    ∃ s : Poller (Fin 2), exec step construct
        (PollerLabel.start :: .push_channel_event 0 :: List.replicate 6 (.step 0 true) ++
          PollerLabel.push_channel_event 1 :: List.replicate 10 (.step 1 true) ++
          List.replicate 6 PollerLabel.work) = some s ∧
      s.worker = .aborted := by
  have hrun : (exec step (construct : Poller (Fin 2))
      (PollerLabel.start :: .push_channel_event 0 :: List.replicate 6 (.step 0 true) ++
        PollerLabel.push_channel_event 1 :: List.replicate 10 (.step 1 true) ++
        List.replicate 6 PollerLabel.work)).map worker = some .aborted := by
    decide
  exact Option.map_eq_some_iff.mp hrun

end Poller

end Pump
