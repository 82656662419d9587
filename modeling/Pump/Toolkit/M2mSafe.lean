import Pump.Tally
import Pump.Toolkit.M2mSteps

/-! # The safety of a freelock_m2m_queue

    Any number of threads push and pop. Where no compare and exchange succeeds
    with what is stale, a pop returns what a push has written and no element
    is returned twice, and in a state without operations the elements that
    have not been returned are those that the next pops return. -/

namespace Pump

namespace M2m

variable {ι τ : Type}

/-! ## Section 1: Model -/

/-- A queue with its threads, and what the operations have returned. -/
structure State (ι τ : Type) where
  nodes : Nodes τ
  ops : Ops ι τ
  results : List (Result τ)

inductive Label (ι τ : Type) where
  /-- A call of `push`. -/
  | push (i : ι) (v : τ)
  /-- A call of `pop`. -/
  | pop (i : ι)
  /-- The next step of a thread. -/
  | step (i : ι) (created : Bool)

/-- The results after a step. -/
def Turn.record (results : List (Result τ)) : Turn τ → List (Result τ)
  | goes _ => results
  | returns res => results ++ [res]

def Result.pushed? : Result τ → Option τ
  | pushed v => some v
  | _ => none

def Result.popped? : Result τ → Option (Option τ)
  | popped data => some data
  | _ => none

namespace State

def construct (PerBlockElementCount : Nat) (size : Int) : State ι τ :=
  { nodes := init_list PerBlockElementCount size
    ops := fun _ => none
    results := [] }

/-- The elements of the pushes that have returned, whose nodes were ready. -/
def pushed (s : State ι τ) : List τ := s.results.filterMap Result.pushed?

/-- What the pops have returned with `true`. -/
def popped (s : State ι τ) : List (Option τ) := s.results.filterMap Result.popped?

variable [DecidableEq ι]

def step (PerBlockElementCount : Nat) (s : State ι τ) : Label ι τ → Option (State ι τ)
  | .push i v =>
    match s.ops i with
    | none => some { s with ops := Function.update s.ops i (some (.push_load v)) }
    | some _ => none
  | .pop i =>
    match s.ops i with
    | none => some { s with ops := Function.update s.ops i (some .pop_load) }
    | some _ => none
  | .step i created =>
    match s.ops i with
    | none => none
    | some op =>
      let r := op.step PerBlockElementCount created s.nodes
      some
        { nodes := r.1
          ops := Function.update s.ops i r.2.op
          results := r.2.record s.results }

/-- The condition on a step. -/
def Fresh (s : State ι τ) : Label ι τ → Prop
  | .step i _ => ∀ op ∈ s.ops i, op.Fresh s.nodes s.ops
  | _ => True

instance [Fintype ι] (s : State ι τ) : DecidablePred s.Fresh := fun l => by
  cases l <;> unfold Fresh <;> infer_instance

/-! ## Section 2: The property -/

/-- `n` pops of thread `i`, and one more that finds the queue empty. -/
def drain (i : ι) : Nat → List (Label ι τ)
  | 0 => .pop i :: List.replicate 3 (.step i true)
  | n + 1 => .pop i :: List.replicate 6 (.step i true) ++ drain i n

/-- Pops return what was pushed, each element once. Without operations the
    rest is what the next pops return. -/
structure Safe (PerBlockElementCount : Nat) (s : State ι τ) : Prop where
  once : s.popped.Subperm (s.pushed.map some)
  rest : (∀ i, s.ops i = none) → ∃ rest : List τ,
    (s.pushed.map some).Perm (s.popped ++ rest.map some) ∧
      ∀ i, ∃ s', exec (step PerBlockElementCount) s (drain i rest.length) = some s' ∧
        s'.results = s.results ++ rest.map (fun v => .popped (some v)) ++ [.empty]

/-! ## Section 3: The elements -/

/-- The elements of the full slots. -/
def stored (slots : List (Slot τ)) : List τ := (slots.filter Slot.full).map Slot.value

/-- The elements pushed have been returned, are held by pops or are in the
    full slots. -/
structure Accounted (N : Nat) (s : State ι τ) (slots : List (Slot τ)) (free : List Nat)
    (reads : ι → Option τ) (held : List τ) : Prop where
  inv : Inv N s.nodes s.ops slots free reads
  tally : Tally reads held
  account : (s.pushed.map some).Perm (s.popped ++ (held ++ stored slots).map some)

theorem stored_append (slots slots' : List (Slot τ)) :
    stored (slots ++ slots') = stored slots ++ stored slots' := by
  unfold stored
  rw [List.filter_append, List.map_append]

/-- The elements after a step of an operation. -/
theorem account_step {s s' : State ι τ} {i : ι} {op : Op τ} {turn : Turn τ}
    {slots slots' : List (Slot τ)} {reads reads' : ι → Option τ} {held : List τ}
    (heff : Effect i op turn slots slots' reads reads')
    (hresults : s'.results = turn.record s.results)
    (hfree : ∀ tail node, op = .pop_exchange tail node → reads i = none)
    (htally : Tally reads held)
    (h : (s.pushed.map some).Perm (s.popped ++ (held ++ stored slots).map some)) :
    ∃ held', Tally reads' held' ∧
      (s'.pushed.map some).Perm (s'.popped ++ (held' ++ stored slots').map some) := by
  have hsame : s'.results = s.results → s'.pushed = s.pushed ∧ s'.popped = s.popped := by
    intro heq
    unfold pushed popped
    rw [heq]
    exact ⟨rfl, rfl⟩
  have hreturn : ∀ res, s'.results = s.results ++ [res] →
      s'.pushed = s.pushed ++ res.pushed?.toList ∧ s'.popped = s.popped ++ res.popped?.toList := by
    intro res heq
    unfold pushed popped
    rw [heq, List.filterMap_append, List.filterMap_append]
    rcases res with v | data | _
    all_goals exact ⟨rfl, rfl⟩
  cases heff with
  | quiet =>
    obtain ⟨hpushed, hpopped⟩ := hsame hresults
    rw [hpushed, hpopped]
    exact ⟨held, htally, h⟩
  | reserve =>
    obtain ⟨hpushed, hpopped⟩ := hsame hresults
    rw [hpushed, hpopped, stored_append, show stored [_] = [] from rfl, List.append_nil]
    exact ⟨held, htally, h⟩
  | @fill _ before after _ node v hv =>
    obtain ⟨hpushed, hpopped⟩ := hreturn _ hresults
    rw [hpushed, hpopped]
    refine ⟨held, htally, ?_⟩
    rw [stored_append] at h ⊢
    have hone := (List.perm_append_singleton v (stored after)).map some
    have hall := (h.append_right [some v]).trans
      (List.Perm.of_eq (by simp [stored] : _ = (s.popped ++ (held ++ stored before).map some) ++
        (stored after ++ [v]).map some))
    simpa [stored, Result.pushed?, Result.popped?] using hall.trans (hone.append_left _)
  | @take _ _ _ _ v =>
    obtain ⟨hpushed, hpopped⟩ := hsame hresults
    rw [hpushed, hpopped]
    refine ⟨v :: held, htally.put (hfree _ _ rfl) v, ?_⟩
    exact h.trans ((List.perm_middle.map some).append_left _)
  | @give _ _ _ v hreads =>
    obtain ⟨hpushed, hpopped⟩ := hreturn _ hresults
    rw [hpushed, hpopped]
    obtain ⟨held', hperm, htally'⟩ := htally.drop hreads
    refine ⟨held', htally', ?_⟩
    have hall := h.trans (((hperm.append_right (stored slots)).map some).append_left s.popped)
    simpa [Result.pushed?, Result.popped?] using hall
  | empty =>
    obtain ⟨hpushed, hpopped⟩ := hreturn _ hresults
    rw [hpushed, hpopped]
    refine ⟨held, htally, ?_⟩
    simpa [Result.pushed?, Result.popped?] using h

theorem Accounted.step {N : Nat} {s s' : State ι τ} {l : Label ι τ} {slots : List (Slot τ)}
    {free : List Nat} {reads : ι → Option τ} {held : List τ}
    (h : Accounted (N + 1) s slots free reads held) (hfresh : s.Fresh l)
    (hstep : s.step (N + 1) l = some s') :
    ∃ slots' free' reads' held', Accounted (N + 1) s' slots' free' reads' held' := by
  cases l with
  | push i v =>
    simp only [State.step] at hstep
    split at hstep
    · next hi =>
      cases hstep
      exact ⟨slots, free, reads, held, h.inv.begin hi (Or.inr ⟨v, rfl⟩), h.tally, h.account⟩
    · cases hstep
  | pop i =>
    simp only [State.step] at hstep
    split at hstep
    · next hi =>
      cases hstep
      exact ⟨slots, free, reads, held, h.inv.begin hi (Or.inl rfl), h.tally, h.account⟩
    · cases hstep
  | step i created =>
    simp only [State.step] at hstep
    split at hstep
    · cases hstep
    · next op hi =>
      obtain ⟨slots', free', reads', hinv, heff⟩ := h.inv.step hi (hfresh op hi) created
      have hresults : s'.results = (op.step (N + 1) created s.nodes).2.record s.results := by
        cases hstep
        rfl
      have hfree : ∀ tail node, op = .pop_exchange tail node → reads i = none := by
        intro tail node hop
        apply h.inv.core.not_taken i
        rw [Inv.reading_eq hi, hop]
        rfl
      obtain ⟨held', htally, haccount⟩ := account_step heff hresults hfree h.tally h.account
      cases hstep
      exact ⟨slots', free', reads', held', hinv, htally, haccount⟩

/-! ## Section 4: The rest -/

omit [DecidableEq ι] in
theorem Accounted.start {N : Nat} (hN : 2 ≤ N) (size : Int) :
    ∃ free, Accounted N (construct N size : State ι τ) [] free (fun _ => none) [] := by
  obtain ⟨free, hinv⟩ := init_list_inv (τ := τ) (ι := ι) hN size
  exact ⟨free, hinv, Tally.start, List.Perm.refl _⟩

omit [DecidableEq ι] in
/-- Without operations every slot is full. -/
theorem slots_full {N : Nat} {s : State ι τ} {slots : List (Slot τ)} {free : List Nat}
    {reads : ι → Option τ} (h : Inv N s.nodes s.ops slots free reads)
    (hidle : ∀ i, s.ops i = none) {a : Slot τ} (ha : a ∈ slots) : a.full = true := by
  obtain ⟨n, v, full⟩ := a
  rcases full with _ | _
  · obtain ⟨j, hj⟩ := h.core.pushed n v ha
    have hnone : pushing (s.ops j) = some (n, v) := hj
    rw [hidle j] at hnone
    cases hnone
  · rfl

/-- A pop without other operations returns the element of the first slot. -/
theorem drain_one {N : Nat} {s : State ι τ} {slots : List (Slot τ)} {free : List Nat}
    {reads : ι → Option τ} {n : Nat} {v : τ}
    (h : Inv N s.nodes s.ops (⟨n, v, true⟩ :: slots) free reads) (hidle : ∀ i, s.ops i = none)
    (i : ι) :
    ∃ s' free', exec (step N) s (.pop i :: List.replicate 6 (.step i true)) = some s' ∧
      s'.results = s.results ++ [.popped (some v)] ∧ (∀ i, s'.ops i = none) ∧
      Inv N s'.nodes s'.ops slots free' reads := by
  obtain ⟨q, ops, results⟩ := s
  obtain rfl : ops = fun _ => none := funext hidle
  obtain ⟨hready, hdata, -⟩ := h.core.full n v List.mem_cons_self
  have hnext : q.next q.tail = n := h.core.links.1
  simp only at hready hdata hnext h
  have hexec : exec (step N) ⟨q, fun _ => none, results⟩
      (.pop i :: List.replicate 6 (.step i true)) =
        some
          { nodes := { q with tail := n, ready := Function.update q.ready n false }
            ops := fun _ => none
            results := results ++ [.popped (some v)] } := by
    simp [exec, step, Op.step, Turn.op, Turn.record, hnext, hready, hdata, List.replicate]
  refine ⟨_, free ++ [q.tail], hexec, rfl, fun _ => rfl, ?_, by simp⟩
  -- the slot is taken and its element given back
  have htake := h.core.take rfl (i := i) rfl
  have hrd : Function.update (reading ∘ fun _ : ι => (none : Option (Op τ))) i (some n) i = some n := by
    rw [Function.update_self]
  have hgive := htake.give hrd
  have hreads : reads i = none := h.core.not_taken i rfl
  rw [Function.update_idem, Function.update_idem, ← hreads, Function.update_eq_self] at hgive
  have hsame : Function.update (reading ∘ fun _ : ι => (none : Option (Op τ))) i none =
      reading ∘ fun _ : ι => (none : Option (Op τ)) :=
    Function.update_eq_self i _
  rw [hsame] at hgive
  exact hgive

/-- A pop of an empty queue without other operations. -/
theorem drain_none {N : Nat} {s : State ι τ} {free : List Nat} {reads : ι → Option τ}
    (h : Inv N s.nodes s.ops [] free reads) (hidle : ∀ i, s.ops i = none) (i : ι) :
    ∃ s', exec (step N) s (drain i 0) = some s' ∧ s'.results = s.results ++ [.empty] := by
  obtain ⟨q, ops, results⟩ := s
  obtain rfl : ops = fun _ => none := funext hidle
  simp only at h
  have hready : q.ready (q.next q.tail) = false := by
    rw [← Bool.not_eq_true]
    intro hready
    obtain ⟨w, slots, hslots⟩ := h.core.front hready nofun
    cases hslots
  refine ⟨⟨q, fun _ => none, results ++ [.empty]⟩, ?_, rfl⟩
  simp [exec, step, Op.step, Turn.op, Turn.record, hready, drain, List.replicate]

theorem drains {N : Nat} {s : State ι τ} {slots : List (Slot τ)} {free : List Nat}
    {reads : ι → Option τ} (h : Inv N s.nodes s.ops slots free reads)
    (hidle : ∀ i, s.ops i = none) (i : ι) :
    ∃ s', exec (step N) s (drain i slots.length) = some s' ∧
      s'.results = s.results ++ slots.map (fun a => .popped (some a.value)) ++ [.empty] := by
  induction slots generalizing s free with
  | nil =>
    obtain ⟨s', hexec, hresults⟩ := drain_none h hidle i
    exact ⟨s', hexec, by simpa using hresults⟩
  | cons a slots ih =>
    obtain ⟨n, v, full⟩ := a
    have hfull := slots_full h hidle List.mem_cons_self
    simp only at hfull
    rw [hfull] at h
    obtain ⟨mid, free', hexec, hresults, hidle', hinv⟩ := drain_one h hidle i
    obtain ⟨s', hexec', hresults'⟩ := ih hinv hidle'
    refine ⟨s', ?_, ?_⟩
    · show exec _ s (_ ++ drain i slots.length) = _
      rw [exec_append, hexec]
      exact hexec'
    · rw [hresults', hresults]
      simp

/-! ## Section 5: The queue is safe -/

theorem Accounted.safe {N : Nat} {s : State ι τ} {slots : List (Slot τ)} {free : List Nat}
    {reads : ι → Option τ} {held : List τ} (h : Accounted N s slots free reads held) :
    s.Safe N := by
  refine ⟨?_, ?_⟩
  · rw [h.account.subperm_left]
    exact (List.sublist_append_left _ _).subperm
  · intro hidle
    have hheld : held = [] := by
      apply h.tally.eq_nil
      intro i
      apply h.inv.core.not_taken
      show reading (s.ops i) = none
      rw [hidle i]
      rfl
    have hstored : stored slots = slots.map Slot.value := by
      unfold stored
      rw [List.filter_eq_self.mpr fun a ha => slots_full h.inv hidle ha]
    refine ⟨slots.map Slot.value, ?_, ?_⟩
    · have haccount := h.account
      rw [hheld, hstored] at haccount
      exact haccount
    · intro i
      rw [List.length_map, List.map_map]
      exact drains h.inv hidle i

/-- **The queue is safe** in every run whose steps all meet the condition. -/
theorem run_safe {N : Nat} (hN : 2 ≤ N) (size : Int) {s : State ι τ}
    (h : Reachable (step N) Fresh (construct N size) s) : s.Safe N := by
  obtain ⟨N, rfl⟩ : ∃ k, N = k + 1 := ⟨N - 1, by omega⟩
  have hinv : ∃ slots free reads held, Accounted (N + 1) s slots free reads held := by
    apply h.invariant
    · obtain ⟨free, hstart⟩ := Accounted.start (ι := ι) (τ := τ) hN size
      exact ⟨[], free, _, [], hstart⟩
    · rintro s l s' ⟨slots, free, reads, held, hs⟩ hfresh hstep
      exact hs.step hfresh hstep
  obtain ⟨slots, free, reads, held, hs⟩ := hinv
  exact hs.safe

/-- A call and its next `n` steps. -/
def push_labels (i : Fin 3) (v n : Nat) : List (Label (Fin 3) Nat) :=
  .push i v :: List.replicate n (.step i true)

def pop_labels (i : Fin 3) (n : Nat) : List (Label (Fin 3) Nat) :=
  .pop i :: List.replicate n (.step i true)

/-- A push that inserts a block, a push that does not, and a pop. -/
theorem run_safe_two_values :
    ∃ s : State (Fin 3) Nat, exec (step 2) (construct 2 2)
        (push_labels 0 10 12 ++ push_labels 1 20 8 ++ pop_labels 2 6) = some s ∧
      s.results = [.pushed 10, .pushed 20, .popped (some 10)] ∧ s.Safe 2 := by
  have hrun : (exec (step 2) (construct 2 2 : State (Fin 3) Nat)
      (push_labels 0 10 12 ++ push_labels 1 20 8 ++ pop_labels 2 6)).map results =
        some [.pushed 10, .pushed 20, .popped (some 10)] := by
    decide
  obtain ⟨s, hexec, hresults⟩ := Option.map_eq_some_iff.mp hrun
  exact ⟨s, hexec, hresults, run_safe le_rfl 2 (.of_exec hexec (by decide))⟩

/-- A pop that has taken a node is overtaken by the others, who come to the
    node again before it is marked not ready. -/
def overtaken_labels : List (Label (Fin 3) Nat) :=
  push_labels 0 10 12 ++ pop_labels 1 4 ++
    push_labels 0 20 8 ++ push_labels 0 30 8 ++ pop_labels 0 6 ++
    push_labels 0 40 8 ++ pop_labels 0 6 ++ push_labels 2 50 5 ++
    pop_labels 0 6 ++ pop_labels 0 6 ++ List.replicate 2 (.step 1 true)

theorem not_safe_overtaken :
    ∃ s : State (Fin 3) Nat, exec (step 2) (construct 2 2) overtaken_labels = some s ∧
      s.popped = [some 20, some 30, some 40, some 10, some 10] ∧ s.pushed = [10, 20, 30, 40] ∧
      ¬ s.Safe 2 := by
  have hrun : (exec (step 2) (construct 2 2 : State (Fin 3) Nat) overtaken_labels).map
      (fun s => (s.popped, s.pushed)) =
        some ([some 20, some 30, some 40, some 10, some 10], [10, 20, 30, 40]) := by
    decide
  obtain ⟨s, hexec, hs⟩ := Option.map_eq_some_iff.mp hrun
  obtain ⟨hpopped, hpushed⟩ := Prod.mk.inj hs
  refine ⟨s, hexec, hpopped, hpushed, ?_⟩
  intro hsafe
  have hle := hsafe.once.length_le
  rw [hpopped, hpushed] at hle
  exact absurd hle (by decide)

end State

end M2m

end Pump
