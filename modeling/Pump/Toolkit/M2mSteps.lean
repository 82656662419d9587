import Pump.Toolkit.M2mRing

/-! # The steps of a freelock_m2m_queue

    The steps of `push` and `pop` on the ring. A compare and exchange compares
    a node only: it may succeed with what was read when the node was the head
    or the tail before. Where it does not, each step keeps the invariant. -/

namespace Pump

namespace M2m

variable {τ ι : Type}

/-! ## Section 1: What a step does -/

/-- The operation that goes on. -/
def Turn.op : Turn τ → Option (Op τ)
  | .goes op => some op
  | .returns _ => none

/-- The condition on an operation: what a compare and exchange writes is still
    right if it succeeds. For a push, the node behind the head is the one that
    was read, and is not the tail. For a pop, the node is the one behind the
    tail, is ready, and is not being read by a pop that was there before. -/
def Op.Fresh (q : Nodes τ) (ops : Ops ι τ) : Op τ → Prop
  | push_exchange _ node desired => q.head = some node → desired = q.next node ∧ desired ≠ q.tail
  | pop_exchange tail node =>
    q.tail = tail → node = q.next tail ∧ q.ready node = true ∧ ∀ j, M2m.reading (ops j) ≠ some node
  | _ => True

instance [Fintype ι] (q : Nodes τ) (ops : Ops ι τ) : DecidablePred (Op.Fresh q ops) := fun op => by
  cases op <;> unfold Op.Fresh <;> infer_instance

section

variable [DecidableEq ι]

/-- What a step of thread `i` does to the slots and to what the pops read. -/
inductive Effect (i : ι) : Op τ → Turn τ → List (Slot τ) → List (Slot τ) → (ι → Option τ) →
    (ι → Option τ) → Prop
  | quiet {op op' : Op τ} {slots : List (Slot τ)} {reads : ι → Option τ} :
      op'.pushing = op.pushing → op'.reading = op.reading →
      Effect i op (.goes op') slots slots reads reads
  | reserve {op op' : Op τ} {slots : List (Slot τ)} {reads : ι → Option τ} {node : Nat} {v : τ} :
      op.pushing = none → op'.pushing = some (node, v) →
      Effect i op (.goes op') slots (slots ++ [⟨node, v, false⟩]) reads reads
  | fill {op : Op τ} {before after : List (Slot τ)} {reads : ι → Option τ} {node : Nat} {v : τ} :
      op.pushing = some (node, v) →
      Effect i op (.returns (.pushed v)) (before ++ ⟨node, v, false⟩ :: after)
        (before ++ ⟨node, v, true⟩ :: after) reads reads
  | take {tail node : Nat} {slots : List (Slot τ)} {reads : ι → Option τ} {v : τ} :
      Effect i (.pop_exchange tail node) (.goes (.pop_data node)) (⟨node, v, true⟩ :: slots) slots
        reads (Function.update reads i (some v))
  | give {op : Op τ} {slots : List (Slot τ)} {reads : ι → Option τ} {v : τ} :
      reads i = some v →
      Effect i op (.returns (.popped (some v))) slots slots reads (Function.update reads i none)
  | empty {op : Op τ} {slots : List (Slot τ)} {reads : ι → Option τ} :
      Effect i op (.returns .empty) slots slots reads reads

end

/-! ## Section 2: What the other operations know -/

/-- An operation knows what it knew after a step of another thread. -/
theorem Op.Fact.frame {N : Nat} {q q' : Nodes τ} {nodes nodes' free free' : List Nat} {op : Op τ}
    (h : op.Fact N q nodes free)
    (hlock : op.locks ≠ none → q'.next = q.next ∧ q'.created = q.created ∧
      (∀ n ∈ nodes', n ∈ nodes) ∧ (∃ l, free' = free ++ l) ∧ ∀ n ∉ nodes, q'.ready n = q.ready n)
    (hpush : ∀ n v, op.pushing = some (n, v) → q.ready n = false →
      q'.ready n = false ∧ q'.data n = q.data n)
    (hread : ∀ n, op.reading = some n → q'.data n = q.data n) : op.Fact N q' nodes' free' := by
  -- nothing of the ring is in a block that is not linked in yet
  have hblock : ∀ block, op.locks ≠ none → Block N q nodes block → Block N q' nodes' block := by
    intro block hne hb
    obtain ⟨hnext, hcreated, hsub, -, hready⟩ := hlock hne
    refine ⟨?_, ?_, ?_, ?_⟩
    · rw [hcreated]
      exact hb.fits
    · intro n hn
      exact hb.apart n (hsub n hn)
    · rw [hnext]
      exact hb.next
    · intro n hle hlt
      have hnot : n ∉ nodes := by
        intro hn
        have hapart := hb.apart n hn
        omega
      rw [hready n hnot]
      exact hb.ready n hle hlt
  cases op with
  | extend_last v node block => exact hblock block nofun h
  | extend_link v node block =>
    obtain ⟨hb, hlast⟩ := h
    refine ⟨hblock block nofun hb, ?_⟩
    rw [(hlock nofun).1]
    exact hlast
  | extend_publish v node =>
    obtain ⟨m, rest, hfree⟩ := h
    obtain ⟨l, hl⟩ := (hlock nofun).2.2.2.1
    rw [hfree] at hl
    exact ⟨m, rest ++ l, hl⟩
  | push_data v node => exact (hpush node v rfl h).1
  | push_ready v node =>
    obtain ⟨hready, hdata⟩ := h
    obtain ⟨hready', hdata'⟩ := hpush node v rfl hready
    exact ⟨hready', hdata'.trans hdata⟩
  | pop_ready node data =>
    show data = q'.data node
    rw [hread node rfl]
    exact h
  | push_load | push_head | push_next | push_desired | push_exchange | extend_lock
  | extend_create | extend_unlock | extend_capacity | push_wait | pop_load | pop_next
  | pop_check | pop_exchange | pop_data => trivial

/-- An operation that has not locked the head does not see it change, nor the
    links. -/
theorem Op.Fact.unlocked {N : Nat} {q q' : Nodes τ} {nodes nodes' free free' : List Nat}
    {op : Op τ} (h : op.Fact N q nodes free) (hnone : op.locks = none)
    (hready : q'.ready = q.ready) (hdata : q'.data = q.data) : op.Fact N q' nodes' free' := by
  apply h.frame
  · intro hne
    exact absurd hnone hne
  · intro n v _ hn
    rw [hready, hdata]
    exact ⟨hn, rfl⟩
  · intro n _
    rw [hdata]

namespace Inv

variable {N : Nat} {q q' : Nodes τ} {ops : Ops ι τ} {slots slots' : List (Slot τ)}
  {free free' : List Nat} {reads reads' : ι → Option τ} {i : ι} {op : Op τ} {o : Option (Op τ)}

theorem locked_eq (hi : ops i = some op) : (locked ∘ ops) i = op.locks := by
  show locked (ops i) = _
  rw [hi]
  rfl

theorem pushing_eq (hi : ops i = some op) : (pushing ∘ ops) i = op.pushing := by
  show pushing (ops i) = _
  rw [hi]
  rfl

theorem reading_eq (hi : ops i = some op) : (reading ∘ ops) i = op.reading := by
  show reading (ops i) = _
  rw [hi]
  rfl

/-- While there is a head, nobody has locked it. -/
theorem not_locks_of_head (h : Inv N q ops slots free reads) {n : Nat} (hhead : q.head = some n)
    (hi : ops i = some op) : op.locks = none := by
  rcases hlk : op.locks with _ | m
  · rfl
  · have hnone := (h.core.locks i m ((locked_eq hi).trans hlk)).1
    rw [hhead] at hnone
    cases hnone

/-- No other thread has locked the head. -/
theorem not_locks_of_locks (h : Inv N q ops slots free reads) {n : Nat} (hi : ops i = some op)
    (hlk : op.locks = some n) {j : ι} {op' : Op τ} (hji : j ≠ i) (hj : ops j = some op') :
    op'.locks = none := by
  rcases hlk' : op'.locks with _ | m
  · rfl
  · exact absurd (h.core.locks_unique j i m n ((locked_eq hj).trans hlk') ((locked_eq hi).trans hlk))
      hji

/-- The capacity is not used. -/
theorem capacity (h : Inv N q ops slots free reads) (c : BitVec 32) :
    Inv N { q with capacity := c } ops slots free reads := by
  refine ⟨?_, ?_⟩
  · refine h.core.congr ?_ ?_ le_rfl (fun n _ => ?_) (fun n _ => ?_) (fun n _ => ?_)
    all_goals rfl
  · intro j op hj
    apply (h.fact j op hj).frame
    · intro _
      exact ⟨rfl, rfl, fun n hn => hn, ⟨[], (List.append_nil free).symm⟩, fun n _ => rfl⟩
    · intro n w _ hready
      exact ⟨hready, rfl⟩
    · intro n _
      rfl

variable [DecidableEq ι]

theorem comp_kept {β : Type} (f : Option (Op τ) → β) (o : Option (Op τ)) (hi : ops i = some op)
    (ho : f o = f (some op)) :
    Function.update (f ∘ ops) i (f o) = f ∘ ops := by
  rw [ho, ← hi]
  exact Function.update_eq_self i (f ∘ ops)

/-- The operation of thread `i` has changed. -/
theorem updated
    (hcore : Core q' (Function.update (locked ∘ ops) i (locked o))
      (Function.update (pushing ∘ ops) i (pushing o))
      (Function.update (reading ∘ ops) i (reading o)) slots' free' reads')
    (hown : ∀ op', o = some op' → op'.Fact N q' (ring q' slots' free') free')
    (hother : ∀ j op', j ≠ i → ops j = some op' → op'.Fact N q' (ring q' slots' free') free') :
    Inv N q' (Function.update ops i o) slots' free' reads' := by
  refine ⟨?_, ?_⟩
  · rw [Function.comp_update, Function.comp_update, Function.comp_update]
    exact hcore
  · intro j op' hj
    rcases update_some hj with ⟨-, hop⟩ | ⟨hji, hop⟩
    · exact hown op' hop
    · exact hother j op' hji hop

/-- The nodes are as they were, and so is what the thread holds. -/
theorem same (h : Inv N q ops slots free reads) (hlk : locked o = locked (ops i))
    (hps : pushing o = pushing (ops i)) (hrd : reading o = reading (ops i))
    (hown : ∀ op', o = some op' → op'.Fact N q (ring q slots free) free) :
    Inv N q (Function.update ops i o) slots free reads := by
  apply updated
  · rw [hlk, hps, hrd]
    have hkeep : ∀ {β : Type} (f : Option (Op τ) → β),
        Function.update (f ∘ ops) i (f (ops i)) = f ∘ ops := by
      intro β f
      exact Function.update_eq_self i (f ∘ ops)
    rw [hkeep, hkeep, hkeep]
    exact h.core
  · exact hown
  · intro j op' _ hj
    exact h.fact j op' hj

theorem quiet (h : Inv N q ops slots free reads) (hi : ops i = some op) {op' : Op τ}
    (hlk : op'.locks = op.locks) (hps : op'.pushing = op.pushing) (hrd : op'.reading = op.reading)
    (hfact : op'.Fact N q (ring q slots free) free) :
    ∃ slots' free' reads', Inv N q (Function.update ops i (some op')) slots' free' reads' ∧
      Effect i op (.goes op') slots slots' reads reads' := by
  refine ⟨slots, free, reads, ?_, .quiet hps hrd⟩
  apply h.same
  · rw [hi]
    exact hlk
  · rw [hi]
    exact hps
  · rw [hi]
    exact hrd
  · intro op'' hop
    cases hop
    exact hfact

/-- The first free node is reserved by thread `i`. -/
theorem reserved (h : Inv N q ops slots free reads) (hi : ops i = some op) {op' : Op τ}
    {node m : Nat} {rest : List Nat} {v : τ} (hfree : free = node :: m :: rest)
    (hlk : ∀ j op₁, j ≠ i → ops j = some op₁ → op₁.locks = none) (hps : op.pushing = none)
    (hrd : op.reading = none) (hlk' : op'.locks = none) (hps' : op'.pushing = some (node, v))
    (hrd' : op'.reading = none)
    (hfact : ∀ nodes free', op'.Fact N { q with head := some m } nodes free') :
    ∃ slots' free' reads',
      Inv N { q with head := some m } (Function.update ops i (some op')) slots' free' reads' ∧
        Effect i op (.goes op') slots slots' reads reads' := by
  refine ⟨slots ++ [⟨node, v, false⟩], m :: rest, reads, ?_, .reserve hps hps'⟩
  apply updated
  · -- nobody has locked the head, neither before nor after
    have hnone : ∀ j, Function.update (locked ∘ ops) i (locked (some op')) j = none := by
      intro j
      by_cases hji : j = i
      · rw [hji, Function.update_self]
        exact hlk'
      · rw [Function.update_of_ne hji]
        rcases hj : ops j with _ | op₁
        · show locked (ops j) = none
          rw [hj]
          rfl
        · rw [locked_eq hj]
          exact hlk j op₁ hji hj
    rw [comp_kept reading (some op') hi (hrd'.trans hrd.symm),
      show pushing (some op') = some (node, v) from hps']
    exact h.core.reserve hfree hnone ((pushing_eq hi).trans hps)
  · intro op'' hop
    cases hop
    exact hfact _ _
  · intro j op₁ hji hj
    have hnone := hlk j op₁ hji hj
    exact (h.fact j op₁ hj).unlocked hnone rfl rfl

/-- The head is locked by thread `i`. -/
theorem locks (h : Inv N q ops slots free reads) (hi : ops i = some op) {op' : Op τ} {node : Nat}
    (hhead : q.head = some node) (hlk : op'.locks = some node) (hps : op'.pushing = op.pushing)
    (hrd : op'.reading = op.reading)
    (hfact : ∀ nodes free', op'.Fact N { q with head := none } nodes free') :
    ∃ slots' free' reads',
      Inv N { q with head := none } (Function.update ops i (some op')) slots' free' reads' ∧
        Effect i op (.goes op') slots slots' reads reads' := by
  refine ⟨slots, free, reads, ?_, .quiet hps hrd⟩
  apply updated
  · rw [comp_kept pushing (some op') hi hps, comp_kept reading (some op') hi hrd,
      show locked (some op') = some node from hlk]
    exact h.core.lock hhead
  · intro op'' hop
    cases hop
    exact hfact _ _
  · intro j op₁ hji hj
    have hnone := h.not_locks_of_head hhead hj
    exact (h.fact j op₁ hj).unlocked hnone rfl rfl

/-- The head is unlocked by thread `i`. -/
theorem unlocks (h : Inv N q ops slots free reads) (hi : ops i = some op) {op' : Op τ} {node : Nat}
    (hlk : op.locks = some node) (hlk' : op'.locks = none) (hps : op'.pushing = op.pushing)
    (hrd : op'.reading = op.reading)
    (hfact : ∀ nodes free', op'.Fact N { q with head := some node } nodes free') :
    ∃ slots' free' reads',
      Inv N { q with head := some node } (Function.update ops i (some op')) slots' free' reads' ∧
        Effect i op (.goes op') slots slots' reads reads' := by
  refine ⟨slots, free, reads, ?_, .quiet hps hrd⟩
  apply updated
  · rw [comp_kept pushing (some op') hi hps, comp_kept reading (some op') hi hrd,
      show locked (some op') = none from hlk']
    exact h.core.unlock ((locked_eq hi).trans hlk)
  · intro op'' hop
    cases hop
    exact hfact _ _
  · intro j op₁ hji hj
    have hnone := h.not_locks_of_locks hi hlk hji hj
    exact (h.fact j op₁ hj).unlocked hnone rfl rfl

/-- Nodes outside the ring change while thread `i` has locked the head. -/
theorem changes (h : Inv N q ops slots free reads) (hi : ops i = some op) {op' : Op τ} {node : Nat}
    (hlk : op.locks = some node) (hlk' : op'.locks = some node) (hps : op'.pushing = op.pushing)
    (hrd : op'.reading = op.reading) (hhead : q'.head = q.head) (htail : q'.tail = q.tail)
    (hcreated : q.created ≤ q'.created)
    (hsame : ∀ n ∈ ring q slots free,
      q'.next n = q.next n ∧ q'.ready n = q.ready n ∧ q'.data n = q.data n)
    (hfact : op'.Fact N q' (ring q slots free) free) :
    ∃ slots' free' reads', Inv N q' (Function.update ops i (some op')) slots' free' reads' ∧
      Effect i op (.goes op') slots slots' reads reads' := by
  have hring : ring q' slots free = ring q slots free := by
    unfold ring
    rw [htail]
  -- an element that is stored or read is in the ring, which does not change
  have hfull : ∀ n, (∃ w, (⟨n, w, true⟩ : Slot τ) ∈ slots) ∨ (∃ j, (reading ∘ ops) j = some n) →
      q'.data n = q.data n := by
    rintro n (⟨w, hw⟩ | ⟨j, hj⟩)
    · exact (hsame n (Core.slot_mem_ring hw)).2.2
    · exact (hsame n (h.core.taken j n hj).1).2.2
  refine ⟨slots, free, reads, ?_, .quiet hps hrd⟩
  apply updated
  · rw [comp_kept locked (some op') hi (hlk'.trans hlk.symm), comp_kept pushing (some op') hi hps,
      comp_kept reading (some op') hi hrd]
    exact h.core.congr hhead htail hcreated (fun n hn => (hsame n hn).1)
      (fun n hn => (hsame n hn).2.1) hfull
  · intro op'' hop
    cases hop
    rw [hring]
    exact hfact
  · intro j op₁ hji hj
    have hnone := h.not_locks_of_locks hi hlk hji hj
    apply (h.fact j op₁ hj).frame
    · intro hne
      exact absurd hnone hne
    · intro n w hn hready
      have hmem : n ∈ ring q slots free :=
        Core.slot_mem_ring (h.core.pushes j n w ((pushing_eq hj).trans hn))
      obtain ⟨-, hready', hdata⟩ := hsame n hmem
      exact ⟨hready'.trans hready, hdata⟩
    · intro n hn
      exact hfull n (Or.inr ⟨j, (reading_eq hj).trans hn⟩)

/-- The new block is linked in by thread `i`. -/
theorem links {v : τ} {node block : Nat} (h : Inv (N + 1) q ops slots free reads)
    (hi : ops i = some (.extend_link v node block)) :
    ∃ slots' free' reads',
      Inv (N + 1) { q with next := Function.update q.next node block }
        (Function.update ops i (some (.extend_publish v node))) slots' free' reads' ∧
        Effect i (.extend_link v node block) (.goes (.extend_publish v node)) slots slots' reads
          reads' := by
  obtain ⟨hblock, hlast⟩ := h.fact i _ hi
  have hlk := (locked_eq hi).trans (show Op.locks _ = some node from rfl)
  obtain ⟨rest, hfree⟩ : ∃ rest, free = node :: rest := by
    have hhead := (h.core.locks i node hlk).2
    rcases free with _ | ⟨m, rest⟩
    · cases hhead
    · cases hhead
      exact ⟨rest, rfl⟩
  refine ⟨slots, node :: (List.range' block (N + 1) ++ rest), reads, ?_, .quiet rfl rfl⟩
  apply updated
  · rw [comp_kept locked (some (.extend_publish v node)) hi rfl,
      comp_kept pushing (some (.extend_publish v node)) hi rfl,
      comp_kept reading (some (.extend_publish v node)) hi rfl]
    exact h.core.link hlk hfree hblock hlast
  · intro op' hop
    cases hop
    refine ⟨block, List.range' (block + 1) N ++ rest, ?_⟩
    rw [List.range'_succ]
    rfl
  · intro j op₁ hji hj
    have hnone := h.not_locks_of_locks hi rfl hji hj
    exact (h.fact j op₁ hj).unlocked hnone rfl rfl

/-- The element is written by thread `i`. -/
theorem writes {v : τ} {node : Nat} (h : Inv N q ops slots free reads)
    (hi : ops i = some (.push_data v node)) :
    ∃ slots' free' reads',
      Inv N { q with data := Function.update q.data node (some v) }
        (Function.update ops i (some (.push_ready v node))) slots' free' reads' ∧
        Effect i (.push_data v node) (.goes (.push_ready v node)) slots slots' reads reads' := by
  have hready : q.ready node = false := h.fact i _ hi
  have hps := (pushing_eq hi).trans (show Op.pushing _ = some (node, v) from rfl)
  -- the node is the thread's own: no slot is full with it, and no pop reads it
  have hnot_taken := h.core.ready_of_taken hready
  refine ⟨slots, free, reads, ?_, .quiet rfl rfl⟩
  apply updated
  · rw [comp_kept locked (some (.push_ready v node)) hi rfl,
      comp_kept pushing (some (.push_ready v node)) hi rfl,
      comp_kept reading (some (.push_ready v node)) hi rfl]
    refine h.core.congr ?_ ?_ le_rfl (fun n _ => ?_) (fun n _ => ?_) ?_
    any_goals rfl
    · intro n hn
      apply Function.update_of_ne
      rintro rfl
      rcases hn with ⟨w, hw⟩ | ⟨j, hj⟩
      · have heq := h.core.slot_eq hw (h.core.pushes i _ v hps) rfl
        cases heq
      · exact hnot_taken j hj
  · intro op' hop
    cases hop
    exact ⟨hready, Function.update_self _ _ _⟩
  · intro j op₁ hji hj
    apply (h.fact j op₁ hj).frame
    · intro _
      refine ⟨rfl, rfl, fun n hn => hn, ⟨[], (List.append_nil free).symm⟩, ?_⟩
      intro n _
      rfl
    · intro n w hn hready'
      refine ⟨hready', Function.update_of_ne ?_ _ _⟩
      rintro rfl
      exact hji (h.core.pushes_unique j i _ w v ((pushing_eq hj).trans hn) hps)
    · intro n hn
      apply Function.update_of_ne
      rintro rfl
      exact hnot_taken j ((reading_eq hj).trans hn)

/-- The node is marked ready by thread `i`. -/
theorem fills {v : τ} {node : Nat} (h : Inv N q ops slots free reads)
    (hi : ops i = some (.push_ready v node)) :
    ∃ slots' free' reads',
      Inv N { q with ready := Function.update q.ready node true } (Function.update ops i none)
        slots' free' reads' ∧
        Effect i (.push_ready v node) (.returns (.pushed v)) slots slots' reads reads' := by
  obtain ⟨hready, hdata⟩ := h.fact i _ hi
  have hps := (pushing_eq hi).trans (show Op.pushing _ = some (node, v) from rfl)
  have hmem := h.core.pushes i node v hps
  obtain ⟨before, after, hslots⟩ := List.append_of_mem hmem
  refine ⟨before ++ ⟨node, v, true⟩ :: after, free, reads, ?_, ?_⟩
  · apply updated
    · rw [comp_kept locked none hi rfl, comp_kept reading none hi rfl,
        show pushing (none : Option (Op τ)) = none from rfl]
      exact h.core.fill hslots hps hready hdata
    · intro op' hop
      cases hop
    · intro j op₁ hji hj
      apply (h.fact j op₁ hj).frame
      · -- a slot that is filled is at the same node
        intro _
        refine ⟨rfl, rfl, ?_, ⟨[], (List.append_nil free).symm⟩, ?_⟩
        · intro n hn
          unfold ring at hn ⊢
          rw [hslots]
          rw [List.map_append, List.map_cons] at hn ⊢
          exact hn
        · intro n hn
          apply Function.update_of_ne
          rintro rfl
          exact hn (Core.slot_mem_ring hmem)
      · intro n w hn hready'
        refine ⟨(Function.update_of_ne ?_ _ _).trans hready', rfl⟩
        rintro rfl
        exact hji (h.core.pushes_unique j i _ w v ((pushing_eq hj).trans hn) hps)
      · intro n _
        rfl
  · rw [hslots]
    exact .fill rfl

/-- The first slot is taken by thread `i`. -/
theorem takes {tail node : Nat} (h : Inv N q ops slots free reads)
    (hi : ops i = some (.pop_exchange tail node)) (htail : q.tail = tail)
    (hfresh : Op.Fresh q ops (.pop_exchange tail node)) :
    ∃ slots' free' reads',
      Inv N { q with tail := node } (Function.update ops i (some (.pop_data node))) slots' free'
        reads' ∧
        Effect i (.pop_exchange tail node) (.goes (.pop_data node)) slots slots' reads reads' := by
  obtain ⟨hnode, hready, hrd⟩ := hfresh htail
  rw [← htail] at hnode
  obtain ⟨v, slots', hslots⟩ : ∃ v slots', slots = ⟨node, v, true⟩ :: slots' := by
    rw [hnode] at hready hrd ⊢
    exact h.core.front hready hrd
  refine ⟨slots', free ++ [q.tail], Function.update reads i (some v), ?_, ?_⟩
  · apply updated
    · rw [comp_kept locked (some (.pop_data node)) hi rfl,
        comp_kept pushing (some (.pop_data node)) hi rfl,
        show reading (some (.pop_data node : Op τ)) = some node from rfl]
      exact h.core.take hslots (reading_eq hi)
    · intro op' hop
      cases hop
      trivial
    · intro j op₁ hji hj
      apply (h.fact j op₁ hj).frame
      · intro _
        refine ⟨rfl, rfl, ?_, ⟨[q.tail], rfl⟩, ?_⟩
        · -- the old tail is the last of the free nodes now
          intro n hn
          unfold ring at hn ⊢
          rw [hslots]
          simp only [List.mem_cons, List.mem_append, List.map_cons, List.not_mem_nil,
            or_false] at hn ⊢
          rcases hn with hn | hn | hn | hn
          · exact Or.inr (Or.inl (Or.inl hn))
          · exact Or.inr (Or.inl (Or.inr hn))
          · exact Or.inr (Or.inr hn)
          · exact Or.inl hn
        · intro n _
          rfl
      · intro n w _ hready'
        exact ⟨hready', rfl⟩
      · intro n _
        rfl
  · rw [hslots]
    exact .take

/-- The element is returned by thread `i`. -/
theorem gives {node : Nat} {data : Option τ} (h : Inv N q ops slots free reads)
    (hi : ops i = some (.pop_ready node data)) :
    ∃ slots' free' reads',
      Inv N { q with ready := Function.update q.ready node false } (Function.update ops i none)
        slots' free' reads' ∧
        Effect i (.pop_ready node data) (.returns (.popped data)) slots slots' reads reads' := by
  have hdata : data = q.data node := h.fact i _ hi
  have hrd := (reading_eq hi).trans (show Op.reading _ = some node from rfl)
  obtain ⟨hmem, -, v, hreads, hv⟩ := h.core.taken i node hrd
  refine ⟨slots, free, Function.update reads i none, ?_, ?_⟩
  · apply updated
    · rw [comp_kept locked none hi rfl, comp_kept pushing none hi rfl,
        show reading (none : Option (Op τ)) = none from rfl]
      exact h.core.give hrd
    · intro op' hop
      cases hop
    · intro j op₁ hji hj
      apply (h.fact j op₁ hj).frame
      · intro _
        refine ⟨rfl, rfl, fun n hn => hn, ⟨[], (List.append_nil free).symm⟩, ?_⟩
        intro n hn
        apply Function.update_of_ne
        rintro rfl
        exact hn hmem
      · -- the node is not ready any more, and no push has it
        intro n w _ hready'
        refine ⟨?_, rfl⟩
        by_cases hne : n = node
        · rw [hne]
          exact Function.update_self _ _ _
        · exact (Function.update_of_ne hne _ _).trans hready'
      · intro n _
        rfl
  · rw [hdata, hv]
    exact .give hreads

/-- A node is reserved by a compare and exchange that succeeds. -/
theorem exchanges {v : τ} {node desired : Nat} (h : Inv N q ops slots free reads)
    (hi : ops i = some (.push_exchange v node desired)) (hhead : q.head = some node)
    (hfresh : Op.Fresh q ops (.push_exchange v node desired)) :
    ∃ slots' free' reads',
      Inv N { q with head := some desired } (Function.update ops i (some (.push_wait v node)))
        slots' free' reads' ∧
        Effect i (.push_exchange v node desired) (.goes (.push_wait v node)) slots slots' reads
          reads' := by
  obtain ⟨hdesired, htail⟩ := hfresh hhead
  have hfirst := h.core.head node hhead
  obtain ⟨rest, hrest⟩ : ∃ rest, free = node :: rest := by
    rcases free with _ | ⟨m, rest⟩
    · cases hfirst
    · cases hfirst
      exact ⟨rest, rfl⟩
  have hnext := h.core.next_free hrest
  rcases rest with _ | ⟨m, rest⟩
  · -- the last free node is in front of the tail, and the push has looked for that
    exact absurd (hdesired.trans hnext) htail
  · obtain rfl : desired = m := hdesired.trans hnext
    apply h.reserved hi hrest
    any_goals rfl
    · intro j op₁ _ hj
      exact h.not_locks_of_head hhead hj
    · intro nodes free'
      trivial

/-- The node is reserved when the block is in the ring. -/
theorem publishes {v : τ} {node : Nat} (h : Inv N q ops slots free reads)
    (hi : ops i = some (.extend_publish v node)) :
    ∃ slots' free' reads',
      Inv N { q with head := some (q.next node) }
        (Function.update ops i (some (.extend_capacity v node))) slots' free' reads' ∧
        Effect i (.extend_publish v node) (.goes (.extend_capacity v node)) slots slots' reads
          reads' := by
  obtain ⟨m, rest, hfree⟩ := h.fact i _ hi
  rw [h.core.next_free hfree]
  apply h.reserved hi hfree
  any_goals rfl
  · intro j op₁ hji hj
    exact h.not_locks_of_locks hi rfl hji hj
  · intro nodes free'
    trivial

/-- **Steps.** -/
theorem step (h : Inv (N + 1) q ops slots free reads) (hi : ops i = some op)
    (hfresh : op.Fresh q ops) (created : Bool) :
    ∃ slots' free' reads',
      Inv (N + 1) (op.step (N + 1) created q).1
        (Function.update ops i (op.step (N + 1) created q).2.op) slots' free' reads' ∧
        Effect i op (op.step (N + 1) created q).2 slots slots' reads reads' := by
  -- the steps that change the ring have a lemma each; the others keep it
  cases op with
  | push_load v | push_desired v node | pop_load | pop_next tail =>
    exact h.quiet hi rfl rfl rfl trivial
  | push_head v node =>
    rcases node with _ | node
    · exact h.quiet hi rfl rfl rfl trivial
    · exact h.quiet hi rfl rfl rfl trivial
  | push_next v node next =>
    simp only [Op.step]
    split
    · exact h.quiet hi rfl rfl rfl trivial
    · exact h.quiet hi rfl rfl rfl trivial
  | push_exchange v node desired =>
    simp only [Op.step]
    split
    · next hhead => exact h.exchanges hi hhead hfresh
    · exact h.quiet hi rfl rfl rfl trivial
  | extend_lock v node =>
    simp only [Op.step]
    split
    · next hhead => exact h.locks hi hhead rfl rfl rfl fun _ _ => trivial
    · exact h.quiet hi rfl rfl rfl trivial
  | extend_create v node =>
    simp only [Op.step]
    split
    · refine h.changes hi rfl ?_ ?_ ?_ ?_ ?_ (Nat.le_add_right _ _) ?_ ?_
      any_goals rfl
      · -- the nodes of the block are behind those of the ring
        intro n hn
        have hlt := h.core.created n hn
        have hout : ¬ (q.created ≤ n ∧ n < q.created + (N + 1)) := by omega
        exact ⟨if_neg hout, if_neg hout, if_neg hout⟩
      · refine ⟨rfl, h.core.created, ?_, ?_⟩
        · intro n hle hlt
          exact if_pos ⟨hle, by omega⟩
        · intro n hle hlt
          exact if_pos ⟨hle, hlt⟩
    · exact h.quiet hi rfl rfl rfl trivial
  | extend_unlock v node => exact h.unlocks hi rfl rfl rfl rfl fun _ _ => trivial
  | extend_last v node block =>
    have hblock : Block (N + 1) q (ring q slots free) block := h.fact i _ hi
    have hlast : ∀ n ∈ ring q slots free,
        Function.update q.next (block + N) (q.next node) n = q.next n := by
      intro n hn
      have hlt := hblock.apart n hn
      exact Function.update_of_ne (by omega) _ _
    have hnode : node ∈ ring q slots free := by
      have hhead := (h.core.locks i node (locked_eq hi)).2
      exact List.mem_cons_of_mem _ (List.mem_append_right _ (List.mem_of_head? hhead))
    refine h.changes hi rfl ?_ ?_ ?_ ?_ ?_ le_rfl ?_ ?_
    any_goals rfl
    · intro n hn
      exact ⟨hlast n hn, rfl, rfl⟩
    · refine ⟨⟨hblock.fits, hblock.apart, ?_, hblock.ready⟩, ?_⟩
      · intro n hle hlt
        exact (Function.update_of_ne (by omega) _ _).trans (hblock.next n hle hlt)
      · show Function.update q.next (block + N) (q.next node) (block + N) = _
        rw [Function.update_self]
        exact (hlast node hnode).symm
  | extend_link v node block => exact h.links hi
  | extend_publish v node => exact h.publishes hi
  | extend_capacity v node => exact (h.capacity _).quiet hi rfl rfl rfl trivial
  | push_wait v node =>
    simp only [Op.step]
    split
    · exact h.quiet hi rfl rfl rfl trivial
    · next hready => exact h.quiet hi rfl rfl rfl (Bool.of_not_eq_true hready)
  | push_data v node => exact h.writes hi
  | push_ready v node => exact h.fills hi
  | pop_check tail node =>
    simp only [Op.step]
    split
    · exact h.quiet hi rfl rfl rfl trivial
    · refine ⟨slots, free, reads, ?_, .empty⟩
      apply h.same
      · rw [hi]
        rfl
      · rw [hi]
        rfl
      · rw [hi]
        rfl
      · intro op' hop
        cases hop
  | pop_exchange tail node =>
    simp only [Op.step]
    split
    · next htail => exact h.takes hi htail hfresh
    · exact h.quiet hi rfl rfl rfl trivial
  | pop_data node => exact h.quiet hi rfl rfl rfl rfl
  | pop_ready node data => exact h.gives hi

/-- A thread begins a `push` or `pop`. -/
theorem begin (h : Inv N q ops slots free reads) (hi : ops i = none)
    (hop : op = .pop_load ∨ ∃ v, op = .push_load v) :
    Inv N q (Function.update ops i (some op)) slots free reads := by
  apply h.same
  · rw [hi]
    rcases hop with rfl | ⟨v, rfl⟩ <;> rfl
  · rw [hi]
    rcases hop with rfl | ⟨v, rfl⟩ <;> rfl
  · rw [hi]
    rcases hop with rfl | ⟨v, rfl⟩ <;> rfl
  · intro op' hop'
    cases hop'
    rcases hop with rfl | ⟨v, rfl⟩ <;> trivial

end Inv

/-! ## Section 3: A new queue -/

theorem init_list_inv {N : Nat} (hN : 2 ≤ N) (size : Int) :
    ∃ free, Inv N (init_list N size : Nodes τ) (fun _ : ι => none) [] free (fun _ => none) := by
  obtain ⟨blocks, hblocks⟩ : ∃ blocks, blocks = max 1 ((size + N - 1) / N).toNat := ⟨_, rfl⟩
  obtain ⟨c, hc⟩ : ∃ c, blocks * N = c + 2 := by
    have hone : 1 ≤ blocks := by
      rw [hblocks]
      exact Nat.le_max_left 1 _
    have hle : 1 * N ≤ blocks * N := Nat.mul_le_mul_right N hone
    exact ⟨blocks * N - 2, by omega⟩
  have hq : (init_list N size : Nodes τ) =
      { next := fun n => if n + 1 < c + 2 then n + 1 else 0
        ready := fun _ => false
        data := fun _ => none
        head := some 0
        tail := c + 1
        created := c + 2
        capacity := BitVec.ofNat 32 (c + 2) } := by
    unfold init_list
    simp only [← hblocks, hc]
    rfl
  have hrange : List.range' 0 (c + 1) = 0 :: List.range' 1 c := List.range'_succ
  refine ⟨List.range' 0 (c + 1), ?_, nofun⟩
  rw [hq]
  constructor
  case links =>
    show Links _ ((c + 1) :: List.range' 0 (c + 1)) (c + 1)
    refine ⟨?_, ?_⟩
    · rw [hrange]
      exact if_neg (Nat.lt_irrefl _)
    · have hlinks : Links (fun n => if n + 1 < c + 2 then n + 1 else 0) (List.range' 0 (c + 1))
          (0 + (c + 1)) := by
        apply Links.range'
        intro n _ hn
        exact if_pos (by omega)
      rw [Nat.zero_add] at hlinks
      exact hlinks
  case nodup =>
    show ((c + 1) :: List.range' 0 (c + 1)).Nodup
    rw [List.nodup_cons, List.mem_range'_1]
    exact ⟨by omega, List.nodup_range'⟩
  case created =>
    intro n hn
    have hmem : n ∈ (c + 1) :: List.range' 0 (c + 1) := hn
    rw [List.mem_cons, List.mem_range'_1] at hmem
    show n < c + 2
    omega
  case head =>
    intro n hn
    rw [hrange]
    exact hn
  case ready =>
    intro n _ hn
    exact Bool.noConfusion hn
  case not_taken =>
    intro j _
    rfl
  all_goals nofun

end M2m

end Pump
