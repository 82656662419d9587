import Pump.Toolkit.M2mSteps

/-! # Counting the elements of a freelock_m2m_queue

    The users of the queue count its elements in a step of their own after the
    push, and one thread at a time pops as many as are counted. The elements
    are in the order in which their nodes are reserved; where they are counted
    in that order too, those counted are a first part of the line, their
    pushes have returned, and a pop finds the first of them. -/

namespace Pump

namespace M2m

variable {τ ι : Type}

/-! ## Section 1: The element of a push -/

theorem Op.value_of_pushing {op : Op τ} {node : Nat} {v : τ} (h : op.pushing = some (node, v)) :
    op.value = some v := by
  cases op with
  | extend_capacity | push_wait | push_data | push_ready =>
    cases h
    rfl
  | _ => cases h

/-- A push goes on with its element. -/
theorem Op.value_step {N : Nat} {created : Bool} {q : Nodes τ} {op op' : Op τ}
    (h : (op.step N created q).2 = .goes op') : op'.value = op.value := by
  cases op with
  | push_head v node =>
    rcases node with _ | node
    all_goals
      cases h
      rfl
  | push_next | push_exchange | extend_lock | extend_create | push_wait | pop_check
  | pop_exchange =>
    simp only [step] at h
    split at h
    all_goals
      cases h
      try rfl
  | push_ready | pop_ready => cases h
  | _ =>
    cases h
    rfl

/-- A step that reserves a node, and only that, begins to push at a node. -/
theorem Op.reserves_iff {N : Nat} {created : Bool} {q : Nodes τ} {op op' : Op τ}
    (h : (op.step N created q).2 = .goes op') :
    op.reserves op' = true ↔ op'.pushing ≠ op.pushing := by
  cases op with
  | push_head v node =>
    rcases node with _ | node
    all_goals
      cases h
      simp [reserves, pushing]
  | push_next | push_exchange | extend_lock | extend_create | push_wait | pop_check
  | pop_exchange =>
    simp only [step] at h
    split at h
    all_goals
      cases h
      try simp [reserves, pushing]
  | push_ready | pop_ready => cases h
  | _ =>
    cases h
    simp [reserves, pushing]

/-! ## Section 2: The line -/

/-- The elements of the slots: those counted, and those not counted yet, where
    `holds i` is the element thread `i` is pushing or has to count. -/
structure Line (holds : ι → Option τ) (slots : List (Slot τ)) (counted uncounted : List τ) :
    Prop where
  line : slots.map Slot.value = counted ++ uncounted
  unique : ∀ i j v, holds i = some v → holds j = some v → i = j
  finished : ∀ v ∈ counted, ∀ i, holds i ≠ some v

namespace Line

variable {holds holds' : ι → Option τ} {slots slots' : List (Slot τ)}
  {counted uncounted : List τ} {v : τ} {i : ι}

/-- Threads may let go of their elements. -/
theorem mono (h : Line holds slots counted uncounted)
    (hholds : ∀ j v, holds' j = some v → holds j = some v) :
    Line holds' slots counted uncounted := by
  refine ⟨h.line, ?_, ?_⟩
  · intro j k v hj hk
    exact h.unique j k v (hholds j v hj) (hholds k v hk)
  · intro v hv j hj
    exact h.finished v hv j (hholds j v hj)

variable [DecidableEq ι]

/-- A thread begins to push an element that is new. -/
theorem begin (h : Line holds slots counted uncounted) (hnew : ∀ j, holds j ≠ some v)
    (hcounted : v ∉ counted) :
    Line (Function.update holds i (some v)) slots counted uncounted := by
  refine ⟨h.line, ?_, ?_⟩
  · intro j k w hj hk
    rcases update_some hj with ⟨hji, hw⟩ | ⟨-, hw⟩
    · rcases update_some hk with ⟨hki, -⟩ | ⟨-, hw'⟩
      · rw [hji, hki]
      · cases hw
        exact absurd hw' (hnew k)
    · rcases update_some hk with ⟨-, hw'⟩ | ⟨-, hw'⟩
      · cases hw'
        exact absurd hw (hnew j)
      · exact h.unique j k w hw hw'
  · intro w hw j hj
    rcases update_some hj with ⟨-, hw'⟩ | ⟨-, hw'⟩
    · cases hw'
      exact hcounted hw
    · exact h.finished w hw j hw'

/-- The first element that is not counted is counted by its thread. -/
theorem count (h : Line holds slots counted (v :: uncounted)) (hi : holds i = some v) :
    Line (Function.update holds i none) slots (counted ++ [v]) uncounted := by
  refine ⟨?_, ?_, ?_⟩
  · rw [h.line, List.append_assoc]
    rfl
  · intro j k w hj hk
    rcases update_some hj with ⟨-, hw⟩ | ⟨-, hw⟩
    · cases hw
    · rcases update_some hk with ⟨-, hw'⟩ | ⟨-, hw'⟩
      · cases hw'
      · exact h.unique j k w hw hw'
  · intro w hw j hj
    rcases update_some hj with ⟨-, hw'⟩ | ⟨hji, hw'⟩
    · cases hw'
    · rw [List.mem_append, List.mem_singleton] at hw
      rcases hw with hw | rfl
      · exact h.finished w hw j hw'
      · exact hji (h.unique j i w hw' hi)

/-- What a step of an operation does to the line: an element is reserved or
    taken, or the line is as it was. -/
theorem step {N : Nat} {created : Bool} {q : Nodes τ} {op : Op τ} {turn : Turn τ}
    {reads reads' : ι → Option τ} (h : Line holds slots counted uncounted)
    (hturn : (op.step N created q).2 = turn)
    (heff : Effect i op turn slots slots' reads reads') :
    (Line holds slots' counted uncounted ∧ reads' = reads ∧
        ∃ op', turn = .goes op' ∧ op.reserves op' = false ∧ op'.reading = op.reading) ∨
      (∃ op' v, turn = .goes op' ∧ op.reserves op' = true ∧ op.value = some v ∧ reads' = reads ∧
        Line holds slots' counted (uncounted ++ [v])) ∨
      (∃ node v, turn = .goes (.pop_data node) ∧ op.value = none ∧ op.reading = none ∧
        reads' = Function.update reads i (some v) ∧
        counted ++ uncounted = v :: slots'.map Slot.value) ∨
      Line holds slots' counted uncounted ∧ ∃ res, turn = .returns res := by
  cases heff with
  | @quiet _ op' _ _ hps hrd =>
    refine Or.inl ⟨h, rfl, op', rfl, ?_, hrd⟩
    rw [← Bool.not_eq_true, Op.reserves_iff hturn, not_not]
    exact hps
  | @reserve _ op' _ _ node v hps hps' =>
    refine Or.inr (Or.inl ⟨op', v, rfl, ?_, ?_, rfl, ?_, h.unique, h.finished⟩)
    · rw [Op.reserves_iff hturn, hps, hps']
      exact Option.some_ne_none _
    · rw [← Op.value_step hturn]
      exact Op.value_of_pushing hps'
    · rw [List.map_append, h.line, List.append_assoc]
      rfl
  | fill =>
    refine Or.inr (Or.inr (Or.inr ⟨⟨?_, h.unique, h.finished⟩, _, rfl⟩))
    have hline := h.line
    rw [List.map_append, List.map_cons] at hline ⊢
    exact hline
  | take =>
    refine Or.inr (Or.inr (Or.inl ⟨_, _, rfl, rfl, rfl, rfl, ?_⟩))
    rw [← h.line]
    rfl
  | give | empty => exact Or.inr (Or.inr (Or.inr ⟨h, _, rfl⟩))

end Line

/-- Where elements are counted, the next node to pop is ready. -/
theorem Line.first_ready {N : Nat} {q : Nodes τ} {ops : Ops ι τ} {slots : List (Slot τ)}
    {free : List Nat} {reads holds : ι → Option τ} {counted uncounted : List τ}
    (h : Line holds slots counted uncounted) (hinv : Inv N q ops slots free reads)
    (hholds : ∀ i op v, ops i = some op → op.value = some v → holds i = some v)
    (hne : counted ≠ []) : q.ready (q.next q.tail) = true := by
  obtain ⟨v, rest, hcounted⟩ := List.exists_cons_of_ne_nil hne
  have hline := h.line
  rw [hcounted] at hline
  rcases slots with _ | ⟨⟨n, w, full⟩, slots⟩
  · cases hline
  · obtain rfl : w = v := (List.cons.inj hline).1
    have hnext : q.next q.tail = n := hinv.core.links.1
    rw [hnext]
    rcases full with _ | _
    · -- its push has returned, so no thread holds the slot
      obtain ⟨i, hi⟩ := hinv.core.pushed n w List.mem_cons_self
      obtain ⟨op, hop, hps⟩ := Option.bind_eq_some_iff.mp hi
      have hv := hholds i op w hop (Op.value_of_pushing hps)
      exact absurd hv (h.finished w (by rw [hcounted]; exact List.mem_cons_self) i)
    · exact (hinv.core.full n w List.mem_cons_self).1

/-! ## Section 3: One thread that pops -/

/-- What the only thread that pops has read is still so. -/
def Op.Sound (q : Nodes τ) : Op τ → Prop
  | pop_next tail => tail = q.tail
  | pop_check tail node | pop_exchange tail node => tail = q.tail ∧ node = q.next q.tail
  | _ => True

theorem Op.Sound.frame {q q' : Nodes τ} {op : Op τ} (h : op.Sound q) (htail : q'.tail = q.tail)
    (hnext : q'.next q.tail = q.next q.tail) : op.Sound q' := by
  cases op with
  | pop_next tail => exact Eq.trans h htail.symm
  | pop_check tail node | pop_exchange tail node =>
    refine ⟨h.1.trans htail.symm, ?_⟩
    rw [htail, hnext]
    exact h.2
  | _ => trivial

/-- The steps of a push leave the tail and the node behind it as they are. -/
theorem Inv.front_kept {N : Nat} {q : Nodes τ} {ops : Ops ι τ} {slots : List (Slot τ)}
    {free : List Nat} {reads : ι → Option τ} {i : ι} {op : Op τ}
    (h : Inv (N + 1) q ops slots free reads) (hi : ops i = some op) (hpush : op.value ≠ none)
    (created : Bool) :
    (op.step (N + 1) created q).1.tail = q.tail ∧
      (op.step (N + 1) created q).1.next q.tail = q.next q.tail := by
  cases op with
  | push_load | push_desired | extend_unlock | extend_publish | extend_capacity | push_data
  | push_ready => exact ⟨rfl, rfl⟩
  | push_head v node =>
    rcases node with _ | node
    · exact ⟨rfl, rfl⟩
    · exact ⟨rfl, rfl⟩
  | push_next | push_exchange | extend_lock | push_wait =>
    simp only [Op.step]
    split
    · exact ⟨rfl, rfl⟩
    · exact ⟨rfl, rfl⟩
  | extend_create v node =>
    simp only [Op.step]
    split
    · refine ⟨rfl, if_neg ?_⟩
      have hlt := h.core.created q.tail List.mem_cons_self
      omega
    · exact ⟨rfl, rfl⟩
  | extend_last v node block =>
    have hblock : Block (N + 1) q (ring q slots free) block := h.fact i _ hi
    have hlt := hblock.apart q.tail List.mem_cons_self
    exact ⟨rfl, Function.update_of_ne (by omega) _ _⟩
  | extend_link v node block =>
    refine ⟨rfl, Function.update_of_ne ?_ _ _⟩
    intro heq
    have hhead := (h.core.locks i node (locked_eq hi)).2
    apply (List.nodup_cons.mp h.core.nodup).1
    rw [heq]
    exact List.mem_append_right _ (List.mem_of_head? hhead)
  | _ => exact absurd rfl hpush

/-- The next step of the only thread that pops, where the next node is ready. -/
theorem Op.pop_step {q : Nodes τ} {op : Op τ} (N : Nat) (created : Bool) (hpop : op.value = none)
    (hsound : op.Sound q) (hready : op.reading = none → q.ready (q.next q.tail) = true) :
    (∃ op', (op.step N created q).2 = .goes op' ∧ op'.value = none ∧
        op'.Sound (op.step N created q).1) ∨
      op.reading ≠ none ∧ ∃ data, (op.step N created q).2 = .returns (.popped data) := by
  cases op with
  | pop_load => exact Or.inl ⟨_, rfl, rfl, rfl⟩
  | pop_next tail =>
    refine Or.inl ⟨_, rfl, rfl, hsound, ?_⟩
    rw [show tail = q.tail from hsound]
    rfl
  | pop_check tail node =>
    obtain ⟨htail, hnode⟩ := hsound
    simp only [Op.step]
    rw [if_pos (by rw [hnode]; exact hready rfl)]
    exact Or.inl ⟨_, rfl, rfl, htail, hnode⟩
  | pop_exchange tail node =>
    simp only [Op.step]
    rw [if_pos hsound.1.symm]
    exact Or.inl ⟨_, rfl, rfl, trivial⟩
  | pop_data node => exact Or.inl ⟨_, rfl, rfl, trivial⟩
  | pop_ready node data => exact Or.inr ⟨Option.some_ne_none node, data, rfl⟩
  | _ => cases hpop

/-- The compare and exchange of the only thread that pops is right. -/
theorem Op.fresh_of_sound {q : Nodes τ} {ops : Ops ι τ} {i : ι} {op : Op τ}
    (hpop : op.value = none) (hsound : op.Sound q) (hi : ops i = some op)
    (hothers : ∀ j op', j ≠ i → ops j = some op' → op'.value ≠ none)
    (hready : op.reading = none → q.ready (q.next q.tail) = true) : op.Fresh q ops := by
  cases op with
  | pop_exchange tail node =>
    obtain ⟨htail, hnode⟩ := hsound
    intro _
    refine ⟨by rw [htail, hnode], by rw [hnode]; exact hready rfl, ?_⟩
    intro j hj
    obtain ⟨op', hop, hrd⟩ := Option.bind_eq_some_iff.mp hj
    by_cases hji : j = i
    · rw [hji, hi] at hop
      cases hop
      cases hrd
    · apply hothers j op' hji hop
      cases op' with
      | pop_data | pop_ready => rfl
      | _ => cases hrd
  | push_exchange => cases hpop
  | _ => trivial

/-! ## Section 4: Pushes and one pop at a time -/

/-- Only `pop_data` goes on to give the node back. -/
theorem Op.goes_pop_ready {N : Nat} {created : Bool} {q : Nodes τ} {op : Op τ}
    {node : Nat} {data : Option τ} (h : (op.step N created q).2 = .goes (.pop_ready node data)) :
    op = .pop_data node ∧ data = q.data node := by
  cases op with
  | pop_data node =>
    cases h
    exact ⟨rfl, rfl⟩
  | push_head v node =>
    rcases node with _ | node
    · cases h
    · cases h
  | push_next | push_exchange | extend_lock | extend_create | push_wait | pop_check
  | pop_exchange =>
    simp only [Op.step] at h
    split at h
    · cases h
    · cases h
  | _ => cases h

/-- What a push returns. -/
theorem Op.returns_of_value {N : Nat} {created : Bool} {q : Nodes τ} {op : Op τ} {v : τ}
    {res : Result τ} (hv : op.value = some v) (h : (op.step N created q).2 = .returns res) :
    res = .pushed v := by
  cases op with
  | push_ready w node =>
    cases hv
    cases h
    rfl
  | push_head w node =>
    rcases node with _ | node
    · cases h
    · cases h
  | push_next | push_exchange | extend_lock | extend_create | push_wait =>
    simp only [step] at h
    split at h
    · cases h
    · cases h
  | pop_load | pop_next | pop_check | pop_exchange | pop_data | pop_ready => cases hv
  | _ => cases h

section

variable [DecidableEq ι] {N : Nat} {q : Nodes τ} {ops : Ops ι τ} {slots : List (Slot τ)}
  {free : List Nat} {reads : ι → Option τ} {i : ι} {op : Op τ}

/-- The next step of a push: it goes on, reserves a node, or returns with its
    node ready. -/
theorem Inv.push_step {v : τ} (h : Inv (N + 1) q ops slots free reads) (hi : ops i = some op)
    (hv : op.value = some v) (hfresh : op.Fresh q ops) (created : Bool) :
    ∃ slots' free', Inv (N + 1) (op.step (N + 1) created q).1
        (Function.update ops i (op.step (N + 1) created q).2.op) slots' free' reads ∧
      ((∃ op', (op.step (N + 1) created q).2 = .goes op' ∧ op'.value = some v ∧
          op'.pushing = op.pushing ∧ slots' = slots) ∨
        (∃ op' node, (op.step (N + 1) created q).2 = .goes op' ∧ op'.value = some v ∧
          op.pushing = none ∧ op'.pushing = some (node, v) ∧
          slots' = slots ++ [⟨node, v, false⟩]) ∨
        ((op.step (N + 1) created q).2 = .returns (.pushed v) ∧ op.pushing ≠ none ∧
          slots'.map Slot.value = slots.map Slot.value)) := by
  obtain ⟨slots', free', reads', hinv, heff⟩ := h.step hi hfresh created
  obtain ⟨turn, hturn⟩ : ∃ turn, turn = (op.step (N + 1) created q).2 := ⟨_, rfl⟩
  rw [← hturn] at hinv heff ⊢
  cases heff with
  | @quiet _ op' _ _ hps hrd =>
    have hval := Op.value_step hturn.symm
    exact ⟨slots, free', hinv, Or.inl ⟨op', rfl, hval.trans hv, hps, rfl⟩⟩
  | @reserve _ op' _ _ node w hps hps' =>
    have hval := (Op.value_step hturn.symm).trans hv
    have hw := Op.value_of_pushing hps'
    rw [hval] at hw
    cases hw
    exact ⟨_, free', hinv, Or.inr (Or.inl ⟨op', node, rfl, hval, hps, hps', rfl⟩)⟩
  | @fill _ before after _ node w hps =>
    have hw := Op.value_of_pushing hps
    rw [hv] at hw
    cases hw
    refine ⟨_, free', hinv, Or.inr (Or.inr ⟨rfl, ?_, ?_⟩)⟩
    · rw [hps]
      exact Option.some_ne_none _
    · rw [List.map_append, List.map_append]
      rfl
  | take => cases hv
  | give | empty => cases Op.returns_of_value hv hturn.symm

omit [DecidableEq ι] in
/-- A ready node of the ring stays ready in the steps of a push. -/
theorem Inv.ready_kept {n : Nat} (h : Inv (N + 1) q ops slots free reads) (hi : ops i = some op)
    (hv : op.value ≠ none) (hn : n ∈ ring q slots free) (hready : q.ready n = true)
    (created : Bool) : (op.step (N + 1) created q).1.ready n = true := by
  cases op with
  | push_head v node =>
    rcases node with _ | node
    · exact hready
    · exact hready
  | push_next | push_exchange | extend_lock | push_wait =>
    simp only [Op.step]
    split
    · exact hready
    · exact hready
  | extend_create v node =>
    simp only [Op.step]
    split
    · have hlt := h.core.created n hn
      exact (if_neg (by omega)).trans hready
    · exact hready
  | push_ready v node =>
    show Function.update q.ready node true n = true
    by_cases hne : n = node
    · rw [hne, Function.update_self]
    · rw [Function.update_of_ne hne, hready]
  | pop_load | pop_next | pop_check | pop_exchange | pop_data | pop_ready => exact absurd rfl hv
  | _ => exact hready

/-- What the only thread that pops has read is still so, also that the node
    was ready. -/
def Op.Settled (q : Nodes τ) (op : Op τ) : Prop :=
  op.Sound q ∧ ∀ tail node, op = .pop_exchange tail node → q.ready node = true

omit [DecidableEq ι] in
/-- The steps of a push change nothing of that. -/
theorem Inv.settled_kept {op' : Op τ} (h : Inv (N + 1) q ops slots free reads)
    (hi : ops i = some op) (hv : op.value ≠ none) (hs : op'.Settled q) (created : Bool) :
    op'.Settled (op.step (N + 1) created q).1 := by
  obtain ⟨htail, hnext⟩ := h.front_kept hi hv created
  refine ⟨hs.1.frame htail hnext, ?_⟩
  intro tail node hop
  have hsound := hs.1
  rw [hop] at hsound
  apply h.ready_kept hi hv _ (hs.2 tail node hop)
  -- the node is the one behind the tail
  rw [show node = q.next q.tail from hsound.2, h.core.links.1]
  unfold ring
  rcases slots.map Slot.node ++ free with _ | ⟨n, l⟩
  · exact List.mem_cons_self
  · exact List.mem_cons_of_mem _ List.mem_cons_self

/-- The next step of the only thread that pops: it goes on, takes the first
    slot, returns its element, or finds that the node is not ready. -/
theorem Inv.pop_step (h : Inv (N + 1) q ops slots free reads) (hi : ops i = some op)
    (hpop : op.value = none) (hs : op.Settled q)
    (hothers : ∀ j op', j ≠ i → ops j = some op' → op'.value ≠ none) (created : Bool) :
    ∃ slots' free' reads', Inv (N + 1) (op.step (N + 1) created q).1
        (Function.update ops i (op.step (N + 1) created q).2.op) slots' free' reads' ∧
      ((∃ op', (op.step (N + 1) created q).2 = .goes op' ∧ op'.value = none ∧
          op'.Settled (op.step (N + 1) created q).1 ∧ op'.reading = op.reading ∧ slots' = slots ∧
          reads' = reads) ∨
        (∃ tail node v, op = .pop_exchange tail node ∧
          (op.step (N + 1) created q).2 = .goes (.pop_data node) ∧
          slots = ⟨node, v, true⟩ :: slots' ∧ reads' = Function.update reads i (some v)) ∨
        (∃ node v, op = .pop_ready node (some v) ∧
          (op.step (N + 1) created q).2 = .returns (.popped (some v)) ∧ reads i = some v ∧
          slots' = slots ∧ reads' = Function.update reads i none) ∨
        (∃ tail node, op = .pop_check tail node ∧ q.ready node = false ∧
          (op.step (N + 1) created q).2 = .returns .empty ∧ slots' = slots ∧ reads' = reads)) := by
  have hsound := hs.1
  cases op with
  | pop_load =>
    obtain ⟨slots', free', reads', hinv, heff⟩ := h.step hi trivial created
    cases heff with
    | quiet hps hrd =>
      refine ⟨slots, free', reads, hinv, Or.inl ⟨_, rfl, rfl, ⟨rfl, by simp⟩, rfl, rfl, rfl⟩⟩
    | reserve hps hps' => cases hps'
  | pop_next tail =>
    obtain ⟨slots', free', reads', hinv, heff⟩ := h.step hi trivial created
    cases heff with
    | quiet hps hrd =>
      have hnext : q.next tail = q.next q.tail := congrArg q.next hsound
      have hsound' : (Op.pop_check tail (q.next tail) : Op τ).Sound q := And.intro hsound hnext
      have hs' : (Op.pop_check tail (q.next tail) : Op τ).Settled q := ⟨hsound', by simp⟩
      exact ⟨slots, free', reads, hinv, Or.inl ⟨_, rfl, rfl, hs', rfl, rfl, rfl⟩⟩
    | reserve hps hps' => cases hps'
  | pop_check tail node =>
    obtain ⟨slots', free', reads', hinv, heff⟩ := h.step hi trivial created
    obtain ⟨turn, hturn⟩ :
        ∃ turn, turn = ((Op.pop_check tail node : Op τ).step (N + 1) created q) := ⟨_, rfl⟩
    rw [← hturn] at hinv heff ⊢
    simp only [Op.step] at hturn
    split at hturn
    · next hready =>
      rw [hturn] at hinv heff ⊢
      cases heff with
      | quiet hps hrd =>
        refine ⟨slots, free', reads, hinv, Or.inl ⟨_, rfl, rfl, ⟨hsound, ?_⟩, rfl, rfl, rfl⟩⟩
        intro tail' node' hop
        cases hop
        exact hready
      | reserve hps hps' => cases hps'
    · next hready =>
      rw [hturn] at hinv heff ⊢
      cases heff with
      | empty =>
        exact ⟨slots, free', reads, hinv,
          Or.inr (Or.inr (Or.inr ⟨tail, node, rfl, Bool.of_not_eq_true hready, rfl, rfl, rfl⟩))⟩
  | pop_exchange tail node =>
    -- no other thread pops, so that the tail is the one loaded
    obtain ⟨htail, hnode⟩ := id hsound
    have hready := hs.2 tail node rfl
    have hfresh : (Op.pop_exchange tail node : Op τ).Fresh q ops := by
      apply Op.fresh_of_sound rfl hsound hi hothers
      intro _
      rw [← hnode]
      exact hready
    obtain ⟨slots', free', reads', hinv, heff⟩ := h.step hi hfresh created
    have hstep : (Op.pop_exchange tail node : Op τ).step (N + 1) created q =
        ({ q with tail := node }, .goes (.pop_data node)) := by
      simp only [Op.step, if_pos htail.symm]
    rw [hstep] at hinv heff ⊢
    cases heff with
    | quiet hps hrd => cases hrd
    | reserve hps hps' => cases hps'
    | take => exact ⟨slots', free', _, hinv, Or.inr (Or.inl ⟨tail, node, _, rfl, rfl, rfl, rfl⟩)⟩
  | pop_data node =>
    obtain ⟨slots', free', reads', hinv, heff⟩ := h.step hi trivial created
    cases heff with
    | quiet hps hrd =>
      refine ⟨slots, free', reads, hinv, Or.inl ⟨_, rfl, rfl, ⟨trivial, by simp⟩, rfl, rfl, rfl⟩⟩
    | reserve hps hps' => cases hps'
  | pop_ready node data =>
    -- what the thread has read is the value of its node
    obtain ⟨slots', free', reads', hinv, heff⟩ := h.step hi trivial created
    have hdata : data = q.data node := h.fact i _ hi
    obtain ⟨-, -, v, hreads, hv⟩ := h.core.taken i node ((Inv.reading_eq hi).trans rfl)
    rw [hdata, hv] at hi heff hinv ⊢
    obtain ⟨turn, hturn⟩ :
        ∃ turn, turn = ((Op.pop_ready node (some v) : Op τ).step (N + 1) created q).2 := ⟨_, rfl⟩
    have hret : turn = .returns (.popped (some v)) := hturn
    rw [← hturn] at hinv heff ⊢
    rw [hret] at hinv heff ⊢
    cases heff with
    | give hreads' =>
      exact ⟨slots, free', _, hinv, Or.inr (Or.inr (Or.inl ⟨node, v, rfl, rfl, hreads, rfl, rfl⟩))⟩
  | _ => cases hpop

omit [DecidableEq ι] in
/-- Where no thread pushes and the node behind the tail is not ready, the list
    is empty. -/
theorem Inv.slots_nil (h : Inv N q ops slots free reads) (hpushing : ∀ j, pushing (ops j) = none)
    (hready : q.ready (q.next q.tail) = false) : slots = [] := by
  rcases slots with _ | ⟨⟨n, v, full⟩, slots⟩
  · rfl
  · have hnext : q.next q.tail = n := h.core.links.1
    rw [hnext] at hready
    rcases full with _ | _
    · -- a thread would be pushing the first element
      obtain ⟨j, hj⟩ := h.core.pushed n v List.mem_cons_self
      have hnone := (hpushing j).symm.trans hj
      cases hnone
    · have htrue := (h.core.full n v List.mem_cons_self).1
      rw [hready] at htrue
      cases htrue

end

end M2m

end Pump
