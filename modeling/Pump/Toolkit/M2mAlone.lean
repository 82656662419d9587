import Pump.Links
import Pump.Toolkit.M2mQueue

/-! # A freelock_m2m_queue with one thread

    The calls of a single thread run one after the other. None of them waits,
    and the queue is first in, first out. Between the calls the nodes of all
    blocks are one ring: the tail, the nodes that hold the elements, and the
    free nodes, of which the head is the first. -/

namespace Pump

namespace M2m

variable {τ : Type}

/-! ## Section 1: Model -/

inductive Call (τ : Type) where
  | push (v : τ)
  | pop
  | empty

inductive Answer (τ : Type) where
  | returned (r : Result τ)
  | is_empty (b : Bool)
  deriving DecidableEq

/-- The operation is in a loop that only another thread can end. -/
def Op.waits (q : Nodes τ) : Op τ → Bool
  | .push_head _ node => node.isNone
  | .push_wait _ node => q.ready node
  | _ => false

/-- An operation without other threads, where every block can be created. There
    is no result if it waits, or has not returned after that many steps. -/
def Op.run (PerBlockElementCount : Nat) : Nat → Nodes τ → Op τ → Option (Nodes τ × Result τ)
  | 0, _, _ => none
  | steps + 1, q, op =>
    if op.waits q then none
    else match op.step PerBlockElementCount true q with
      | (q', .goes op') => Op.run PerBlockElementCount steps q' op'
      | (q', .returns r) => some (q', r)

/-- `empty`. -/
def empty (q : Nodes τ) : Bool := q.head = some (q.next q.tail)

/-- A call; a `push` that extends the list is the longest. -/
def Call.run (PerBlockElementCount : Nat) (q : Nodes τ) : Call τ → Option (Nodes τ × Answer τ)
  | push v =>
    (Op.run PerBlockElementCount 12 q (.push_load v)).map fun (q', r) => (q', .returned r)
  | pop => (Op.run PerBlockElementCount 12 q .pop_load).map fun (q', r) => (q', .returned r)
  | empty => some (q, .is_empty (M2m.empty q))

/-- The calls one after the other, with their answers. -/
def Call.runs (PerBlockElementCount : Nat) (q : Nodes τ) :
    List (Call τ) → Option (Nodes τ × List (Answer τ))
  | [] => some (q, [])
  | c :: calls =>
    (c.run PerBlockElementCount q).bind fun (q', answer) =>
      (Call.runs PerBlockElementCount q' calls).map fun (q'', answers) => (q'', answer :: answers)

/-- What a queue of elements answers. -/
def Call.serve (values : List τ) : Call τ → List τ × Answer τ
  | push v => (values ++ [v], .returned (.pushed v))
  | pop =>
    match values with
    | [] => ([], .returned .empty)
    | v :: values => (values, .returned (.popped (some v)))
  | empty => (values, .is_empty values.isEmpty)

def Call.serves (values : List τ) : List (Call τ) → List τ × List (Answer τ)
  | [] => (values, [])
  | c :: calls =>
    let (values', answer) := c.serve values
    let (values'', answers) := Call.serves values' calls
    (values'', answer :: answers)

/-! ## Section 2: The ring between two calls -/

/-- The nodes of all blocks are a ring, with the elements in the nodes behind
    the tail and in front of the head. -/
structure Ringed (N : Nat) (q : Nodes τ) (values : List τ) (slots free : List Nat) : Prop where
  links : Links q.next (q.tail :: (slots ++ free)) q.tail
  all : (q.tail :: (slots ++ free)).Perm (List.range q.created)
  blocks : N ∣ q.created
  head : ∃ node, q.head = some node ∧ free.head? = some node
  stored : slots.map q.data = values.map some
  ready : ∀ n, q.ready n = true ↔ n ∈ slots
  capacity : q.capacity = BitVec.ofNat 32 q.created

namespace Ringed

variable {N : Nat} {q : Nodes τ} {values : List τ} {slots free : List Nat} {node : Nat}

theorem nodup (h : Ringed N q values slots free) : (q.tail :: (slots ++ free)).Nodup :=
  h.all.nodup_iff.mpr List.nodup_range

theorem lt_created (h : Ringed N q values slots free) {n : Nat}
    (hn : n ∈ q.tail :: (slots ++ free)) : n < q.created :=
  List.mem_range.mp (h.all.mem_iff.mp hn)

theorem length (h : Ringed N q values slots free) :
    (q.tail :: (slots ++ free)).length = q.created := by
  rw [h.all.length_eq, List.length_range]

/-- The ring has `capacity()` nodes in the range of its type. -/
theorem capacity_toInt (h : Ringed N q values slots free) (hlt : q.created < 2 ^ 31) :
    q.capacity.toInt = q.created := by
  rw [h.capacity, BitVec.toInt_ofNat', Int.bmod_eq_of_le (by omega) (by omega)]

/-- The head is not ready. -/
theorem head_unready (h : Ringed N q values slots free) (hfree : free.head? = some node) :
    q.ready node = false := by
  rw [← Bool.not_eq_true, h.ready]
  intro hmem
  have hapart := (List.nodup_append.mp (List.nodup_cons.mp h.nodup).2).2.2
  exact hapart node hmem node (List.mem_of_head? hfree) rfl

theorem next_head (h : Ringed N q values slots (node :: free)) :
    q.next node = free.headD q.tail := by
  have hlinks := h.links
  rw [← List.cons_append, Links.append] at hlinks
  exact hlinks.2.1

theorem next_tail (h : Ringed N q values slots free) :
    q.next q.tail = (slots ++ free).headD q.tail := h.links.1

end Ringed

/-! ## Section 3: One call -/

/-- A node after its push. -/
def Nodes.store (q : Nodes τ) (node : Nat) (v : τ) : Nodes τ :=
  { q with
    data := Function.update q.data node (some v)
    ready := Function.update q.ready node true }

/-- The nodes after an extension at a node. -/
def Nodes.extended (N : Nat) (q : Nodes τ) (node : Nat) : Nodes τ :=
  { next := Function.update (Function.update
      (fun n => if q.created ≤ n ∧ n < q.created + N then n + 1 else q.next n)
        (q.created + N - 1) (q.next node)) node q.created
    ready := fun n => if q.created ≤ n ∧ n < q.created + N then false else q.ready n
    data := fun n => if q.created ≤ n ∧ n < q.created + N then none else q.data n
    head := some q.created
    tail := q.tail
    created := q.created + N
    capacity := q.capacity + BitVec.ofNat 32 N }

/-- A push where the node behind the head is free. -/
theorem run_push {N : Nat} {q : Nodes τ} {node : Nat} (v : τ) (hhead : q.head = some node)
    (hnext : q.next node ≠ q.tail) (hready : q.ready node = false) :
    Op.run N 12 q (.push_load v) =
      some ({ q with head := some (q.next node) }.store node v, .pushed v) := by
  simp [Op.run, Op.waits, Op.step, hhead, hnext, hready, Nodes.store]

/-- A push where the node behind the head is the tail. -/
theorem run_push_extend {N : Nat} {q : Nodes τ} {node : Nat} (v : τ) (hhead : q.head = some node)
    (hnext : q.next node = q.tail) (hready : q.ready node = false) (hlt : node < q.created) :
    Op.run N 12 q (.push_load v) = some ((q.extended N node).store node v, .pushed v) := by
  have hnot : ¬ (q.created ≤ node ∧ node < q.created + N) := by omega
  simp [Op.run, Op.waits, Op.step, hhead, hnext, hready, hnot, Nodes.store, Nodes.extended]

theorem run_pop {N : Nat} {q : Nodes τ} (hready : q.ready (q.next q.tail) = true) :
    Op.run N 12 q .pop_load =
      some ({ q with
        tail := q.next q.tail
        ready := Function.update q.ready (q.next q.tail) false },
        .popped (q.data (q.next q.tail))) := by
  simp [Op.run, Op.waits, Op.step, hready]

theorem run_pop_empty {N : Nat} {q : Nodes τ} (hready : q.ready (q.next q.tail) = false) :
    Op.run N 12 q (.pop_load : Op τ) = some (q, .empty) := by
  simp [Op.run, Op.waits, Op.step, hready]

/-! ## Section 4: What a call does to the ring -/

namespace Ringed

variable {N : Nat} {q : Nodes τ} {values : List τ} {slots free : List Nat} {node m : Nat} {v : τ}

/-- The first free node holds the element. -/
theorem store (h : Ringed N q values slots (node :: free)) (v : τ) {head : Option Nat}
    (hhead : ∃ m, head = some m ∧ free.head? = some m) :
    Ringed N ({ q with head := head }.store node v) (values ++ [v]) (slots ++ [node]) free := by
  have hring : slots ++ [node] ++ free = slots ++ node :: free := by simp
  have hnot : node ∉ slots := by
    rw [← h.ready, h.head_unready rfl]
    exact Bool.false_ne_true
  constructor
  case links =>
    show Links q.next (q.tail :: (slots ++ [node] ++ free)) q.tail
    rw [hring]
    exact h.links
  case all =>
    show (q.tail :: (slots ++ [node] ++ free)).Perm (List.range q.created)
    rw [hring]
    exact h.all
  case blocks => exact h.blocks
  case head => exact hhead
  case stored =>
    show (slots ++ [node]).map (Function.update q.data node (some v)) = _
    rw [List.map_append, List.map_append, ← h.stored]
    congr 1
    · apply List.map_congr_left
      intro n hn
      exact Function.update_of_ne (ne_of_mem_of_not_mem hn hnot) _ _
    · rw [List.map_singleton, Function.update_self]
      rfl
  case ready =>
    intro n
    show Function.update q.ready node true n = true ↔ _
    rw [List.mem_append, List.mem_singleton]
    by_cases hn : n = node
    · rw [hn, Function.update_self]
      exact iff_of_true rfl (Or.inr rfl)
    · rw [Function.update_of_ne hn, h.ready]
      exact (or_iff_left hn).symm
  case capacity => exact h.capacity

/-- The only free node gets a block behind it. -/
theorem extend (h : Ringed (N + 1) q values slots [node]) :
    Ringed (N + 1) { q.extended (N + 1) node with head := some node } values slots
      (node :: List.range' q.created (N + 1)) := by
  have hnode : node < q.created := h.lt_created (by simp)
  have hlinks := h.links
  have hnodup := h.nodup
  rw [← List.cons_append] at hlinks hnodup
  -- the nodes of the ring are not those of the block
  have hold : ∀ n ∈ q.tail :: slots ++ [node],
      ¬ (q.created ≤ n ∧ n < q.created + (N + 1)) ∧ n ≠ q.created + (N + 1) - 1 := by
    intro n hn
    have hlt := h.lt_created hn
    omega
  constructor
  case links =>
    show Links _ (q.tail :: (slots ++ node :: List.range' q.created (N + 1))) q.tail
    rw [← List.cons_append, List.range'_succ, ← List.append_nil (q.created :: _)]
    apply Links.splice
    · rw [Links.congr]
      · exact hlinks
      · intro n hn
        rw [Function.update_of_ne (hold n hn).2, if_neg (hold n hn).1]
    · rw [← List.range'_succ, List.range'_concat, Nat.one_mul, Links.append]
      refine ⟨?_, ?_, trivial⟩
      · apply Links.range'
        intro n hle hlt
        rw [Function.update_of_ne (by omega), if_pos (by omega)]
      · -- the last node of the block is linked to what was behind the head
        have hlast : q.created + N = q.created + (N + 1) - 1 := by omega
        rw [hlast, Function.update_self, Function.update_of_ne (hold node (by simp)).2,
          if_neg (hold node (by simp)).1]
        rfl
    · rw [← List.range'_succ, List.append_nil, List.mem_append, List.mem_range'_1, not_or]
      refine ⟨?_, (hold node (by simp)).1⟩
      rw [List.nodup_append] at hnodup
      intro hmem
      exact hnodup.2.2 node hmem node (List.mem_singleton_self node) rfl
  case all =>
    show (q.tail :: (slots ++ node :: List.range' q.created (N + 1))).Perm
      (List.range (q.created + (N + 1)))
    have hring : q.tail :: (slots ++ node :: List.range' q.created (N + 1)) =
        q.tail :: (slots ++ [node]) ++ List.range' q.created (N + 1) := by simp
    have hrange : List.range (q.created + (N + 1)) =
        List.range q.created ++ List.range' q.created (N + 1) := by
      rw [List.range_eq_range', List.range_eq_range']
      have happend := (List.range'_append_1 (s := 0) (m := q.created) (n := N + 1)).symm
      rw [Nat.zero_add] at happend
      exact happend
    rw [hring, hrange]
    exact h.all.append_right _
  case blocks => exact Nat.dvd_add h.blocks (Nat.dvd_refl _)
  case head => exact ⟨node, rfl, rfl⟩
  case stored =>
    rw [← h.stored]
    apply List.map_congr_left
    intro n hn
    exact if_neg (hold n (by simp [hn])).1
  case ready =>
    intro n
    show (if q.created ≤ n ∧ n < q.created + (N + 1) then false else q.ready n) = true ↔ _
    split
    · next hblock =>
      refine iff_of_false Bool.false_ne_true ?_
      intro hn
      exact (hold n (by simp [hn])).1 hblock
    · exact h.ready n
  case capacity =>
    show q.capacity + BitVec.ofNat 32 (N + 1) = BitVec.ofNat 32 (q.created + (N + 1))
    rw [h.capacity, BitVec.ofNat_add q.created]

/-- The first slot becomes the tail. -/
theorem pop (h : Ringed N q (v :: values) (node :: slots) free) :
    Ringed N { q with tail := node, ready := Function.update q.ready node false } values slots
      (free ++ [q.tail]) := by
  have hring : node :: (slots ++ (free ++ [q.tail])) = node :: (slots ++ free) ++ [q.tail] := by
    simp
  have hnodup := h.nodup
  constructor
  case links =>
    show Links q.next (node :: (slots ++ (free ++ [q.tail]))) node
    rw [hring]
    exact Links.rotate h.links
  case all =>
    show (node :: (slots ++ (free ++ [q.tail]))).Perm (List.range q.created)
    rw [hring]
    exact (List.perm_append_singleton _ _).trans h.all
  case blocks => exact h.blocks
  case head =>
    obtain ⟨m, hm, hfree⟩ := h.head
    refine ⟨m, hm, ?_⟩
    rw [List.head?_append, hfree]
    rfl
  case stored => exact (List.cons.inj h.stored).2
  case ready =>
    intro n
    have hnot : node ∉ slots := by
      rw [List.nodup_cons] at hnodup
      intro hmem
      have hcons := (List.nodup_cons.mp hnodup.2).1
      exact hcons (List.mem_append_left _ hmem)
    show Function.update q.ready node false n = true ↔ _
    by_cases hn : n = node
    · rw [hn, Function.update_self]
      exact iff_of_false Bool.false_ne_true hnot
    · rw [Function.update_of_ne hn, h.ready, List.mem_cons]
      exact or_iff_right hn
  case capacity => exact h.capacity

end Ringed

/-! ## Section 5: Every run -/

/-- One call answers as the queue of the elements does, and keeps the ring. -/
theorem Call.run_ringed {N : Nat} {q : Nodes τ} {values : List τ} {slots free : List Nat}
    (h : Ringed (N + 2) q values slots free) (c : Call τ) :
    ∃ q' slots' free', c.run (N + 2) q = some (q', (c.serve values).2) ∧
      Ringed (N + 2) q' (c.serve values).1 slots' free' := by
  obtain ⟨node, hhead, hfirst⟩ := h.head
  obtain ⟨rest, rfl⟩ : ∃ rest, free = node :: rest := List.head?_eq_some_iff.mp hfirst
  have hready := h.head_unready hfirst
  have hnext := h.next_head
  cases c with
  | push v =>
    rcases rest with _ | ⟨m, rest⟩
    · -- the list is full
      have hlt : node < q.created := h.lt_created (by simp)
      have hrun := run_push_extend (N := N + 2) v hhead hnext hready hlt
      refine ⟨_, _, _, ?_, h.extend.store v ⟨q.created, rfl, rfl⟩⟩
      show Option.map _ _ = _
      rw [hrun]
      rfl
    · have hne : q.next node ≠ q.tail := by
        rw [hnext]
        intro heq
        apply (List.nodup_cons.mp h.nodup).1
        rw [← heq]
        simp
      have hrun := run_push (N := N + 2) v hhead hne hready
      have hsecond : ∃ m', some (q.next node) = some m' ∧ (m :: rest).head? = some m' :=
        ⟨m, congrArg some hnext, rfl⟩
      refine ⟨_, _, _, ?_, h.store v hsecond⟩
      show Option.map _ _ = _
      rw [hrun]
      rfl
  | pop =>
    rcases values with _ | ⟨v, values⟩
    · -- the node behind the tail is the head
      obtain rfl : slots = [] := List.map_eq_nil_iff.mp h.stored
      have hfront : q.next q.tail = node := h.next_tail
      refine ⟨q, [], _, ?_, h⟩
      show Option.map _ _ = _
      rw [run_pop_empty (hfront ▸ hready)]
      rfl
    · obtain ⟨n, slots', hslots, hdata, -⟩ := List.map_eq_cons_iff.mp h.stored
      subst hslots
      have hfront : q.next q.tail = n := h.next_tail
      have hn : q.ready (q.next q.tail) = true := by
        rw [hfront, h.ready]
        exact List.mem_cons_self
      refine ⟨_, _, _, ?_, h.pop⟩
      show Option.map _ _ = _
      rw [run_pop hn, hfront, hdata]
      rfl
  | empty =>
    refine ⟨q, slots, _, ?_, h⟩
    have hempty : M2m.empty q = values.isEmpty := by
      unfold M2m.empty
      rw [hhead, h.next_tail]
      rcases slots with _ | ⟨n, slots⟩
      · obtain rfl : values = [] := List.map_eq_nil_iff.mp h.stored.symm
        exact decide_eq_true rfl
      · rcases values with _ | ⟨v, values⟩
        · cases h.stored
        · apply decide_eq_false
          intro heq
          have hn : node = n := Option.some.inj heq
          have hapart := (List.nodup_append.mp (List.nodup_cons.mp h.nodup).2).2.2
          exact hapart n List.mem_cons_self node List.mem_cons_self hn.symm
    show some (q, Answer.is_empty (M2m.empty q)) = _
    rw [hempty]
    rfl

theorem init_list_ringed {N : Nat} (hN : 2 ≤ N) (size : Int) :
    ∃ free, Ringed N (init_list N size : Nodes τ) [] [] free := by
  obtain ⟨blocks, hblocks⟩ : ∃ blocks, blocks = max 1 ((size + N - 1) / N).toNat := ⟨_, rfl⟩
  -- at least one block of at least two nodes
  obtain ⟨c, hc⟩ : ∃ c, blocks * N = c + 2 := by
    have hone : 1 ≤ blocks := by
      rw [hblocks]
      exact Nat.le_max_left 1 _
    have hle : 1 * N ≤ blocks * N := Nat.mul_le_mul_right N hone
    exact ⟨blocks * N - 2, by omega⟩
  have hcreated : (init_list N size : Nodes τ).created = c + 2 := by
    rw [← hc, hblocks]
    rfl
  have htail : (init_list N size : Nodes τ).tail = c + 1 := by
    show (init_list N size : Nodes τ).created - 1 = c + 1
    rw [hcreated]
    rfl
  have hnext : ∀ n, (init_list N size : Nodes τ).next n = if n + 1 < c + 2 then n + 1 else 0 := by
    intro n
    show (if n + 1 < (init_list N size : Nodes τ).created then n + 1 else 0) = _
    rw [hcreated]
  have hrange : List.range' 0 (c + 1) = 0 :: List.range' 1 c := List.range'_succ
  refine ⟨List.range' 0 (c + 1), ?_⟩
  constructor
  case links =>
    rw [htail, List.nil_append]
    refine ⟨?_, ?_⟩
    · rw [hrange, hnext]
      exact if_neg (Nat.lt_irrefl _)
    · have hlinks : Links (init_list N size : Nodes τ).next (List.range' 0 (c + 1))
          (0 + (c + 1)) := by
        apply Links.range'
        intro n _ hn
        rw [hnext]
        exact if_pos (by omega)
      rw [Nat.zero_add] at hlinks
      exact hlinks
  case all =>
    rw [htail, hcreated, List.nil_append, List.range_succ, List.range_eq_range']
    exact (List.perm_append_singleton _ _).symm
  case blocks =>
    rw [hcreated, ← hc]
    exact Nat.dvd_mul_left N blocks
  case head => exact ⟨0, rfl, by rw [hrange]; rfl⟩
  case stored => rfl
  case ready => exact fun n => iff_of_false Bool.false_ne_true List.not_mem_nil
  case capacity => rfl

theorem Call.runs_ringed {N : Nat} {q : Nodes τ} {values : List τ} {slots free : List Nat}
    (h : Ringed (N + 2) q values slots free) (calls : List (Call τ)) :
    ∃ q' slots' free', Call.runs (N + 2) q calls = some (q', (Call.serves values calls).2) ∧
      Ringed (N + 2) q' (Call.serves values calls).1 slots' free' := by
  induction calls generalizing q values slots free with
  | nil => exact ⟨q, slots, free, rfl, h⟩
  | cons c calls ih =>
    obtain ⟨q', slots', free', hrun, h'⟩ := c.run_ringed h
    obtain ⟨q'', slots'', free'', hruns, h''⟩ := ih h'
    refine ⟨q'', slots'', free'', ?_, h''⟩
    unfold Call.runs
    rw [hrun, Option.bind_some]
    show Option.map _ _ = _
    rw [hruns]
    rfl

/-- **One thread finds a queue**: every call returns without waiting, and
    answers as the queue of the elements does. After every call the nodes of
    all blocks are one ring, of `capacity()` nodes in the range of its type. -/
theorem alone_fifo {N : Nat} (hN : 2 ≤ N) (size : Int) (calls : List (Call τ)) :
    ∃ q slots free, Call.runs N (init_list N size) calls = some (q, (Call.serves [] calls).2) ∧
      Ringed N q (Call.serves [] calls).1 slots free ∧
      (q.created < 2 ^ 31 → ((q.tail :: (slots ++ free)).length : Int) = q.capacity.toInt) := by
  obtain ⟨N, rfl⟩ : ∃ M, N = M + 2 := ⟨N - 2, by omega⟩
  obtain ⟨free, h⟩ := init_list_ringed (τ := τ) hN size
  obtain ⟨q, slots, free', hruns, h'⟩ := Call.runs_ringed h calls
  refine ⟨q, slots, free', hruns, h', ?_⟩
  intro hlt
  rw [h'.length, h'.capacity_toInt hlt]

/-- A queue of two nodes that grows, and goes around. -/
theorem alone_fifo_grows :
    ∃ q slots free, Call.runs 2 (init_list 2 0)
        [.push 1, .push 2, .pop, .push 3, .push 4, .empty, .pop, .pop, .pop, .empty, .pop] =
      some (q, [.returned (.pushed 1), .returned (.pushed 2), .returned (.popped (some 1)),
        .returned (.pushed 3), .returned (.pushed 4), .is_empty false,
        .returned (.popped (some 2)), .returned (.popped (some 3)), .returned (.popped (some 4)),
        .is_empty true, .returned .empty]) ∧
      Ringed 2 q ([] : List Nat) slots free ∧
      (q.created < 2 ^ 31 → ((q.tail :: (slots ++ free)).length : Int) = q.capacity.toInt) :=
  alone_fifo (le_refl 2) 0
    [.push 1, .push 2, .pop, .push 3, .push 4, .empty, .pop, .pop, .pop, .empty, .pop]

/-- The count of the nodes wraps: a new queue may have a negative capacity. -/
theorem not_capacity :
    ¬ ∃ slots free, Ringed 8 (init_list 8 2147483647 : Nodes Nat) [] slots free ∧
      ((((init_list 8 2147483647 : Nodes Nat).tail :: (slots ++ free)).length : Nat) : Int) =
        (init_list 8 2147483647 : Nodes Nat).capacity.toInt := by
  rintro ⟨slots, free, -, heq⟩
  have hneg : (init_list 8 2147483647 : Nodes Nat).capacity.toInt < 0 := by decide
  omega

end M2m

end Pump
