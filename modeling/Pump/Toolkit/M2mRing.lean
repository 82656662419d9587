import Pump.Links
import Pump.Toolkit.M2mQueue

/-! # The ring of a freelock_m2m_queue

    The nodes in the order of the ring: the tail, the slots from the next one
    to pop to the last one reserved, and the free nodes, the head first. A
    slot is full from the moment it is ready until a pop takes it, and is held
    by its push before that. A node that a pop has taken stays ready until the
    pop has read it. -/

namespace Pump

namespace M2m

variable {τ : Type}

/-! ## Section 1: What an operation holds -/

namespace Op

/-- The node at which the operation has locked the head. -/
def locks : Op τ → Option Nat
  | extend_create _ node | extend_unlock _ node | extend_last _ node _ | extend_link _ node _
  | extend_publish _ node => some node
  | _ => none

/-- The node that a push has reserved, and what it pushes. -/
def pushing : Op τ → Option (Nat × τ)
  | extend_capacity v node | push_wait v node | push_data v node | push_ready v node =>
    some (node, v)
  | _ => none

/-- The node that a pop has taken. -/
def reading : Op τ → Option Nat
  | pop_data node | pop_ready node _ => some node
  | _ => none

/-- What a push pushes. -/
def value : Op τ → Option τ
  | push_load v | push_head v _ | push_next v _ _ | push_desired v _ | push_exchange v _ _
  | extend_lock v _ | extend_create v _ | extend_unlock v _ | extend_last v _ _
  | extend_link v _ _ | extend_publish v _ | extend_capacity v _ | push_wait v _
  | push_data v _ | push_ready v _ => some v
  | _ => none

end Op

/-- The operations of the threads, where they have one. -/
abbrev Ops (ι τ : Type) := ι → Option (Op τ)

def locked (o : Option (Op τ)) : Option Nat := o.bind Op.locks

def pushing (o : Option (Op τ)) : Option (Nat × τ) := o.bind Op.pushing

def reading (o : Option (Op τ)) : Option Nat := o.bind Op.reading

/-! ## Section 2: The invariant -/

/-- A node that is reserved, with what is pushed into it. -/
structure Slot (τ : Type) where
  node : Nat
  value : τ
  full : Bool

/-- The nodes in the order of the ring. -/
def ring (q : Nodes τ) (slots : List (Slot τ)) (free : List Nat) : List Nat :=
  q.tail :: (slots.map Slot.node ++ free)

/-- The nodes, where `lk i` is the node at which thread `i` has locked the
    head, `ps i` the one it has reserved, `rd i` the one it has taken, and
    `reads i` the element in that. -/
structure Core {ι : Type} (q : Nodes τ) (lk : ι → Option Nat) (ps : ι → Option (Nat × τ))
    (rd : ι → Option Nat) (slots : List (Slot τ)) (free : List Nat) (reads : ι → Option τ) :
    Prop where
  links : Links q.next (ring q slots free) q.tail
  nodup : (ring q slots free).Nodup
  created : ∀ n ∈ ring q slots free, n < q.created
  head : ∀ n, q.head = some n → free.head? = some n
  locks : ∀ i n, lk i = some n → q.head = none ∧ free.head? = some n
  locks_unique : ∀ i j n m, lk i = some n → lk j = some m → i = j
  pushes : ∀ i n v, ps i = some (n, v) → ⟨n, v, false⟩ ∈ slots
  pushes_unique : ∀ i j n v w, ps i = some (n, v) → ps j = some (n, w) → i = j
  pushed : ∀ n v, ⟨n, v, false⟩ ∈ slots → ∃ i, ps i = some (n, v)
  full : ∀ n v, ⟨n, v, true⟩ ∈ slots →
    q.ready n = true ∧ q.data n = some v ∧ ∀ i, rd i ≠ some n
  taken : ∀ i n, rd i = some n → n ∈ ring q slots free ∧ q.ready n = true ∧
    ∃ v, reads i = some v ∧ q.data n = some v
  not_taken : ∀ i, rd i = none → reads i = none
  takes_unique : ∀ i j n, rd i = some n → rd j = some n → i = j
  ready : ∀ n ∈ ring q slots free, q.ready n = true →
    (∃ v, ⟨n, v, true⟩ ∈ slots) ∨ ∃ i, rd i = some n

/-- A block of nodes that is created and is not in the ring yet. -/
structure Block (N : Nat) (q : Nodes τ) (nodes : List Nat) (block : Nat) : Prop where
  fits : block + N = q.created
  apart : ∀ n ∈ nodes, n < block
  next : ∀ n, block ≤ n → n + 1 < block + N → q.next n = n + 1
  ready : ∀ n, block ≤ n → n < block + N → q.ready n = false

/-- What an operation knows. -/
def Op.Fact (N : Nat) (q : Nodes τ) (nodes free : List Nat) : Op τ → Prop
  | extend_last _ _ block => Block N q nodes block
  | extend_link _ node block =>
    Block N q nodes block ∧ q.next (block + N - 1) = q.next node
  | extend_publish _ node => ∃ m rest, free = node :: m :: rest
  | push_data _ node => q.ready node = false
  | push_ready v node => q.ready node = false ∧ q.data node = some v
  | pop_ready node data => data = q.data node
  | _ => True

/-- The nodes with the operations on them. -/
structure Inv {ι : Type} (N : Nat) (q : Nodes τ) (ops : Ops ι τ) (slots : List (Slot τ))
    (free : List Nat) (reads : ι → Option τ) : Prop where
  core : Core q (locked ∘ ops) (pushing ∘ ops) (reading ∘ ops) slots free reads
  fact : ∀ i op, ops i = some op → op.Fact N q (ring q slots free) free

/-! ## Section 3: Changes of the nodes -/

section

variable {ι : Type}

/-- Where a function has a value after a change at `i`. -/
theorem update_some [DecidableEq ι] {β : Type} {f : ι → Option β} {i j : ι} {o : Option β} {b : β}
    (h : Function.update f i o j = some b) : j = i ∧ o = some b ∨ j ≠ i ∧ f j = some b := by
  by_cases hji : j = i
  · rw [hji, Function.update_self] at h
    exact Or.inl ⟨hji, h⟩
  · rw [Function.update_of_ne hji] at h
    exact Or.inr ⟨hji, h⟩

namespace Core

variable {q : Nodes τ} {lk lk' : ι → Option Nat} {ps : ι → Option (Nat × τ)}
  {rd : ι → Option Nat} {slots : List (Slot τ)} {free : List Nat} {reads : ι → Option τ}
  {i : ι} {node m block : Nat} {rest : List Nat} {v : τ}

theorem slots_nodup (h : Core q lk ps rd slots free reads) : (slots.map Slot.node).Nodup :=
  (List.nodup_append.mp (List.nodup_cons.mp h.nodup).2).1

/-- A node is in one slot. -/
theorem slot_eq (h : Core q lk ps rd slots free reads) {a b : Slot τ} (ha : a ∈ slots)
    (hb : b ∈ slots) (hab : a.node = b.node) : a = b :=
  List.inj_on_of_nodup_map h.slots_nodup ha hb hab

theorem slot_mem_ring {a : Slot τ} (ha : a ∈ slots) : a.node ∈ ring q slots free :=
  List.mem_cons_of_mem _ (List.mem_append_left _ (List.mem_map_of_mem ha))

theorem free_not_slot (h : Core q lk ps rd slots free reads) {a : Slot τ} (ha : a ∈ slots)
    (hfree : node ∈ free) : a.node ≠ node := by
  intro heq
  have hapart := (List.nodup_append.mp (List.nodup_cons.mp h.nodup).2).2.2
  exact hapart a.node (List.mem_map_of_mem ha) node hfree heq

theorem next_free (h : Core q lk ps rd slots free reads) (hfree : free = node :: rest) :
    q.next node = rest.headD q.tail := by
  have hlinks := h.links
  have hring : ring q slots free = (q.tail :: slots.map Slot.node) ++ node :: rest := by
    rw [hfree]
    rfl
  rw [hring, Links.append] at hlinks
  exact hlinks.2.1

/-- The node of a push is neither full nor taken once it is not ready. -/
theorem ready_of_taken (h : Core q lk ps rd slots free reads) (hready : q.ready node = false)
    (j : ι) : rd j ≠ some node := by
  intro hj
  have htrue := (h.taken j node hj).2.1
  rw [hready] at htrue
  exact Bool.noConfusion htrue

/-- Nodes that are not in the ring may change, and what is in one that is neither full nor taken. -/
theorem congr (h : Core q lk ps rd slots free reads) {q' : Nodes τ} (hhead : q'.head = q.head)
    (htail : q'.tail = q.tail) (hcreated : q.created ≤ q'.created)
    (hnext : ∀ n ∈ ring q slots free, q'.next n = q.next n)
    (hready : ∀ n ∈ ring q slots free, q'.ready n = q.ready n)
    (hdata : ∀ n, (∃ w, ⟨n, w, true⟩ ∈ slots) ∨ (∃ j, rd j = some n) → q'.data n = q.data n) :
    Core q' lk ps rd slots free reads := by
  have hring : ring q' slots free = ring q slots free := by
    unfold ring
    rw [htail]
  refine { h with links := ?_, nodup := ?_, created := ?_, head := ?_, locks := ?_, full := ?_,
                  taken := ?_, ready := ?_ }
  · rw [hring, htail, Links.congr hnext]
    exact h.links
  · rw [hring]
    exact h.nodup
  · rw [hring]
    intro n hn
    exact (h.created n hn).trans_le hcreated
  · rw [hhead]
    exact h.head
  · rw [hhead]
    exact h.locks
  · intro n w ha
    rw [hready n (slot_mem_ring ha), hdata n (Or.inl ⟨w, ha⟩)]
    exact h.full n w ha
  · intro j n hj
    rw [hring, hready n (h.taken j n hj).1, hdata n (Or.inr ⟨j, hj⟩)]
    exact h.taken j n hj
  · rw [hring]
    intro n hn hn'
    rw [hready n hn] at hn'
    exact h.ready n hn hn'

/-- A block is linked in behind the head. -/
theorem link (h : Core q lk ps rd slots free reads) {N : Nat} (hi : lk i = some node)
    (hfree : free = node :: rest) (hblock : Block (N + 1) q (ring q slots free) block)
    (hlast : q.next (block + N) = q.next node) :
    Core { q with next := Function.update q.next node block } lk ps rd slots
      (node :: (List.range' block (N + 1) ++ rest)) reads := by
  obtain ⟨front, hfront⟩ : ∃ front, front = q.tail :: slots.map Slot.node := ⟨_, rfl⟩
  have hring : ring q slots free = front ++ node :: rest := by
    rw [hfree, hfront]
    rfl
  have hring' : ring { q with next := Function.update q.next node block } slots
      (node :: (List.range' block (N + 1) ++ rest)) =
        front ++ node :: (List.range' block (N + 1) ++ rest) := by
    rw [hfront]
    rfl
  -- the new ring is the old one and the block
  have hperm : (front ++ node :: (List.range' block (N + 1) ++ rest)).Perm
      (List.range' block (N + 1) ++ ring q slots free) := by
    rw [hring]
    exact splice_perm front _ rest node
  have hmem : ∀ n, n ∈ front ++ node :: (List.range' block (N + 1) ++ rest) →
      block ≤ n ∧ n < block + (N + 1) ∨ n ∈ ring q slots free := by
    intro n hn
    rw [hperm.mem_iff, List.mem_append, List.mem_range'_1] at hn
    exact hn
  have hsub : ∀ n, n ∈ ring q slots free →
      n ∈ front ++ node :: (List.range' block (N + 1) ++ rest) := by
    intro n hn
    rw [hperm.mem_iff]
    exact List.mem_append_right _ hn
  have hlocked := (h.locks i node hi).1
  refine { h with links := ?_, nodup := ?_, created := ?_, head := ?_, locks := ?_, taken := ?_,
                  ready := ?_ }
  · rw [hring']
    have hlinks := h.links
    rw [hring] at hlinks
    rw [List.range'_succ]
    apply Links.splice hlinks
    · -- the nodes of the block, the last of them linked to what follows the head
      rw [← List.range'_succ, List.range'_concat, Nat.one_mul, Links.append]
      refine ⟨Links.range' ?_, hlast, trivial⟩
      intro n hle hlt
      exact hblock.next n hle (by omega)
    · have hnodup := h.nodup
      rw [hring, List.nodup_middle, List.nodup_cons] at hnodup
      rw [← List.range'_succ, List.mem_append, not_or]
      refine ⟨hnodup.1, ?_⟩
      intro hblk
      rw [List.mem_range'_1] at hblk
      have hlt := hblock.apart node (by rw [hring]; simp)
      omega
  · rw [hring', hperm.nodup_iff, List.nodup_append]
    refine ⟨List.nodup_range', h.nodup, ?_⟩
    intro n hn m hm heq
    rw [List.mem_range'_1] at hn
    have hlt := hblock.apart m hm
    omega
  · rw [hring']
    intro n hn
    have hfits := hblock.fits
    rcases hmem n hn with hblk | hold
    · show n < q.created
      omega
    · exact h.created n hold
  · intro n hn
    have hnone : q.head = some n := hn
    rw [hlocked] at hnone
    cases hnone
  · intro j n hj
    have hold := h.locks j n hj
    rw [hfree] at hold
    exact hold
  · intro j n hj
    obtain ⟨hn, hrest⟩ := h.taken j n hj
    rw [hring']
    exact ⟨hsub n hn, hrest⟩
  · rw [hring']
    intro n hn hready
    rcases hmem n hn with ⟨hle, hlt⟩ | hold
    · have hfalse : q.ready n = true := hready
      rw [hblock.ready n hle hlt] at hfalse
      exact Bool.noConfusion hfalse
    · exact h.ready n hold hready

/-- A node behind the tail that is ready and not taken is that of the first slot, and is full. -/
theorem front (h : Core q lk ps rd slots free reads) (hready : q.ready (q.next q.tail) = true)
    (hrd : ∀ j, rd j ≠ some (q.next q.tail)) :
    ∃ w slots', slots = ⟨q.next q.tail, w, true⟩ :: slots' := by
  obtain ⟨hnext, -⟩ := h.links
  have hmem : q.next q.tail ∈ ring q slots free := by
    rw [hnext]
    unfold ring
    rcases slots.map Slot.node ++ free with _ | ⟨n, l⟩
    · exact List.mem_cons_self
    · exact List.mem_cons_of_mem _ List.mem_cons_self
  rcases h.ready _ hmem hready with ⟨w, hw⟩ | ⟨j, hj⟩
  · rcases slots with _ | ⟨a, slots'⟩
    · cases hw
    · have ha : a.node = q.next q.tail := hnext.symm
      have heq := h.slot_eq List.mem_cons_self hw ha
      exact ⟨w, slots', by rw [heq]⟩
  · exact absurd hj (hrd j)

variable [DecidableEq ι]

/-- The head is locked. -/
theorem lock (h : Core q lk ps rd slots free reads) (hhead : q.head = some node) :
    Core { q with head := none } (Function.update lk i (some node)) ps rd slots free reads := by
  -- nobody has locked it before
  have hnone : ∀ j, lk j = none := by
    intro j
    rcases hj : lk j with _ | n
    · rfl
    · have hlocked := (h.locks j n hj).1
      rw [hhead] at hlocked
      cases hlocked
  refine { h with head := nofun, locks := ?_, locks_unique := ?_ }
  · intro j n hj
    rcases update_some hj with ⟨-, hn⟩ | ⟨-, hn⟩
    · cases hn
      exact ⟨rfl, h.head node hhead⟩
    · rw [hnone j] at hn
      cases hn
  · intro j j' n n' hj hj'
    rcases update_some hj with ⟨hji, -⟩ | ⟨-, hn⟩
    · rcases update_some hj' with ⟨hji', -⟩ | ⟨-, hn'⟩
      · rw [hji, hji']
      · rw [hnone j'] at hn'
        cases hn'
    · rw [hnone j] at hn
      cases hn

/-- Only the thread that has locked the head has. -/
theorem unlocked (h : Core q lk ps rd slots free reads) (hi : lk i = some node) (j : ι) :
    Function.update lk i none j = none := by
  by_cases hji : j = i
  · rw [hji, Function.update_self]
  · rw [Function.update_of_ne hji]
    rcases hj : lk j with _ | n
    · rfl
    · exact absurd (h.locks_unique j i n node hj hi) hji

/-- The head is unlocked. -/
theorem unlock (h : Core q lk ps rd slots free reads) (hi : lk i = some node) :
    Core { q with head := some node } (Function.update lk i none) ps rd slots free reads := by
  refine { h with head := ?_, locks := ?_, locks_unique := ?_ }
  · intro n hn
    cases hn
    exact (h.locks i node hi).2
  · intro j n hj
    rw [h.unlocked hi j] at hj
    cases hj
  · intro j j' n n' hj
    rw [h.unlocked hi j] at hj
    cases hj

/-- The first free node is reserved. -/
theorem reserve (h : Core q lk ps rd slots free reads) (hfree : free = node :: m :: rest)
    (hlk : ∀ j, lk' j = none) (hi : ps i = none) :
    Core { q with head := some m } lk' (Function.update ps i (some (node, v))) rd
      (slots ++ [⟨node, v, false⟩]) (m :: rest) reads := by
  -- the first free node becomes the last slot, and the ring is the same list
  have hring : ring { q with head := some m } (slots ++ [⟨node, v, false⟩]) (m :: rest) =
      ring q slots free := by
    rw [hfree]
    simp [ring]
  have hnot : ∀ a ∈ slots, a.node ≠ node := by
    intro a ha
    apply h.free_not_slot ha
    rw [hfree]
    exact List.mem_cons_self
  have hmem : ∀ n w, (⟨n, w, false⟩ : Slot τ) ∈ slots → n ≠ node := fun n w ha => hnot _ ha
  refine { h with links := ?_, nodup := ?_, created := ?_, head := ?_, locks := ?_,
                  locks_unique := ?_, pushes := ?_, pushes_unique := ?_, pushed := ?_, full := ?_,
                  taken := ?_, ready := ?_ }
  · rw [hring]
    exact h.links
  · rw [hring]
    exact h.nodup
  · rw [hring]
    exact h.created
  · intro n hn
    cases hn
    rfl
  · intro j n hj
    rw [hlk j] at hj
    cases hj
  · intro j j' n n' hj
    rw [hlk j] at hj
    cases hj
  · -- the new push has the new slot
    intro j n w hj
    rcases update_some hj with ⟨-, hn⟩ | ⟨-, hn⟩
    · cases hn
      exact List.mem_append_right _ (List.mem_singleton.mpr rfl)
    · exact List.mem_append_left _ (h.pushes j n w hn)
  · intro j j' n w w' hj hj'
    rcases update_some hj with ⟨hji, hn⟩ | ⟨-, hn⟩
    · rcases update_some hj' with ⟨hji', -⟩ | ⟨-, hn'⟩
      · rw [hji, hji']
      · cases hn
        exact absurd rfl (hmem _ _ (h.pushes j' _ w' hn'))
    · rcases update_some hj' with ⟨-, hn'⟩ | ⟨-, hn'⟩
      · cases hn'
        exact absurd rfl (hmem _ _ (h.pushes j _ w hn))
      · exact h.pushes_unique j j' n w w' hn hn'
  · -- every slot that is not full has its push
    intro n w ha
    rw [List.mem_append, List.mem_singleton] at ha
    rcases ha with ha | ha
    · obtain ⟨j, hj⟩ := h.pushed n w ha
      have hji : j ≠ i := by
        intro hji
        rw [hji, hi] at hj
        cases hj
      exact ⟨j, by rwa [Function.update_of_ne hji]⟩
    · cases ha
      exact ⟨i, Function.update_self _ _ _⟩
  · intro n w ha
    rw [List.mem_append, List.mem_singleton] at ha
    rcases ha with ha | ha
    · exact h.full n w ha
    · cases ha
  · intro j n hj
    rw [hring]
    exact h.taken j n hj
  · intro n hn hready
    rw [hring] at hn
    rcases h.ready n hn hready with ⟨w, hw⟩ | hj
    · exact Or.inl ⟨w, List.mem_append_left _ hw⟩
    · exact Or.inr hj

/-- The slot of a push becomes full. -/
theorem fill (h : Core q lk ps rd slots free reads) {before after : List (Slot τ)}
    (hslots : slots = before ++ ⟨node, v, false⟩ :: after) (hi : ps i = some (node, v))
    (hready : q.ready node = false) (hdata : q.data node = some v) :
    Core { q with ready := Function.update q.ready node true } lk (Function.update ps i none) rd
      (before ++ ⟨node, v, true⟩ :: after) free reads := by
  have hmine : (⟨node, v, false⟩ : Slot τ) ∈ slots := h.pushes i node v hi
  have hnodes : (before ++ ⟨node, v, true⟩ :: after).map Slot.node = slots.map Slot.node := by
    rw [hslots]
    simp
  have hring : ring { q with ready := Function.update q.ready node true }
      (before ++ ⟨node, v, true⟩ :: after) free = ring q slots free := by
    unfold ring
    rw [hnodes]
  -- the other slots are as they were
  have hother : ∀ a : Slot τ, a ≠ ⟨node, v, true⟩ → a ∈ before ++ ⟨node, v, true⟩ :: after →
      a ∈ slots ∧ a.node ≠ node := by
    intro a hne ha
    have hnodup := h.slots_nodup
    rw [hslots, List.map_append, List.map_cons, List.nodup_middle, List.nodup_cons,
      ← List.map_append] at hnodup
    have ha' : a ∈ before ++ after := by
      rw [List.mem_append, List.mem_cons] at ha
      rw [List.mem_append]
      rcases ha with ha | ha | ha
      · exact Or.inl ha
      · exact absurd ha hne
      · exact Or.inr ha
    refine ⟨?_, ?_⟩
    · rw [hslots]
      rw [List.mem_append] at ha' ⊢
      exact ha'.imp_right (List.mem_cons_of_mem _)
    · intro heq
      have hmem : a.node ∈ (before ++ after).map Slot.node := List.mem_map_of_mem ha'
      rw [heq] at hmem
      exact hnodup.1 hmem
  have hkept : ∀ a : Slot τ, a ∈ slots → a ≠ ⟨node, v, false⟩ →
      a ∈ before ++ ⟨node, v, true⟩ :: after := by
    intro a ha hne
    rw [hslots, List.mem_append, List.mem_cons] at ha
    rw [List.mem_append, List.mem_cons]
    rcases ha with ha | ha | ha
    · exact Or.inl ha
    · exact absurd ha hne
    · exact Or.inr (Or.inr ha)
  have hnot_taken := h.ready_of_taken hready
  refine { h with links := ?_, nodup := ?_, created := ?_, pushes := ?_, pushes_unique := ?_,
                  pushed := ?_, full := ?_, taken := ?_, ready := ?_ }
  · rw [hring]
    exact h.links
  · rw [hring]
    exact h.nodup
  · rw [hring]
    exact h.created
  · intro j n w hj
    rcases update_some hj with ⟨-, hn⟩ | ⟨hji, hn⟩
    · cases hn
    · apply hkept _ (h.pushes j n w hn)
      intro heq
      cases heq
      exact hji (h.pushes_unique j i node v v hn hi)
  · intro j j' n w w' hj hj'
    rcases update_some hj with ⟨-, hn⟩ | ⟨-, hn⟩
    · cases hn
    · rcases update_some hj' with ⟨-, hn'⟩ | ⟨-, hn'⟩
      · cases hn'
      · exact h.pushes_unique j j' n w w' hn hn'
  · intro n w ha
    obtain ⟨hold, hne⟩ := hother _ (by simp) ha
    obtain ⟨j, hj⟩ := h.pushed n w hold
    have hji : j ≠ i := by
      intro hji
      rw [hji, hi] at hj
      cases hj
      exact hne rfl
    exact ⟨j, by rwa [Function.update_of_ne hji]⟩
  · intro n w ha
    by_cases hslot : (⟨n, w, true⟩ : Slot τ) = ⟨node, v, true⟩
    · cases hslot
      exact ⟨Function.update_self _ _ _, hdata, hnot_taken⟩
    · obtain ⟨hold, hne⟩ := hother _ hslot ha
      obtain ⟨hn, hrest⟩ := h.full n w hold
      refine ⟨?_, hrest⟩
      exact (Function.update_of_ne hne _ _).trans hn
  · intro j n hj
    rw [hring]
    obtain ⟨hn, hn', hrest⟩ := h.taken j n hj
    refine ⟨hn, ?_, hrest⟩
    have hne : n ≠ node := by
      intro heq
      exact hnot_taken j (heq ▸ hj)
    exact (Function.update_of_ne hne _ _).trans hn'
  · intro n hn hn'
    rw [hring] at hn
    by_cases hne : n = node
    · rw [hne]
      exact Or.inl ⟨v, by simp⟩
    · have hold : q.ready n = true := (Function.update_of_ne hne _ _).symm.trans hn'
      rcases h.ready n hn hold with ⟨w, hw⟩ | hj
      · exact Or.inl ⟨w, hkept _ hw (by simp)⟩
      · exact Or.inr hj

/-- The first slot is taken. -/
theorem take (h : Core q lk ps rd slots free reads) {slots' : List (Slot τ)}
    (hslots : slots = ⟨node, v, true⟩ :: slots') (hi : rd i = none) :
    Core { q with tail := node } lk ps (Function.update rd i (some node)) slots'
      (free ++ [q.tail]) (Function.update reads i (some v)) := by
  obtain ⟨l, hl⟩ : ∃ l, l = node :: slots'.map Slot.node ++ free := ⟨_, rfl⟩
  -- the ring is rotated by one: the old tail becomes the last free node
  have hring : ring q slots free = q.tail :: l := by
    rw [hslots, hl]
    rfl
  have hring' : ring { q with tail := node } slots' (free ++ [q.tail]) = l ++ [q.tail] := by
    rw [hl]
    simp [ring]
  have hperm : (l ++ [q.tail]).Perm (ring q slots free) := by
    rw [hring]
    exact List.perm_append_singleton q.tail l
  have hfirst : (⟨node, v, true⟩ : Slot τ) ∈ slots := by
    rw [hslots]
    exact List.mem_cons_self
  obtain ⟨hready, hdata, hnot_taken⟩ := h.full node v hfirst
  have hmem : ∀ a : Slot τ, a ∈ slots ↔ a = ⟨node, v, true⟩ ∨ a ∈ slots' := by
    intro a
    rw [hslots, List.mem_cons]
  -- no other slot has this node
  have hne : ∀ a ∈ slots', a.node ≠ node := by
    intro a ha heq
    have hnodup := h.slots_nodup
    rw [hslots, List.map_cons, List.nodup_cons] at hnodup
    apply hnodup.1
    show node ∈ _
    rw [← heq]
    exact List.mem_map_of_mem ha
  have hhead : ∀ n, free.head? = some n → (free ++ [q.tail]).head? = some n := by
    intro n hn
    rcases free with _ | ⟨m, l⟩
    · cases hn
    · exact hn
  constructor
  case links =>
    rw [hring']
    have hlinks := h.links
    rw [hring] at hlinks
    have hrot := hlinks.rotate
    rw [hl] at hrot ⊢
    exact hrot
  case nodup =>
    rw [hring', hperm.nodup_iff]
    exact h.nodup
  case created =>
    intro n hn
    rw [hring', hperm.mem_iff] at hn
    exact h.created n hn
  case head =>
    intro n hn
    exact hhead n (h.head n hn)
  case locks =>
    intro j n hj
    obtain ⟨hnone, hn⟩ := h.locks j n hj
    exact ⟨hnone, hhead n hn⟩
  case locks_unique => exact h.locks_unique
  case pushes =>
    intro j n w hj
    rcases (hmem _).mp (h.pushes j n w hj) with heq | ha
    · cases heq
    · exact ha
  case pushes_unique => exact h.pushes_unique
  case pushed =>
    intro n w ha
    exact h.pushed n w ((hmem _).mpr (Or.inr ha))
  case full =>
    intro n w ha
    obtain ⟨hn, hw, hrd⟩ := h.full n w ((hmem _).mpr (Or.inr ha))
    refine ⟨hn, hw, ?_⟩
    intro j hj
    rcases update_some hj with ⟨-, heq⟩ | ⟨-, hold⟩
    · cases heq
      exact hne _ ha rfl
    · exact hrd j hold
  case taken =>
    intro j n hj
    rw [hring', hperm.mem_iff]
    rcases update_some hj with ⟨hji, heq⟩ | ⟨hji, hold⟩
    · cases heq
      rw [hji, Function.update_self]
      exact ⟨slot_mem_ring hfirst, hready, v, rfl, hdata⟩
    · rw [Function.update_of_ne hji]
      exact h.taken j n hold
  case not_taken =>
    intro j hj
    by_cases hji : j = i
    · rw [hji, Function.update_self] at hj
      cases hj
    · rw [Function.update_of_ne hji] at hj ⊢
      exact h.not_taken j hj
  case takes_unique =>
    intro j j' n hj hj'
    rcases update_some hj with ⟨hji, heq⟩ | ⟨-, hold⟩
    · rcases update_some hj' with ⟨hji', -⟩ | ⟨-, hold'⟩
      · rw [hji, hji']
      · cases heq
        exact absurd hold' (hnot_taken j')
    · rcases update_some hj' with ⟨-, heq'⟩ | ⟨-, hold'⟩
      · cases heq'
        exact absurd hold (hnot_taken j)
      · exact h.takes_unique j j' n hold hold'
  case ready =>
    -- the node taken stays ready, and has a reader now
    intro n hn hn'
    rw [hring', hperm.mem_iff] at hn
    rcases h.ready n hn hn' with ⟨w, hw⟩ | ⟨j, hj⟩
    · rcases (hmem _).mp hw with heq | ha
      · cases heq
        exact Or.inr ⟨i, Function.update_self _ _ _⟩
      · exact Or.inl ⟨w, ha⟩
    · have hji : j ≠ i := by
        intro hji
        rw [hji, hi] at hj
        cases hj
      exact Or.inr ⟨j, by rwa [Function.update_of_ne hji]⟩

/-- The element of a node has been read. -/
theorem give (h : Core q lk ps rd slots free reads) (hi : rd i = some node) :
    Core { q with ready := Function.update q.ready node false } lk ps (Function.update rd i none)
      slots free (Function.update reads i none) := by
  refine { h with full := ?_, taken := ?_, not_taken := ?_, takes_unique := ?_, ready := ?_ }
  · intro n w ha
    obtain ⟨hn, hw, hrd⟩ := h.full n w ha
    have hne : n ≠ node := by
      intro heq
      exact hrd i (heq ▸ hi)
    refine ⟨(Function.update_of_ne hne _ _).trans hn, hw, ?_⟩
    intro j hj
    rcases update_some hj with ⟨-, hnone⟩ | ⟨-, hold⟩
    · cases hnone
    · exact hrd j hold
  · -- another reader reads another node
    intro j n hj
    rcases update_some hj with ⟨-, hnone⟩ | ⟨hji, hold⟩
    · cases hnone
    · obtain ⟨hn, hn', hreads⟩ := h.taken j n hold
      have hne : n ≠ node := by
        intro heq
        exact hji (h.takes_unique j i node (heq ▸ hold) hi)
      rw [Function.update_of_ne hji]
      exact ⟨hn, (Function.update_of_ne hne _ _).trans hn', hreads⟩
  · intro j hj
    by_cases hji : j = i
    · rw [hji, Function.update_self]
    · rw [Function.update_of_ne hji] at hj ⊢
      exact h.not_taken j hj
  · intro j j' n hj hj'
    rcases update_some hj with ⟨-, hnone⟩ | ⟨-, hold⟩
    · cases hnone
    · rcases update_some hj' with ⟨-, hnone⟩ | ⟨-, hold'⟩
      · cases hnone
      · exact h.takes_unique j j' n hold hold'
  · intro n hn hn'
    have hne : n ≠ node := by
      intro heq
      have hfalse : Function.update q.ready node false n = true := hn'
      rw [heq, Function.update_self] at hfalse
      exact Bool.noConfusion hfalse
    have hold : q.ready n = true := (Function.update_of_ne hne _ _).symm.trans hn'
    rcases h.ready n hn hold with hw | ⟨j, hj⟩
    · exact Or.inl hw
    · have hji : j ≠ i := by
        intro hji
        rw [hji, hi] at hj
        cases hj
        exact hne rfl
      exact Or.inr ⟨j, by rwa [Function.update_of_ne hji]⟩

end Core

end

end M2m

end Pump
