import Pump.Links
import Pump.RingBuffer
import Pump.Toolkit.O2oQueue

/-! # The blocks of a queue for one producer and one consumer

    The values in the queue are those in its used blocks, from the head block
    to the tail block. Behind the tail block there may be one that the
    producer is about to use, and then come the free ones, which are empty. -/

namespace Pump

namespace O2o

variable {τ : Type}

/-! ## Section 1: Blocks -/

/-- The block holds `xs`; the first `k` cells may be taken. -/
structure BlockNode.Holds (n : BlockNode τ) (M k : Nat) (xs : List τ) : Prop where
  length : n.data.length = M
  cells : Ring.Holds n.data n.head n.tail k xs
  cache_head : Ring.Behind M n.cache_head n.head xs.length
  cache_tail : Ring.Ahead M n.cache_tail n.head xs.length

namespace BlockNode.Holds

variable {n : BlockNode τ} {M k : Nat} {x : τ} {xs : List τ}

theorem tail_eq (h : n.Holds M k xs) : n.tail = (n.head + xs.length) % M := by
  rw [h.cells.tail_eq, h.length]

theorem fits (h : n.Holds M k xs) : xs.length < M := h.length ▸ h.cells.fits

theorem head_lt (h : n.Holds M k xs) : n.head < M := h.length ▸ h.cells.head_lt

theorem of_construct (next : Nat) (hM : 0 < M) :
    (BlockNode.construct next M : BlockNode τ).Holds M 0 [] := by
  have hlen : (BlockNode.construct next M : BlockNode τ).data.length = M := List.length_replicate
  refine ⟨hlen, Ring.Holds.empty ?_, Ring.Behind.refl hM hM, 0, Nat.le_refl 0, ?_⟩
  · rw [hlen]
    exact hM
  · show 0 = (0 + 0) % M
    rw [Nat.zero_mod]

/-- The producer refreshes its copy of the head. -/
theorem refresh_head (h : n.Holds M k xs) : { n with cache_head := n.head }.Holds M k xs :=
  ⟨h.length, h.cells, Ring.Behind.refl h.head_lt h.fits, h.cache_tail⟩

/-- The consumer refreshes its copy of the tail. -/
theorem refresh_tail (h : n.Holds M k xs) : { n with cache_tail := n.tail }.Holds M k xs := by
  refine ⟨h.length, h.cells, h.cache_head, ?_⟩
  show Ring.Ahead M n.tail n.head xs.length
  rw [h.tail_eq]
  exact Ring.Ahead.refl

theorem write (h : n.Holds M k xs) (v : Option τ) :
    { n with data := n.data.set n.tail v }.Holds M k xs :=
  ⟨List.length_set.trans h.length, h.cells.write v, h.cache_head, h.cache_tail⟩

theorem push (h : n.Holds M k xs) (hcell : n.data[n.tail]? = some (some x))
    (hroom : Ring.Behind M n.cache_head n.head (xs.length + 1)) :
    { n with tail := (n.tail + 1) % M }.Holds M k (xs ++ [x]) := by
  have hlen : (xs ++ [x]).length = xs.length + 1 := List.length_append
  have hfits : xs.length + 1 < M := by
    obtain ⟨-, j, hj, -⟩ := hroom
    omega
  refine ⟨h.length, ?_, ?_, ?_⟩
  · have hpush := h.cells.push hcell (by rw [h.length]; exact hfits)
    rwa [h.length] at hpush
  · rw [hlen]
    exact hroom
  · rw [hlen]
    exact h.cache_tail.mono (Nat.le_succ _)

/-- An element that is there by the copy of the tail. -/
theorem ne_nil (h : n.Holds M k xs) (hne : n.head ≠ n.cache_tail) : xs ≠ [] := by
  rintro rfl
  exact Nat.lt_irrefl 0 (h.cache_tail.pos h.head_lt hne)

theorem take (h : n.Holds M 0 xs) (v : Option τ) :
    { n with data := n.data.set n.head v }.Holds M 1 xs :=
  ⟨List.length_set.trans h.length, h.cells.take v, h.cache_head, h.cache_tail⟩

theorem mono {k' : Nat} (h : n.Holds M k xs) (hk : k ≤ k') : n.Holds M k' xs :=
  ⟨h.length, h.cells.mono hk, h.cache_head, h.cache_tail⟩

theorem pop (h : n.Holds M 1 (x :: xs)) (hne : n.head ≠ n.cache_tail) :
    { n with head := (n.head + 1) % M }.Holds M 0 xs := by
  refine ⟨h.length, ?_, h.cache_head.pop, h.cache_tail.pop h.head_lt hne⟩
  have hpop := h.cells.pop
  rwa [h.length] at hpop

end BlockNode.Holds

/-! ## Section 2: The ring of blocks -/

/-- The blocks with what they hold. The first cell of the head block may be
    `taken`. -/
structure Layout (M : Nat) (blocks : Nat → BlockNode τ) (blk_head blk_tail taken : Nat)
    (used staged free : List Nat) (items : Nat → List τ) : Prop where
  linked : Links (fun b => (blocks b).next) (used ++ (staged ++ free)) blk_head
  nodup : (used ++ (staged ++ free)).Nodup
  head : used.head? = some blk_head
  tail : used.getLast? = some blk_tail
  holds : ∀ b ∈ used, (blocks b).Holds M (if b = blk_head then taken else 0) (items b)
  empty : ∀ b ∈ free, (blocks b).Holds M 0 []
  filled : ∀ b ∈ used.tail, items b ≠ []

namespace Layout

variable {M : Nat} {blocks : Nat → BlockNode τ} {blk_head blk_tail taken : Nat}
  {used staged free : List Nat} {items : Nat → List τ}

theorem used_eq (h : Layout M blocks blk_head blk_tail taken used staged free items) :
    used = blk_head :: used.tail := (List.cons_head?_tail h.head).symm

theorem head_mem (h : Layout M blocks blk_head blk_tail taken used staged free items) :
    blk_head ∈ used := List.mem_of_head? h.head

theorem tail_mem (h : Layout M blocks blk_head blk_tail taken used staged free items) :
    blk_tail ∈ used := List.mem_of_getLast? h.tail

theorem front_eq (h : Layout M blocks blk_head blk_tail taken used staged free items) :
    used = used.dropLast ++ [blk_tail] := (List.dropLast_append_getLast? _ h.tail).symm

/-- The tail block is the head block exactly if there is no other one. -/
theorem single_iff (h : Layout M blocks blk_head blk_tail taken used staged free items) :
    blk_head = blk_tail ↔ used.tail = [] := by
  have hnodup := (List.nodup_append.mp h.nodup).1
  have htail := h.tail
  rw [h.used_eq] at hnodup htail
  constructor
  · intro heq
    by_contra hne
    rw [List.getLast?_cons, Option.some.injEq] at htail
    rcases hrest : used.tail.getLast? with _ | b
    · exact hne (List.getLast?_eq_none_iff.mp hrest)
    · rw [hrest, Option.getD_some] at htail
      have hmem := List.mem_of_getLast? hrest
      rw [htail, ← heq] at hmem
      exact (List.nodup_cons.mp hnodup).1 hmem
  · intro hnil
    rw [hnil, List.getLast?_singleton, Option.some.injEq] at htail
    exact htail

/-- A block that is not linked otherwise afterwards. -/
theorem set_block {items' : Nat → List τ} {taken' b : Nat} {n : BlockNode τ}
    (h : Layout M blocks blk_head blk_tail taken used staged free items)
    (hnext : n.next = (blocks b).next) (hitems : ∀ c, c ≠ b → items' c = items c)
    (htaken : b ≠ blk_head → taken' = taken)
    (hused : b ∈ used → n.Holds M (if b = blk_head then taken' else 0) (items' b))
    (hfree : b ∈ free → n.Holds M 0 []) (hfilled : b ∈ used.tail → items' b ≠ []) :
    Layout M (Function.update blocks b n) blk_head blk_tail taken' used staged free items' := by
  refine ⟨?_, h.nodup, h.head, h.tail, ?_, ?_, ?_⟩
  · refine (Links.congr fun c _ => ?_).mpr h.linked
    by_cases hc : c = b
    · rw [hc, Function.update_self, hnext]
    · rw [Function.update_of_ne hc]
  · intro c hmem
    by_cases hc : c = b
    · subst hc
      rw [Function.update_self]
      exact hused hmem
    · rw [Function.update_of_ne hc, hitems c hc]
      have hold := h.holds c hmem
      by_cases hhead : c = blk_head
      · rw [if_pos hhead] at hold ⊢
        rwa [htaken fun heq => hc (hhead.trans heq.symm)]
      · rw [if_neg hhead] at hold ⊢
        exact hold
  · intro c hmem
    by_cases hc : c = b
    · subst hc
      rw [Function.update_self]
      exact hfree hmem
    · rw [Function.update_of_ne hc]
      exact h.empty c hmem
  · intro c hmem
    by_cases hc : c = b
    · subst hc
      exact hfilled hmem
    · rw [hitems c hc]
      exact h.filled c hmem

/-- A block that keeps what it holds. -/
theorem set_same {b : Nat} {n : BlockNode τ}
    (h : Layout M blocks blk_head blk_tail taken used staged free items)
    (hnext : n.next = (blocks b).next)
    (hholds : ∀ k xs, (blocks b).Holds M k xs → n.Holds M k xs) :
    Layout M (Function.update blocks b n) blk_head blk_tail taken used staged free items :=
  h.set_block hnext (fun _ _ => rfl) (fun _ => rfl) (fun hmem => hholds _ _ (h.holds b hmem))
    (fun hmem => hholds _ _ (h.empty b hmem)) (h.filled b)

/-- A block that is not used and not free. -/
theorem set_other {b : Nat} {n : BlockNode τ}
    (h : Layout M blocks blk_head blk_tail taken used staged free items)
    (hnext : n.next = (blocks b).next) (hused : b ∉ used) (hfree : b ∉ free) :
    Layout M (Function.update blocks b n) blk_head blk_tail taken used staged free items :=
  h.set_block hnext (fun _ _ => rfl) (fun _ => rfl) (fun hmem => absurd hmem hused)
    (fun hmem => absurd hmem hfree) (h.filled b)

/-- The values in the queue. -/
def content (used : List Nat) (items : Nat → List τ) : List τ := used.flatMap items

theorem content_update (items : Nat → List τ) {used : List Nat} {b : Nat} (xs : List τ)
    (hb : b ∉ used) : content used (Function.update items b xs) = content used items := by
  apply List.flatMap_congr
  intro c hc
  exact Function.update_of_ne (ne_of_mem_of_not_mem hc hb) xs items

theorem tail_notMem_front (h : Layout M blocks blk_head blk_tail taken used staged free items) :
    blk_tail ∉ used.dropLast := by
  have hnodup := (List.nodup_append.mp h.nodup).1
  rw [h.front_eq] at hnodup
  intro hmem
  exact (List.nodup_append.mp hnodup).2.2 _ hmem _ List.mem_cons_self rfl

theorem head_notMem_tail (h : Layout M blocks blk_head blk_tail taken used staged free items) :
    blk_head ∉ used.tail := by
  have hnodup := (List.nodup_append.mp h.nodup).1
  rw [h.used_eq] at hnodup
  exact (List.nodup_cons.mp hnodup).1

/-- A value is put behind those in the tail block. -/
theorem push {n : BlockNode τ} {x : τ}
    (h : Layout M blocks blk_head blk_tail taken used staged free items)
    (hnext : n.next = (blocks blk_tail).next)
    (hholds : ∀ k, (blocks blk_tail).Holds M k (items blk_tail) →
      n.Holds M k (items blk_tail ++ [x])) :
    Layout M (Function.update blocks blk_tail n) blk_head blk_tail taken used staged free
        (Function.update items blk_tail (items blk_tail ++ [x])) ∧
      content used (Function.update items blk_tail (items blk_tail ++ [x])) =
        content used items ++ [x] := by
  constructor
  · apply h.set_block hnext
    · intro c hc
      exact Function.update_of_ne hc _ _
    · intro _
      rfl
    · intro hmem
      rw [Function.update_self]
      exact hholds _ (h.holds _ hmem)
    · intro hfree
      -- no block is used and free
      exfalso
      exact (List.nodup_append.mp h.nodup).2.2 _ h.tail_mem _
        (List.mem_append_right staged hfree) rfl
    · intro _
      rw [Function.update_self]
      exact List.append_ne_nil_of_right_ne_nil _ (List.cons_ne_nil x [])
  · rw [h.front_eq]
    have hfront := content_update items (items blk_tail ++ [x]) h.tail_notMem_front
    unfold content at hfront ⊢
    rw [List.flatMap_append, List.flatMap_append, hfront, List.flatMap_singleton,
      List.flatMap_singleton, Function.update_self, List.append_assoc]

/-- The first value leaves the head block. -/
theorem pop {n : BlockNode τ} {x : τ} {xs : List τ}
    (h : Layout M blocks blk_head blk_tail 1 used staged free items)
    (hitems : items blk_head = x :: xs) (hnext : n.next = (blocks blk_head).next)
    (hholds : (blocks blk_head).Holds M 1 (x :: xs) → n.Holds M 0 xs) :
    Layout M (Function.update blocks blk_head n) blk_head blk_tail 0 used staged free
        (Function.update items blk_head xs) ∧
      content used items = x :: content used (Function.update items blk_head xs) := by
  constructor
  · apply h.set_block hnext
    · intro c hc
      exact Function.update_of_ne hc _ _
    · intro hne
      exact absurd rfl hne
    · intro hmem
      have hold := h.holds _ hmem
      rw [if_pos rfl, hitems] at hold
      rw [if_pos rfl, Function.update_self]
      exact hholds hold
    · intro hfree
      exfalso
      exact (List.nodup_append.mp h.nodup).2.2 _ h.head_mem _
        (List.mem_append_right staged hfree) rfl
    · intro hmem
      exact absurd hmem h.head_notMem_tail
  · rw [h.used_eq]
    have hrest := content_update items xs h.head_notMem_tail
    unfold content at hrest ⊢
    rw [List.flatMap_cons, List.flatMap_cons, hrest, hitems, Function.update_self,
      List.cons_append]

/-- The producer turns to the first free block. -/
theorem stage {b : Nat} (h : Layout M blocks blk_head blk_tail taken used [] (b :: free) items) :
    Layout M blocks blk_head blk_tail taken used [b] free items :=
  ⟨h.linked, h.nodup, h.head, h.tail, h.holds,
    fun c hc => h.empty c (List.mem_cons_of_mem b hc), h.filled⟩

theorem staged_notMem {b : Nat}
    (h : Layout M blocks blk_head blk_tail taken used [b] free items) : b ∉ used ∧ b ∉ free := by
  obtain ⟨-, hnodup, hdisjoint⟩ := List.nodup_append.mp h.nodup
  constructor
  · intro hmem
    exact hdisjoint _ hmem _ List.mem_cons_self rfl
  · exact (List.nodup_cons.mp hnodup).1

/-- The block it has turned to becomes the tail block. -/
theorem publish {b : Nat} {xs : List τ}
    (h : Layout M blocks blk_head blk_tail taken used [b] free items)
    (hholds : (blocks b).Holds M 0 xs) (hxs : xs ≠ []) :
    Layout M blocks blk_head b taken (used ++ [b]) [] free (Function.update items b xs) ∧
      content (used ++ [b]) (Function.update items b xs) = content used items ++ xs := by
  obtain ⟨hused, -⟩ := h.staged_notMem
  have hlist : used ++ [b] ++ ([] ++ free) = used ++ ([b] ++ free) := List.append_assoc _ _ _
  have htail : (used ++ [b]).tail = used.tail ++ [b] := by
    rw [h.used_eq]
    rfl
  constructor
  · refine ⟨?_, ?_, ?_, List.getLast?_concat, ?_, h.empty, ?_⟩
    · rw [hlist]
      exact h.linked
    · rw [hlist]
      exact h.nodup
    · rw [h.used_eq]
      rfl
    · intro c hc
      rcases List.mem_append.mp hc with hc | hc
      · rw [Function.update_of_ne (ne_of_mem_of_not_mem hc hused)]
        exact h.holds c hc
      · obtain rfl := List.mem_singleton.mp hc
        rw [Function.update_self, if_neg (ne_of_mem_of_not_mem h.head_mem hused).symm]
        exact hholds
    · rw [htail]
      intro c hc
      rcases List.mem_append.mp hc with hc | hc
      · rw [Function.update_of_ne (ne_of_mem_of_not_mem (List.mem_of_mem_tail hc) hused)]
        exact h.filled c hc
      · obtain rfl := List.mem_singleton.mp hc
        rwa [Function.update_self]
  · have hfront := content_update items xs hused
    unfold content at hfront ⊢
    rw [List.flatMap_append, hfront, List.flatMap_singleton, Function.update_self]

/-- A new block is linked in behind the tail block. -/
theorem link {b : Nat} (h : Layout M blocks blk_head blk_tail taken used [] free items)
    (hused : b ∉ used) (hfree : b ∉ free) (hnext : (blocks b).next = (blocks blk_tail).next) :
    Layout M (Function.update blocks blk_tail { blocks blk_tail with next := b }) blk_head blk_tail
      taken used [b] free items := by
  obtain ⟨hnodup, hnodup', hdisjoint⟩ := List.nodup_append.mp h.nodup
  have hlinks : (fun c => (Function.update blocks blk_tail
      { blocks blk_tail with next := b } c).next) =
      Function.update (fun c => (blocks c).next) blk_tail b := by
    funext c
    by_cases hc : c = blk_tail
    · rw [hc, Function.update_self, Function.update_self]
    · rw [Function.update_of_ne hc, Function.update_of_ne hc]
  have htail : blk_tail ∉ free := fun hmem => hdisjoint _ h.tail_mem _ hmem rfl
  refine ⟨?_, ?_, h.head, h.tail, ?_, ?_, h.filled⟩
  · rw [hlinks]
    have hlinked := h.linked
    rw [h.front_eq, List.append_assoc] at hlinked ⊢
    exact Links.insert hlinked hnext (ne_of_mem_of_not_mem h.tail_mem hused).symm
      h.tail_notMem_front htail
  · refine List.nodup_append.mpr ⟨hnodup, List.nodup_cons.mpr ⟨hfree, hnodup'⟩, ?_⟩
    intro c hc d hd
    rcases List.mem_cons.mp hd with rfl | hd
    · exact ne_of_mem_of_not_mem hc hused
    · exact hdisjoint c hc d hd
  · intro c hc
    have hold := h.holds c hc
    by_cases heq : c = blk_tail
    · subst heq
      rw [Function.update_self]
      exact ⟨hold.length, hold.cells, hold.cache_head, hold.cache_tail⟩
    · rwa [Function.update_of_ne heq]
  · intro c hc
    rw [Function.update_of_ne (ne_of_mem_of_not_mem hc htail)]
    exact h.empty c hc

/-- The consumer leaves the head block, which is empty, for the next one. -/
theorem advance {b : Nat} (h : Layout M blocks blk_head blk_tail 0 used staged free items)
    (hb : used.tail.head? = some b) (hempty : items blk_head = []) :
    Layout M blocks b blk_tail 0 used.tail staged (free ++ [blk_head]) items ∧
      content used.tail items = content used items := by
  have hlinked := h.linked
  have hnodup := h.nodup
  have htail := h.tail
  have hheld := h.holds _ h.head_mem
  rw [if_pos rfl, hempty] at hheld
  obtain ⟨rest, hrest⟩ : ∃ rest, used.tail = b :: rest := ⟨_, (List.cons_head?_tail hb).symm⟩
  -- the old head goes to the end of the ring
  have hlist : used.tail ++ (staged ++ (free ++ [blk_head])) =
      (used.tail ++ (staged ++ free)) ++ [blk_head] := by
    simp only [List.append_assoc]
  have hhead := h.head_notMem_tail
  constructor
  · refine ⟨?_, ?_, hb, ?_, ?_, ?_, ?_⟩
    · rw [hlist]
      rw [h.used_eq, List.cons_append] at hlinked
      have hrot := hlinked.rotate
      rw [hrest] at hrot ⊢
      exact hrot
    · rw [hlist]
      rw [h.used_eq, List.cons_append] at hnodup
      exact List.nodup_append_comm.mp hnodup
    · rw [h.used_eq, hrest, List.getLast?_cons_cons] at htail
      rw [hrest]
      exact htail
    · intro c hc
      have hold := h.holds c (List.mem_of_mem_tail hc)
      rw [if_neg (ne_of_mem_of_not_mem hc hhead)] at hold
      rwa [ite_self]
    · intro c hc
      rcases List.mem_append.mp hc with hc | hc
      · exact h.empty c hc
      · obtain rfl := List.mem_singleton.mp hc
        exact hheld
    · intro c hc
      exact h.filled c (List.mem_of_mem_tail hc)
  · rw [h.used_eq]
    unfold content
    rw [List.flatMap_cons, hempty, List.nil_append, List.tail_cons]

end Layout

end O2o

end Pump
