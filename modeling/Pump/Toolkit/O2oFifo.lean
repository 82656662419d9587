import Pump.Toolkit.O2oLayout

/-! # A queue for one producer and one consumer

    What the two threads know about the blocks holds whatever the other one
    does meanwhile. The producer changes the tail block and those behind it,
    the consumer the head block. -/

namespace Pump

namespace O2o

variable {τ : Type}

/-! ## Section 1: The threads -/

/-- The block that `push` has turned to and that is not the tail block yet. -/
def Push.staged : Push τ → List Nat
  | .move _ b | .new_write _ b | .new_cache _ b | .new_tail _ b | .new_move _ b => [b]
  | _ => []

/-- The value that `push` has not put into the queue yet. -/
def Push.waiting : Push τ → List τ
  | .idle | .capacity _ => []
  | .blk v | .tail v _ | .cached v _ _ | .head v _ _ | .write v _ _ | .store v _ _ | .next v _
  | .enter v _ | .enter_write v _ _ | .enter_store v _ _ | .move v _ | .create v _ | .link v _ _
  | .new_write v _ | .new_cache v _ | .new_tail v _ | .new_move v _ => [v]

/-- How many calls of `push` have not returned. -/
def Push.calls : Push τ → Nat
  | .idle => 0
  | _ => 1

theorem Push.waiting_length_le (p : Push τ) : p.waiting.length ≤ p.calls := by
  cases p <;> simp [waiting, calls]

/-- How many cells of the head block `pop` has taken. -/
def Pop.taken : Pop τ → Nat
  | .store _ _ _ => 1
  | _ => 0

/-- What the locals of `push` say about the blocks. -/
def Push.Fact (M : Nat) (blocks : Nat → BlockNode τ) (blk_tail created : Nat) (used free : List Nat)
    (items : Nat → List τ) : Push τ → Prop
  | .idle | .blk _ | .capacity _ => True
  | .tail _ b | .next _ b | .create _ b => b = blk_tail
  | .cached _ b t | .head _ b t => b = blk_tail ∧ t = (blocks b).tail
  | .write _ b t => b = blk_tail ∧ t = (blocks b).tail ∧
      Ring.Behind M (blocks b).cache_head (blocks b).head ((items b).length + 1)
  | .store v b t => b = blk_tail ∧ t = (blocks b).tail ∧
      Ring.Behind M (blocks b).cache_head (blocks b).head ((items b).length + 1) ∧
      (blocks b).data[t]? = some (some v)
  | .enter _ b => free.head? = some b
  | .enter_write _ b t => free.head? = some b ∧ t = (blocks b).head ∧
      (blocks b).cache_head = t
  | .enter_store v b t => free.head? = some b ∧ t = (blocks b).head ∧
      (blocks b).cache_head = t ∧ (blocks b).data[t]? = some (some v)
  | .link _ b c => b = blk_tail ∧ c < created ∧ c ∉ used ∧ c ∉ free ∧
      blocks c = BlockNode.construct (blocks b).next M
  | .move v b | .new_move v b => (blocks b).Holds M 0 [v]
  | .new_write _ b => ∃ c, blocks b = BlockNode.construct c M
  | .new_cache v b => ∃ c, blocks b = ⟨c, 0, 0, 0, 0, (List.replicate M none).set 0 (some v)⟩
  | .new_tail v b => ∃ c, blocks b = ⟨c, 0, 1, 0, 0, (List.replicate M none).set 0 (some v)⟩

/-- What the locals of `pop` say about the blocks. -/
def Pop.Fact (blocks : Nat → BlockNode τ) (blk_head popped returned_before : Nat) (used : List Nat)
    (items : Nat → List τ) : Pop τ → Prop
  | .idle | .blk => True
  | .head b => b = blk_head
  | .cached b p | .tail b p => b = blk_head ∧ p = (blocks b).head
  | .moved b p => b = blk_head ∧ p = (blocks b).head ∧
      (popped < returned_before → used.tail ≠ [])
  | .last b p => b = blk_head ∧ p = (blocks b).head ∧ used.tail ≠ []
  | .next b => b = blk_head ∧ items b = [] ∧ used.tail ≠ []
  | .move b => used.tail.head? = some b ∧ items blk_head = []
  | .next_head b => b = blk_head ∧ items b ≠ []
  | .next_tail b p => b = blk_head ∧ p = (blocks b).head ∧ items b ≠ []
  | .read b p => b = blk_head ∧ p = (blocks b).head ∧ p ≠ (blocks b).cache_tail
  | .store b p data => b = blk_head ∧ p = (blocks b).head ∧
      p ≠ (blocks b).cache_tail ∧ ∃ x xs, items b = x :: xs ∧ data = some x

namespace State

/-- The size of a block. -/
def cells (s : State τ) : Nat := s.block_element_size_mask + 1

/-- **The invariant**, for the used and free blocks with what they hold and
    for the values `out` that were popped. -/
structure InvFor (s : State τ) (used free : List Nat) (items : Nat → List τ) (out : List τ) :
    Prop where
  size : ∃ m, 1 ≤ m ∧ s.cells = 2 ^ m
  layout : Layout s.cells s.blocks s.blk_head s.blk_tail s.consumer.taken used s.producer.staged
    free items
  created : ∀ b ∈ used ++ (s.producer.staged ++ free), b < s.created
  push : s.producer.Fact s.cells s.blocks s.blk_tail s.created used free items
  pop : s.consumer.Fact s.blocks s.blk_head s.popped.length s.returned_before used items
  popped : s.popped = out.map some
  order : out ++ Layout.content used items ++ s.producer.waiting = s.pushed
  calls : s.pushed.length = s.returned + s.producer.calls
  before : s.returned_before ≤ s.returned

def Inv (s : State τ) : Prop := ∃ used free items out, s.InvFor used free items out

/-- The calls of `push` that returned have put their values into the queue. -/
theorem InvFor.returned_le {s : State τ} {used free : List Nat} {items : Nat → List τ}
    {out : List τ} (h : s.InvFor used free items out) :
    s.returned ≤ s.popped.length + (Layout.content used items).length := by
  have horder := congrArg List.length h.order
  rw [List.length_append, List.length_append, h.calls] at horder
  have hpopped := congrArg List.length h.popped
  rw [List.length_map] at hpopped
  have := s.producer.waiting_length_le
  omega

/-! ## Section 2: What `push` does -/

variable {s s' : State τ} {used free : List Nat} {items : Nat → List τ} {out : List τ}

theorem InvFor.behind_eq (h : s.InvFor used free items out) (pos : Nat) :
    s.behind pos = (pos + 1) % s.cells := by
  obtain ⟨m, -, hm⟩ := h.size
  exact Ring.and_mask hm (pos + 1)

theorem InvFor.two_le (h : s.InvFor used free items out) : 2 ≤ s.cells := by
  obtain ⟨m, hpos, hm⟩ := h.size
  rw [hm]
  exact Nat.pow_le_pow_right Nat.two_pos hpos

end State

/-- What `pop` knows is not touched by `push`. -/
theorem Pop.Fact.frame {p : Pop τ} {blocks blocks' : Nat → BlockNode τ}
    {blk_head popped returned_before : Nat} {used used' : List Nat} {items items' : Nat → List τ}
    (h : p.Fact blocks blk_head popped returned_before used items)
    (hhead : (blocks' blk_head).head = (blocks blk_head).head)
    (hcache : (blocks' blk_head).cache_tail = (blocks blk_head).cache_tail)
    (hitems : items' blk_head = items blk_head ∨
      used.tail = [] ∧ ∃ x, items' blk_head = items blk_head ++ [x])
    (hused : ∃ l, used' = used ++ l) (hhas : used ≠ []) :
    p.Fact blocks' blk_head popped returned_before used' items' := by
  obtain ⟨l, rfl⟩ := hused
  have htail : (used ++ l).tail = used.tail ++ l := List.tail_append_of_ne_nil hhas
  -- `push` adds values to the block only while it is the last one
  have hkept : used.tail ≠ [] → items' blk_head = items blk_head ∧ (used ++ l).tail ≠ [] := by
    intro hne
    rw [htail]
    refine ⟨?_, List.append_ne_nil_of_left_ne_nil hne l⟩
    rcases hitems with heq | ⟨hnil, -⟩
    · exact heq
    · exact absurd hnil hne
  have hgrown : ∃ l, items' blk_head = items blk_head ++ l := by
    rcases hitems with heq | ⟨-, x, heq⟩
    · exact ⟨[], by rw [heq, List.append_nil]⟩
    · exact ⟨[x], heq⟩
  have hfilled : items blk_head ≠ [] → items' blk_head ≠ [] := by
    intro hne
    obtain ⟨l, heq⟩ := hgrown
    rw [heq]
    exact List.append_ne_nil_of_left_ne_nil hne l
  cases p with
  | idle => trivial
  | blk => trivial
  | head b => exact h
  | cached b t =>
    obtain ⟨rfl, rfl⟩ := h
    exact ⟨rfl, hhead.symm⟩
  | tail b t =>
    obtain ⟨rfl, rfl⟩ := h
    exact ⟨rfl, hhead.symm⟩
  | moved b t =>
    obtain ⟨rfl, rfl, howed⟩ := h
    exact ⟨rfl, hhead.symm, fun hlt => (hkept (howed hlt)).2⟩
  | last b t =>
    obtain ⟨rfl, rfl, hne⟩ := h
    exact ⟨rfl, hhead.symm, (hkept hne).2⟩
  | next b =>
    obtain ⟨rfl, hempty, hne⟩ := h
    exact ⟨rfl, (hkept hne).1.trans hempty, (hkept hne).2⟩
  | move b =>
    obtain ⟨hb, hempty⟩ := h
    have hne : used.tail ≠ [] := by
      intro hnil
      rw [hnil] at hb
      cases hb
    refine ⟨?_, (hkept hne).1.trans hempty⟩
    rw [htail, List.head?_append_of_ne_nil _ hne]
    exact hb
  | next_head b =>
    obtain ⟨rfl, hne⟩ := h
    exact ⟨rfl, hfilled hne⟩
  | next_tail b t =>
    obtain ⟨rfl, rfl, hne⟩ := h
    exact ⟨rfl, hhead.symm, hfilled hne⟩
  | read b t =>
    obtain ⟨rfl, rfl, hne⟩ := h
    exact ⟨rfl, hhead.symm, hcache ▸ hne⟩
  | store b t data =>
    obtain ⟨rfl, rfl, hne, x, xs, hx, rfl⟩ := h
    obtain ⟨l, heq⟩ := hgrown
    refine ⟨rfl, hhead.symm, hcache ▸ hne, x, xs ++ l, ?_, rfl⟩
    rw [heq, hx, List.cons_append]

namespace State

variable {s s' : State τ} {used free : List Nat} {items : Nat → List τ} {out : List τ}

/-- A step of `push` keeps what `pop` knows. -/
theorem InvFor.produced {blocks' : Nat → BlockNode τ} {blk_tail' created' returned' : Nat}
    {capacity' : BitVec 32} {p' : Push τ} {used' free' : List Nat} {items' : Nat → List τ}
    (h : s.InvFor used free items out)
    (hlayout : Layout s.cells blocks' s.blk_head blk_tail' s.consumer.taken used' p'.staged free'
      items')
    (hcreated : ∀ b ∈ used' ++ (p'.staged ++ free'), b < created')
    (hfact : p'.Fact s.cells blocks' blk_tail' created' used' free' items')
    (hhead : (blocks' s.blk_head).head = (s.blocks s.blk_head).head)
    (hcache : (blocks' s.blk_head).cache_tail = (s.blocks s.blk_head).cache_tail)
    (hitems : items' s.blk_head = items s.blk_head ∨
      used.tail = [] ∧ ∃ x, items' s.blk_head = items s.blk_head ++ [x])
    (hused : ∃ l, used' = used ++ l)
    (horder : Layout.content used' items' ++ p'.waiting =
      Layout.content used items ++ s.producer.waiting)
    (hcalls : returned' + p'.calls = s.returned + s.producer.calls)
    (hreturned : s.returned ≤ returned') :
    Inv { s with
      blocks := blocks', blk_tail := blk_tail', created := created', returned := returned',
      capacity := capacity', producer := p' } := by
  have hhas : used ≠ [] := by
    rw [h.layout.used_eq]
    exact List.cons_ne_nil _ _
  refine ⟨used', free', items', out, h.size, hlayout, hcreated, hfact, ?_, h.popped, ?_, ?_, ?_⟩
  · exact h.pop.frame hhead hcache hitems hused hhas
  · show out ++ Layout.content used' items' ++ p'.waiting = s.pushed
    rw [List.append_assoc, horder, ← List.append_assoc]
    exact h.order
  · show s.pushed.length = returned' + p'.calls
    rw [hcalls]
    exact h.calls
  · exact Nat.le_trans h.before hreturned

/-- A step of `push` that reads. -/
theorem InvFor.produced_read {p' : Push τ} (h : s.InvFor used free items out)
    (hstaged : p'.staged = s.producer.staged) (hwaiting : p'.waiting = s.producer.waiting)
    (hcalls : p'.calls = s.producer.calls)
    (hfact : p'.Fact s.cells s.blocks s.blk_tail s.created used free items) :
    Inv { s with producer := p' } := by
  refine h.produced ?_ ?_ hfact rfl rfl (Or.inl rfl) ⟨[], (List.append_nil used).symm⟩ ?_ ?_
    (Nat.le_refl _)
  · rw [hstaged]
    exact h.layout
  · rw [hstaged]
    exact h.created
  · rw [hwaiting]
  · rw [hcalls]

/-- A step of `push` that changes a block, but not what it holds. -/
theorem InvFor.produced_block {p' : Push τ} {b : Nat} {n : BlockNode τ}
    (h : s.InvFor used free items out)
    (hstaged : p'.staged = s.producer.staged) (hwaiting : p'.waiting = s.producer.waiting)
    (hcalls : p'.calls = s.producer.calls) (hnext : n.next = (s.blocks b).next)
    (hhead : n.head = (s.blocks b).head)
    (hcache : b ∉ s.producer.staged → n.cache_tail = (s.blocks b).cache_tail)
    (hholds : b ∉ s.producer.staged →
      ∀ k xs, (s.blocks b).Holds s.cells k xs → n.Holds s.cells k xs)
    (hfact : p'.Fact s.cells (Function.update s.blocks b n) s.blk_tail s.created used free items) :
    Inv { s.set_block b n with producer := p' } := by
  have hlayout : Layout s.cells (Function.update s.blocks b n) s.blk_head s.blk_tail
      s.consumer.taken used s.producer.staged free items := by
    -- a staged block is neither used nor free yet
    by_cases hb : b ∈ s.producer.staged
    · have hother : b ∉ used ∧ b ∉ free := by
        obtain ⟨-, hnodup, hdisjoint⟩ := List.nodup_append.mp h.layout.nodup
        constructor
        · intro hmem
          exact hdisjoint _ hmem _ (List.mem_append_left _ hb) rfl
        · intro hmem
          exact (List.nodup_append.mp hnodup).2.2 _ hb _ hmem rfl
      exact h.layout.set_other hnext hother.1 hother.2
    · exact h.layout.set_same hnext (hholds hb)
  have hhead_mem := h.layout.head_mem
  have hsame : (Function.update s.blocks b n s.blk_head).head = (s.blocks s.blk_head).head ∧
      (Function.update s.blocks b n s.blk_head).cache_tail =
        (s.blocks s.blk_head).cache_tail := by
    by_cases hb : s.blk_head = b
    · rw [hb, Function.update_self]
      refine ⟨hhead, hcache fun hmem => ?_⟩
      rw [hb] at hhead_mem
      exact (List.nodup_append.mp h.layout.nodup).2.2 _ hhead_mem _
        (List.mem_append_left _ hmem) rfl
    · rw [Function.update_of_ne hb]
      exact ⟨rfl, rfl⟩
  refine h.produced ?_ ?_ hfact hsame.1 hsame.2 (Or.inl rfl) ⟨[], (List.append_nil used).symm⟩
    ?_ ?_ (Nat.le_refl _)
  · rw [hstaged]
    exact hlayout
  · rw [hstaged]
    exact h.created
  · rw [hwaiting]
  · rw [hcalls]
    rfl

/-- The tail block takes the value. -/
theorem InvFor.produce_store {v : τ} {b t : Nat} (h : s.InvFor used free items out)
    (hp : s.producer = .store v b t) :
    Inv (s.set_block b { s.blocks b with tail := s.behind t }).push_returns := by
  have hf := h.push
  have hl := h.layout
  have hc := h.created
  rw [hp] at hf hl hc
  obtain ⟨rfl, rfl, hroom, hcell⟩ := hf
  obtain ⟨hl', hcontent⟩ := hl.push (x := v)
    (n := { s.blocks s.blk_tail with tail := s.behind (s.blocks s.blk_tail).tail }) rfl fun k hk => by
      rw [h.behind_eq]
      exact hk.push hcell hroom
  have hsame : (Function.update s.blocks s.blk_tail
      { s.blocks s.blk_tail with tail := s.behind (s.blocks s.blk_tail).tail }
        s.blk_head).head = (s.blocks s.blk_head).head ∧
      (Function.update s.blocks s.blk_tail
        { s.blocks s.blk_tail with tail := s.behind (s.blocks s.blk_tail).tail }
          s.blk_head).cache_tail = (s.blocks s.blk_head).cache_tail := by
    by_cases hb : s.blk_head = s.blk_tail
    · rw [hb, Function.update_self]
      exact ⟨rfl, rfl⟩
    · rw [Function.update_of_ne hb]
      exact ⟨rfl, rfl⟩
  have hl' : Layout s.cells _ s.blk_head s.blk_tail s.consumer.taken used (Push.idle : Push τ).staged
    free _ := hl'
  refine h.produced hl' hc trivial hsame.1 hsame.2 ?_ ⟨[], (List.append_nil used).symm⟩ ?_ ?_
    (Nat.le_succ _)
  · by_cases hb : s.blk_head = s.blk_tail
    · rw [hb, Function.update_self]
      exact Or.inr ⟨hl.single_iff.mp hb, v, rfl⟩
    · rw [Function.update_of_ne hb]
      exact Or.inl rfl
  · rw [hcontent, hp]
    exact List.append_nil _
  · rw [hp]
    rfl

/-- The block that `push` has turned to becomes the tail block. -/
theorem InvFor.produce_move {v : τ} {b returned' : Nat} {capacity' : BitVec 32} {p' : Push τ}
    (h : s.InvFor used free items out) (hstaged : s.producer.staged = [b])
    (hwaiting : s.producer.waiting = [v]) (hholds : (s.blocks b).Holds s.cells 0 [v])
    (hstaged' : p'.staged = []) (hwaiting' : p'.waiting = [])
    (hfact : ∀ used items, p'.Fact s.cells s.blocks b s.created used free items)
    (hcalls : returned' + p'.calls = s.returned + s.producer.calls)
    (hreturned : s.returned ≤ returned') :
    Inv { s with blk_tail := b, returned := returned', capacity := capacity', producer := p' } := by
  have hl := h.layout
  have hc := h.created
  rw [hstaged] at hl hc
  obtain ⟨hl', hcontent⟩ := hl.publish hholds (List.cons_ne_nil v [])
  obtain ⟨hused, -⟩ := hl.staged_notMem
  refine h.produced ?_ ?_ (hfact _ (Function.update items b [v])) rfl rfl ?_ ⟨[b], rfl⟩ ?_ hcalls
    hreturned
  · rw [hstaged']
    exact hl'
  · rw [hstaged', List.nil_append, List.append_assoc]
    exact hc
  · left
    exact Function.update_of_ne (ne_of_mem_of_not_mem hl.head_mem hused) _ _
  · rw [hcontent, hwaiting, hwaiting', List.append_nil]

/-- The first free block is not free any more. -/
theorem InvFor.produce_enter_store {v : τ} {b t : Nat} (h : s.InvFor used free items out)
    (hp : s.producer = .enter_store v b t) :
    Inv { s.set_block b { s.blocks b with tail := s.behind t } with producer := .move v b } := by
  have hf := h.push
  have hl := h.layout
  have hc := h.created
  rw [hp] at hf hl hc
  obtain ⟨hfree, rfl, hcache, hcell⟩ := hf
  obtain ⟨rest, rfl⟩ : ∃ rest, free = b :: rest := ⟨_, (List.cons_head?_tail hfree).symm⟩
  have hempty := hl.empty b List.mem_cons_self
  have htail : (s.blocks b).tail = (s.blocks b).head :=
    (hempty.cells.head_eq_tail.mpr rfl).symm
  have hstage := Layout.stage hl
  obtain ⟨hused, hrest⟩ := hstage.staged_notMem
  have hother : s.blk_head ≠ b := ne_of_mem_of_not_mem hl.head_mem hused
  have hholds : ({ s.blocks b with tail := s.behind (s.blocks b).head } : BlockNode τ).Holds
      s.cells 0 [v] := by
    rw [h.behind_eq, ← htail]
    rw [← htail] at hcell
    refine hempty.push hcell ?_
    rw [hcache]
    exact Ring.Behind.refl hempty.head_lt h.two_le
  refine h.produced (hstage.set_other rfl hused hrest) hc ?_ ?_ ?_ (Or.inl rfl)
    ⟨[], (List.append_nil used).symm⟩ ?_ ?_ (Nat.le_refl _)
  · show (Function.update s.blocks b _ b).Holds s.cells 0 [v]
    rw [Function.update_self]
    exact hholds
  · exact congrArg BlockNode.head (Function.update_of_ne hother _ _)
  · exact congrArg BlockNode.cache_tail (Function.update_of_ne hother _ _)
  · rw [hp]
    rfl
  · rw [hp]
    rfl

/-- The new block is not linked in yet. -/
theorem InvFor.produce_create {v : τ} {b : Nat} (h : s.InvFor used free items out)
    (hp : s.producer = .create v b) :
    Inv { s.set_block s.created (BlockNode.construct (s.blocks b).next s.cells) with
      created := s.created + 1, producer := .link v b s.created } := by
  have hf := h.push
  have hl := h.layout
  have hc := h.created
  rw [hp] at hf hl hc
  obtain rfl := hf
  -- the number of the new block is in none of the lists
  have hused : s.created ∉ used := fun hmem =>
    Nat.lt_irrefl _ (hc _ (List.mem_append_left _ hmem))
  have hfree : s.created ∉ free := fun hmem =>
    Nat.lt_irrefl _ (hc _ (List.mem_append_right used hmem))
  have hhead : s.blk_head ≠ s.created := ne_of_mem_of_not_mem hl.head_mem hused
  have htail : s.blk_tail ≠ s.created := ne_of_mem_of_not_mem hl.tail_mem hused
  have hl' : Layout s.cells (Function.update s.blocks s.created
      (BlockNode.construct (s.blocks s.blk_tail).next s.cells)) s.blk_head s.blk_tail
      s.consumer.taken used [] free items := by
    have hsame : ∀ c ∈ used ++ ([] ++ free), Function.update s.blocks s.created
        (BlockNode.construct (s.blocks s.blk_tail).next s.cells) c = s.blocks c := by
      intro c hmem
      exact Function.update_of_ne (Nat.ne_of_lt (hc c hmem)) _ _
    refine ⟨?_, hl.nodup, hl.head, hl.tail, ?_, ?_, hl.filled⟩
    · exact (Links.congr fun c hmem => by rw [hsame c hmem]).mpr hl.linked
    · intro c hmem
      rw [hsame c (List.mem_append_left _ hmem)]
      exact hl.holds c hmem
    · intro c hmem
      rw [hsame c (List.mem_append_right _ hmem)]
      exact hl.empty c hmem
  refine h.produced hl' ?_ ?_ ?_ ?_ (Or.inl rfl) ⟨[], (List.append_nil used).symm⟩ ?_ ?_
    (Nat.le_refl _)
  · intro c hmem
    exact Nat.lt_succ_of_lt (hc c hmem)
  · refine ⟨rfl, Nat.lt_succ_self _, hused, hfree, ?_⟩
    rw [set_block_self, set_block_of_ne _ _ htail]
  · exact congrArg BlockNode.head (Function.update_of_ne hhead _ _)
  · exact congrArg BlockNode.cache_tail (Function.update_of_ne hhead _ _)
  · rw [hp]
    rfl
  · rw [hp]
    rfl

/-- The new block is linked in. -/
theorem InvFor.produce_link {v : τ} {b c : Nat} (h : s.InvFor used free items out)
    (hp : s.producer = .link v b c) :
    Inv { s.set_block b { s.blocks b with next := c } with producer := .new_write v c } := by
  have hf := h.push
  have hl := h.layout
  have hc := h.created
  rw [hp] at hf hl hc
  obtain ⟨rfl, hlt, hused, hfree, hnew⟩ := hf
  have hne : c ≠ s.blk_tail := (ne_of_mem_of_not_mem hl.tail_mem hused).symm
  have hl' := hl.link hused hfree (by rw [hnew]; rfl)
  have hsame : (Function.update s.blocks s.blk_tail
      { s.blocks s.blk_tail with next := c } s.blk_head).head = (s.blocks s.blk_head).head ∧
      (Function.update s.blocks s.blk_tail
        { s.blocks s.blk_tail with next := c } s.blk_head).cache_tail =
        (s.blocks s.blk_head).cache_tail := by
    by_cases hb : s.blk_head = s.blk_tail
    · rw [hb, Function.update_self]
      exact ⟨rfl, rfl⟩
    · rw [Function.update_of_ne hb]
      exact ⟨rfl, rfl⟩
  refine h.produced hl' ?_ ?_ hsame.1 hsame.2 (Or.inl rfl) ⟨[], (List.append_nil used).symm⟩ ?_ ?_
    (Nat.le_refl _)
  · intro d hmem
    rcases List.mem_append.mp hmem with hmem | hmem
    · exact hc d (List.mem_append_left _ hmem)
    · rcases List.mem_cons.mp hmem with rfl | hmem
      · exact hlt
      · exact hc d (List.mem_append_right used hmem)
  · refine ⟨(s.blocks s.blk_tail).next, ?_⟩
    rw [set_block_of_ne _ _ hne]
    exact hnew
  · rw [hp]
    rfl
  · rw [hp]
    rfl

/-- What the new block holds when the value is in it. -/
theorem InvFor.new_holds (h : s.InvFor used free items out) (c : Nat) (v : τ) :
    (⟨c, 0, 1, 1, 0, (List.replicate s.cells none).set 0 (some v)⟩ : BlockNode τ).Holds
      s.cells 0 [v] := by
  have htwo := h.two_le
  have hempty : (BlockNode.construct c s.cells : BlockNode τ).Holds s.cells 0 [] :=
    BlockNode.Holds.of_construct c (by omega)
  have hcell : ((List.replicate s.cells none).set 0 (some v))[0]? = some (some v) := by
    rw [List.getElem?_set_self]
    rw [List.length_replicate]
    omega
  have hpush := (hempty.write (some v)).push hcell (Ring.Behind.refl hempty.head_lt htwo)
  have hone : (0 + 1) % s.cells = 1 := Nat.mod_eq_of_lt htwo
  refine ⟨hpush.length, ?_, hpush.cache_head, 1, Nat.le_refl 1, hone.symm⟩
  have hcells := hpush.cells
  rwa [show (BlockNode.construct c s.cells : BlockNode τ).tail = 0 from rfl, hone] at hcells

/-- The block behind the tail block is free if it is not the head block. -/
theorem InvFor.free_head (h : s.InvFor used free items out) (hstaged : s.producer.staged = [])
    (hne : (s.blocks s.blk_tail).next ≠ s.blk_head) :
    free.head? = some (s.blocks s.blk_tail).next := by
  have hl := h.layout
  rw [hstaged] at hl
  have hlinked := hl.linked
  rw [hl.front_eq, Links.append, Links.append] at hlinked
  have hnext : (s.blocks s.blk_tail).next = free.headD s.blk_head := hlinked.1.2.1
  rcases free with _ | ⟨b, rest⟩
  · exact absurd hnext hne
  · rw [hnext]
    rfl

/-- By a copy of the head that is not the position behind the tail, the
    block has room. -/
theorem InvFor.has_room {n : BlockNode τ} {k : Nat} {xs : List τ}
    (h : s.InvFor used free items out) (hn : n.Holds s.cells k xs)
    (hne : s.behind n.tail ≠ n.cache_head) :
    Ring.Behind s.cells n.cache_head n.head (xs.length + 1) := by
  rw [h.behind_eq, hn.tail_eq] at hne
  exact hn.cache_head.room hne

theorem produce_inv (h : s.Inv) (he : s.produce = some s') : s'.Inv := by
  obtain ⟨used, free, items, out, h⟩ := h
  have hf := h.push
  have hl := h.layout
  unfold produce at he
  rcases hp : s.producer with _ | v | ⟨v, b⟩ | ⟨v, b, t⟩ | ⟨v, b, t⟩ | ⟨v, b, t⟩ | ⟨v, b, t⟩ |
    ⟨v, b⟩ | ⟨v, b⟩ | ⟨v, b, t⟩ | ⟨v, b, t⟩ | ⟨v, b⟩ | ⟨v, b⟩ | ⟨v, b, c⟩ | ⟨v, b⟩ | ⟨v, b⟩ |
    ⟨v, b⟩ | ⟨v, b⟩ | v
  all_goals
    rw [hp] at he hf hl
    simp only at he
  case idle => cases he
  case blk =>
    cases he
    exact h.produced_read (by rw [hp]; rfl) (by rw [hp]; rfl) (by rw [hp]; rfl) rfl
  case tail =>
    cases he
    exact h.produced_read (by rw [hp]; rfl) (by rw [hp]; rfl) (by rw [hp]; rfl) ⟨hf, rfl⟩
  case cached =>
    obtain ⟨rfl, rfl⟩ := hf
    split at he
    · next hne =>
      cases he
      exact h.produced_read (by rw [hp]; rfl) (by rw [hp]; rfl) (by rw [hp]; rfl)
        ⟨rfl, rfl, h.has_room (hl.holds _ hl.tail_mem) hne⟩
    · cases he
      exact h.produced_read (by rw [hp]; rfl) (by rw [hp]; rfl) (by rw [hp]; rfl) ⟨rfl, rfl⟩
  case head =>
    -- the real head has room if the cached one has not
    obtain ⟨rfl, rfl⟩ := hf
    have hrefresh := (hl.holds _ hl.tail_mem).refresh_head
    split at he
    · next hne =>
      rw [set_block_self] at hne
      cases he
      refine h.produced_block (by rw [hp]; rfl) (by rw [hp]; rfl) (by rw [hp]; rfl) rfl rfl
        (fun _ => rfl) (fun _ k xs hk => hk.refresh_head) ⟨rfl, ?_, ?_⟩
      · rw [Function.update_self]
      · rw [Function.update_self]
        exact h.has_room hrefresh hne
    · cases he
      exact h.produced_block (by rw [hp]; rfl) (by rw [hp]; rfl) (by rw [hp]; rfl) rfl rfl
        (fun _ => rfl) (fun _ k xs hk => hk.refresh_head) rfl
  case write =>
    obtain ⟨rfl, rfl, hroom⟩ := hf
    have hlt := (hl.holds _ hl.tail_mem).cells.tail_lt
    cases he
    refine h.produced_block (by rw [hp]; rfl) (by rw [hp]; rfl) (by rw [hp]; rfl) rfl rfl
      (fun _ => rfl) (fun _ k xs hk => hk.write (some v)) ⟨rfl, ?_, ?_, ?_⟩
    · rw [Function.update_self]
    · rw [Function.update_self]
      exact hroom
    · rw [Function.update_self]
      exact List.getElem?_set_self hlt
  case store =>
    cases he
    exact h.produce_store hp
  case next =>
    obtain rfl := hf
    split at he
    · next hne =>
      cases he
      exact h.produced_read (by rw [hp]; rfl) (by rw [hp]; rfl) (by rw [hp]; rfl)
        (h.free_head (by rw [hp]; rfl) hne)
    · cases he
      exact h.produced_read (by rw [hp]; rfl) (by rw [hp]; rfl) (by rw [hp]; rfl) rfl
  case enter =>
    -- the free block behind the tail
    cases he
    refine h.produced_block (by rw [hp]; rfl) (by rw [hp]; rfl) (by rw [hp]; rfl) rfl rfl
      (fun _ => rfl) (fun _ k xs hk => hk.refresh_head) ⟨hf, ?_, ?_⟩
    · rw [Function.update_self]
    · rw [Function.update_self]
  case enter_write =>
    obtain ⟨hfree, rfl, hcache⟩ := hf
    have hempty := hl.empty b (List.mem_of_head? hfree)
    have htail : (s.blocks b).head = (s.blocks b).tail := hempty.cells.head_eq_tail.mpr rfl
    cases he
    refine h.produced_block (by rw [hp]; rfl) (by rw [hp]; rfl) (by rw [hp]; rfl) rfl rfl
      (fun _ => rfl) (fun _ k xs hk => ?_) ⟨hfree, ?_, ?_, ?_⟩
    · simpa only [htail] using hk.write (some v)
    · rw [Function.update_self]
    · rw [Function.update_self]
      exact hcache
    · rw [Function.update_self]
      exact List.getElem?_set_self hempty.cells.head_lt
  case enter_store =>
    cases he
    exact h.produce_enter_store hp
  case move =>
    cases he
    exact h.produce_move (by rw [hp]; rfl) (by rw [hp]; rfl) hf rfl rfl (fun _ _ => trivial)
      (by rw [hp]; rfl) (Nat.le_succ _)
  case create =>
    cases he
    exact h.produce_create hp
  case link =>
    cases he
    exact h.produce_link hp
  case new_write =>
    -- the block is not linked yet, and nobody else sees it
    obtain ⟨c, hc⟩ := hf
    have hb : b ∈ s.producer.staged := by
      rw [hp]
      exact List.mem_cons_self
    cases he
    refine h.produced_block (by rw [hp]; rfl) (by rw [hp]; rfl) (by rw [hp]; rfl) rfl rfl
      (fun hno => absurd hb hno) (fun hno => absurd hb hno) ⟨c, ?_⟩
    rw [Function.update_self, hc]
    rfl
  case new_cache =>
    obtain ⟨c, hc⟩ := hf
    have hb : b ∈ s.producer.staged := by
      rw [hp]
      exact List.mem_cons_self
    cases he
    refine h.produced_block (by rw [hp]; rfl) (by rw [hp]; rfl) (by rw [hp]; rfl) rfl rfl
      (fun hno => absurd hb hno) (fun hno => absurd hb hno) ⟨c, ?_⟩
    rw [Function.update_self, hc]
  case new_tail =>
    obtain ⟨c, hc⟩ := hf
    have hb : b ∈ s.producer.staged := by
      rw [hp]
      exact List.mem_cons_self
    cases he
    refine h.produced_block (by rw [hp]; rfl) (by rw [hp]; rfl) (by rw [hp]; rfl) rfl rfl
      (fun hno => absurd hb hno) (fun hno => absurd hb hno) ?_
    show (Function.update s.blocks b _ b).Holds s.cells 0 [v]
    rw [Function.update_self, hc]
    exact h.new_holds c v
  case new_move =>
    cases he
    exact h.produce_move (by rw [hp]; rfl) (by rw [hp]; rfl) hf rfl rfl (fun _ _ => trivial)
      (by rw [hp]; rfl) (Nat.le_refl _)
  case capacity =>
    have hc := h.created
    rw [hp] at hc
    cases he
    exact h.produced hl hc trivial rfl rfl (Or.inl rfl) ⟨[], (List.append_nil used).symm⟩
      (by rw [hp]; rfl) (by rw [hp]; rfl) (Nat.le_succ _)

end State

/-! ## Section 3: What `pop` does -/

/-- What `push` knows is not touched by `pop`, which works on the block `a`. -/
theorem Push.Fact.frame {p : Push τ} {M blk_tail created a : Nat} {blocks blocks' : Nat → BlockNode τ}
    {used used' free free' : List Nat} {items items' : Nat → List τ}
    (h : p.Fact M blocks blk_tail created used free items)
    (hused : a ∈ used) (hfree : a ∉ free) (hstaged : a ∉ p.staged)
    (hother : ∀ b, b ≠ a → blocks' b = blocks b ∧ items' b = items b)
    (hnext : (blocks' a).next = (blocks a).next) (htail : (blocks' a).tail = (blocks a).tail)
    (hcache : (blocks' a).cache_head = (blocks a).cache_head)
    (hroom : Ring.Behind M (blocks a).cache_head (blocks a).head ((items a).length + 1) →
      Ring.Behind M (blocks a).cache_head (blocks' a).head ((items' a).length + 1))
    (hcell : (blocks' a).data[(blocks a).tail]? = (blocks a).data[(blocks a).tail]?)
    (hfree' : ∃ l, free' = free ++ l) (hin : ∀ b, b ∉ used → b ∉ free → b ∉ used' ∧ b ∉ free') :
    p.Fact M blocks' blk_tail created used' free' items' := by
  -- of the block that `pop` works on, `push` reads only what `pop` leaves alone
  have hhead : ∀ {b : Nat}, free.head? = some b → free'.head? = some b ∧ blocks' b = blocks b := by
    intro b hb
    obtain ⟨l, rfl⟩ := hfree'
    have hne : free ≠ [] := by
      rintro rfl
      cases hb
    refine ⟨?_, (hother b (ne_of_mem_of_not_mem (List.mem_of_head? hb) hfree)).1⟩
    rwa [List.head?_append_of_ne_nil _ hne]
  have hlink : ∀ b, (blocks' b).next = (blocks b).next := by
    intro b
    by_cases hb : b = a
    · rw [hb, hnext]
    · rw [(hother b hb).1]
  have hend : ∀ b, (blocks' b).tail = (blocks b).tail := by
    intro b
    by_cases hb : b = a
    · rw [hb, htail]
    · rw [(hother b hb).1]
  have hspace : ∀ b, Ring.Behind M (blocks b).cache_head (blocks b).head ((items b).length + 1) →
      Ring.Behind M (blocks' b).cache_head (blocks' b).head ((items' b).length + 1) := by
    intro b hb
    by_cases heq : b = a
    · subst heq
      rw [hcache]
      exact hroom hb
    · rw [(hother b heq).1, (hother b heq).2]
      exact hb
  have hkept : ∀ b, (blocks' b).data[(blocks b).tail]? = (blocks b).data[(blocks b).tail]? := by
    intro b
    by_cases hb : b = a
    · rw [hb, hcell]
    · rw [(hother b hb).1]
  have hturned : ∀ {b : Nat}, p.staged = [b] → blocks' b = blocks b := by
    intro b hb
    rw [hb] at hstaged
    exact (hother b fun heq => hstaged (heq ▸ List.mem_cons_self)).1
  cases p with
  | idle | blk _ | capacity _ => trivial
  | tail _ b | next _ b | create _ b => exact h
  | cached v b t | head v b t =>
    obtain ⟨rfl, rfl⟩ := h
    exact ⟨rfl, (hend _).symm⟩
  | write v b t =>
    obtain ⟨rfl, rfl, hb⟩ := h
    exact ⟨rfl, (hend _).symm, hspace _ hb⟩
  | store v b t =>
    obtain ⟨rfl, rfl, hb, hc⟩ := h
    exact ⟨rfl, (hend _).symm, hspace _ hb, (hkept _).trans hc⟩
  | enter v b => exact (hhead h).1
  | enter_write v b t =>
    obtain ⟨hb, hrest⟩ := h
    refine ⟨(hhead hb).1, ?_⟩
    rw [(hhead hb).2]
    exact hrest
  | enter_store v b t =>
    obtain ⟨hb, hrest⟩ := h
    refine ⟨(hhead hb).1, ?_⟩
    rw [(hhead hb).2]
    exact hrest
  | link v b c =>
    obtain ⟨rfl, hlt, hc, hc', hnew⟩ := h
    obtain ⟨hc₁, hc₂⟩ := hin c hc hc'
    refine ⟨rfl, hlt, hc₁, hc₂, ?_⟩
    rw [(hother c (ne_of_mem_of_not_mem hused hc).symm).1, hlink]
    exact hnew
  | move v b | new_move v b =>
    show (blocks' b).Holds M 0 [v]
    rw [hturned rfl]
    exact h
  | new_write v b | new_cache v b | new_tail v b =>
    obtain ⟨c, hc⟩ := h
    exact ⟨c, (hturned rfl).trans hc⟩

namespace State

variable {s s' : State τ} {used free : List Nat} {items : Nat → List τ} {out : List τ}

theorem InvFor.head_notMem (h : s.InvFor used free items out) :
    s.blk_head ∉ free ∧ s.blk_head ∉ s.producer.staged := by
  obtain ⟨-, -, hdisjoint⟩ := List.nodup_append.mp h.layout.nodup
  constructor
  · intro hmem
    exact hdisjoint _ h.layout.head_mem _ (List.mem_append_right _ hmem) rfl
  · intro hmem
    exact hdisjoint _ h.layout.head_mem _ (List.mem_append_left _ hmem) rfl

/-- A step of `pop` that reads. -/
theorem InvFor.consumed_read {p' : Pop τ} (h : s.InvFor used free items out)
    (htaken : p'.taken = s.consumer.taken)
    (hfact : p'.Fact s.blocks s.blk_head s.popped.length s.returned_before used items) :
    Inv { s with consumer := p' } := by
  refine ⟨used, free, items, out, h.size, ?_, h.created, h.push, hfact, h.popped, h.order, h.calls,
    h.before⟩
  show Layout s.cells s.blocks s.blk_head s.blk_tail p'.taken used s.producer.staged free items
  rw [htaken]
  exact h.layout

/-- A step of `pop` that changes the head block. -/
theorem InvFor.consumed_block {p' : Pop τ} {n : BlockNode τ} {items' : Nat → List τ}
    {popped' : List (Option τ)} {out' : List τ} (h : s.InvFor used free items out)
    (hlayout : Layout s.cells (Function.update s.blocks s.blk_head n) s.blk_head s.blk_tail p'.taken
      used s.producer.staged free items')
    (hother : ∀ b, b ≠ s.blk_head → items' b = items b)
    (hnext : n.next = (s.blocks s.blk_head).next) (htail : n.tail = (s.blocks s.blk_head).tail)
    (hcache : n.cache_head = (s.blocks s.blk_head).cache_head)
    (hroom : Ring.Behind s.cells (s.blocks s.blk_head).cache_head (s.blocks s.blk_head).head
      ((items s.blk_head).length + 1) →
      Ring.Behind s.cells (s.blocks s.blk_head).cache_head n.head ((items' s.blk_head).length + 1))
    (hcell : n.data[(s.blocks s.blk_head).tail]? =
      (s.blocks s.blk_head).data[(s.blocks s.blk_head).tail]?)
    (hfact : p'.Fact (Function.update s.blocks s.blk_head n) s.blk_head popped'.length
      s.returned_before used items')
    (hpopped : popped' = out'.map some)
    (horder : out' ++ Layout.content used items' = out ++ Layout.content used items) :
    Inv { s.set_block s.blk_head n with consumer := p', popped := popped' } := by
  obtain ⟨hfree, hstaged⟩ := h.head_notMem
  have hself : Function.update s.blocks s.blk_head n s.blk_head = n := Function.update_self _ _ _
  refine ⟨used, free, items', out', h.size, hlayout, h.created, ?_, hfact, hpopped, ?_, h.calls,
    h.before⟩
  · refine h.push.frame h.layout.head_mem hfree hstaged ?_ ?_ ?_ ?_ ?_ ?_
      ⟨[], (List.append_nil free).symm⟩ fun b hb hb' => ⟨hb, hb'⟩
    · intro b hb
      exact ⟨Function.update_of_ne hb _ _, hother b hb⟩
    · exact (congrArg BlockNode.next hself).trans hnext
    · exact (congrArg BlockNode.tail hself).trans htail
    · exact (congrArg BlockNode.cache_head hself).trans hcache
    · intro hb
      exact (congrArg BlockNode.head hself).symm ▸ hroom hb
    · exact (congrArg (fun m : BlockNode τ => m.data[(s.blocks s.blk_head).tail]?) hself).trans hcell
  · show out' ++ Layout.content used items' ++ s.producer.waiting = s.pushed
    rw [horder]
    exact h.order

/-- `pop` refreshes its copy of the tail. -/
theorem InvFor.consumed_refresh {p' : Pop τ} (h : s.InvFor used free items out)
    (htaken : s.consumer.taken = 0) (htaken' : p'.taken = 0)
    (hfact : p'.Fact (Function.update s.blocks s.blk_head
      { s.blocks s.blk_head with cache_tail := (s.blocks s.blk_head).tail }) s.blk_head
      s.popped.length s.returned_before used items) :
    Inv { s.set_block s.blk_head
      { s.blocks s.blk_head with cache_tail := (s.blocks s.blk_head).tail } with
        consumer := p' } := by
  have hlayout := h.layout
  rw [htaken, ← htaken'] at hlayout
  exact h.consumed_block (hlayout.set_same rfl fun k xs hk => hk.refresh_tail) (fun _ _ => rfl) rfl
    rfl rfl id rfl hfact h.popped rfl

/-- `pop` takes the first value out of its cell. -/
theorem InvFor.consume_read {b t : Nat} (h : s.InvFor used free items out)
    (hp : s.consumer = .read b t) :
    Inv { s.set_block b { s.blocks b with
        data := if s.no_constructor then (s.blocks b).data else (s.blocks b).data.set t none } with
      consumer := .store b t ((s.blocks b).data.getD t none) } := by
  have hf := h.pop
  have hl := h.layout
  rw [hp] at hf hl
  obtain ⟨rfl, rfl, hne⟩ := hf
  have hheld := hl.holds _ hl.head_mem
  rw [if_pos rfl] at hheld
  obtain ⟨x, xs, hitems⟩ : ∃ x xs, items s.blk_head = x :: xs :=
    List.exists_cons_of_ne_nil (hheld.ne_nil hne)
  have hfirst := hheld.cells
  rw [hitems] at hfirst
  have hdata : (s.blocks s.blk_head).data.getD (s.blocks s.blk_head).head none = some x := by
    rw [List.getD_eq_getElem?_getD, hfirst.first]
    rfl
  rw [hdata]
  -- the cell is not the one that `push` writes
  have htail : (s.blocks s.blk_head).head ≠ (s.blocks s.blk_head).tail := by
    intro heq
    have hnil := hfirst.head_eq_tail.mp heq
    cases hnil
  refine h.consumed_block (hl.set_block rfl (fun _ _ => rfl) (fun hno => absurd rfl hno) ?_ ?_ ?_)
    (fun _ _ => rfl) rfl rfl rfl id ?_ ⟨rfl, ?_, ?_, x, xs, hitems, rfl⟩ h.popped rfl
  · intro _
    rw [if_pos rfl]
    show BlockNode.Holds _ s.cells 1 _
    split
    · exact hheld.mono (Nat.zero_le 1)
    · exact hheld.take none
  · intro hfree
    exact absurd hfree h.head_notMem.1
  · intro hrest
    exact absurd hrest hl.head_notMem_tail
  · show (if s.no_constructor = true then (s.blocks s.blk_head).data
      else (s.blocks s.blk_head).data.set (s.blocks s.blk_head).head none)[_]? = _
    split
    · rfl
    · exact List.getElem?_set_ne htail
  · rw [Function.update_self]
  · rw [Function.update_self]
    exact hne

/-- `pop` moves the head behind the value. -/
theorem InvFor.consume_store {b t : Nat} {data : Option τ} (h : s.InvFor used free items out)
    (hp : s.consumer = .store b t data) :
    Inv { s.set_block b { s.blocks b with head := s.behind t } with
      consumer := .idle, popped := s.popped ++ [data] } := by
  have hf := h.pop
  have hl := h.layout
  rw [hp] at hf hl
  obtain ⟨rfl, rfl, hne, x, xs, hitems, rfl⟩ := hf
  obtain ⟨hl', hcontent⟩ := Layout.pop hl hitems
    (n := { s.blocks s.blk_head with head := s.behind (s.blocks s.blk_head).head }) rfl fun hk => by
      rw [h.behind_eq]
      exact hk.pop hne
  have hpopped : s.popped ++ [some x] = (out ++ [x]).map some := by
    rw [h.popped, List.map_append]
    rfl
  refine h.consumed_block hl' (fun b hb => Function.update_of_ne hb _ _) rfl rfl rfl ?_ rfl trivial
    hpopped ?_
  · intro hroom
    rw [hitems, List.length_cons] at hroom
    rw [Function.update_self, h.behind_eq]
    exact hroom.pop
  · rw [hcontent, List.append_assoc]
    rfl

/-- `pop` leaves a block that is empty. -/
theorem InvFor.consume_move {b : Nat} (h : s.InvFor used free items out)
    (hp : s.consumer = .move b) :
    Inv { s with blk_head := b, consumer := .next_head b } := by
  have hf := h.pop
  have hl := h.layout
  rw [hp] at hf hl
  obtain ⟨hb, hempty⟩ := hf
  obtain ⟨hl', hcontent⟩ := Layout.advance hl hb hempty
  obtain ⟨hfree, hstaged⟩ := h.head_notMem
  have hin : ∀ c ∈ used.tail ++ (s.producer.staged ++ (free ++ [s.blk_head])),
      c ∈ used ++ (s.producer.staged ++ free) := by
    intro c hc
    rw [hl.used_eq]
    simp only [List.mem_append, List.mem_cons, List.not_mem_nil, or_false] at hc ⊢
    tauto
  refine ⟨used.tail, free ++ [s.blk_head], items, out, h.size, hl', fun c hc => h.created c (hin c hc),
    ?_, ⟨rfl, hl.filled b (List.mem_of_head? hb)⟩, h.popped, ?_, h.calls, h.before⟩
  · refine h.push.frame hl.head_mem hfree hstaged (fun _ _ => ⟨rfl, rfl⟩) rfl rfl rfl id rfl
      ⟨[s.blk_head], rfl⟩ fun c hc hc' => ⟨fun hmem => hc (List.mem_of_mem_tail hmem), ?_⟩
    intro hmem
    rcases List.mem_append.mp hmem with hmem | hmem
    · exact hc' hmem
    · exact hc (List.mem_singleton.mp hmem ▸ hl.head_mem)
  · show out ++ Layout.content used.tail items ++ s.producer.waiting = s.pushed
    rw [hcontent]
    exact h.order

/-- If the only block is empty, no call of `push` that returned is unpopped. -/
theorem InvFor.more_blocks (h : s.InvFor used free items out) (hempty : items s.blk_head = [])
    (howed : s.popped.length < s.returned_before) : used.tail ≠ [] := by
  intro hnil
  have hcontent : Layout.content used items = [] := by
    rw [h.layout.used_eq, hnil]
    exact (List.flatMap_singleton items s.blk_head).trans hempty
  have hle := h.returned_le
  rw [hcontent, List.length_nil] at hle
  have := h.before
  omega

theorem consume_inv (h : s.Inv) (he : s.consume = some s') : s'.Inv := by
  obtain ⟨used, free, items, out, h⟩ := h
  have hf := h.pop
  have hl := h.layout
  unfold consume at he
  rcases hp : s.consumer with _ | _ | b | ⟨b, t⟩ | ⟨b, t⟩ | ⟨b, t⟩ | ⟨b, t⟩ | b | b | b | ⟨b, t⟩ |
    ⟨b, t⟩ | ⟨b, t, data⟩
  all_goals
    rw [hp] at he hf hl
    simp only at he
  case idle => cases he
  case blk =>
    cases he
    exact h.consumed_read (by rw [hp]; rfl) rfl
  case head =>
    cases he
    exact h.consumed_read (by rw [hp]; rfl) ⟨hf, rfl⟩
  case cached =>
    obtain ⟨rfl, rfl⟩ := hf
    split at he
    · next hne =>
      cases he
      exact h.consumed_read (by rw [hp]; rfl) ⟨rfl, rfl, hne⟩
    · cases he
      exact h.consumed_read (by rw [hp]; rfl) ⟨rfl, rfl⟩
  case tail =>
    obtain ⟨rfl, rfl⟩ := hf
    have hheld := hl.holds _ hl.head_mem
    rw [if_pos rfl] at hheld
    split at he
    · next hne =>
      rw [set_block_self] at hne
      cases he
      refine h.consumed_refresh (by rw [hp]; rfl) rfl ⟨rfl, ?_, ?_⟩
      · rw [Function.update_self]
      · rw [Function.update_self]
        exact hne
    · next heq =>
      rw [set_block_self, not_not] at heq
      have hempty := hheld.cells.head_eq_tail.mp heq
      cases he
      refine h.consumed_refresh (by rw [hp]; rfl) rfl ⟨rfl, ?_, h.more_blocks hempty⟩
      rw [Function.update_self]
  case moved =>
    obtain ⟨rfl, rfl, howed⟩ := hf
    split at he
    · next hne =>
      cases he
      exact h.consumed_read (by rw [hp]; rfl) ⟨rfl, rfl, mt hl.single_iff.mpr hne⟩
    · cases he
      exact h.consumed_read (by rw [hp]; rfl) trivial
  case last =>
    obtain ⟨rfl, rfl, hmore⟩ := hf
    have hheld := hl.holds _ hl.head_mem
    rw [if_pos rfl] at hheld
    split at he
    · next heq =>
      rw [set_block_self] at heq
      have hempty := hheld.cells.head_eq_tail.mp heq
      cases he
      exact h.consumed_refresh (by rw [hp]; rfl) rfl ⟨rfl, hempty, hmore⟩
    · next hne =>
      rw [set_block_self] at hne
      cases he
      refine h.consumed_refresh (by rw [hp]; rfl) rfl ⟨rfl, ?_, ?_⟩
      · rw [Function.update_self]
      · rw [Function.update_self]
        exact hne
  case next =>
    obtain ⟨rfl, hempty, hmore⟩ := hf
    cases he
    refine h.consumed_read (by rw [hp]; rfl) ⟨?_, hempty⟩
    -- the next block is a used one
    have hlinked := hl.linked
    rw [hl.used_eq] at hlinked
    have hnext := hlinked.1
    rcases hrest : used.tail with _ | ⟨c, rest⟩
    · exact absurd hrest hmore
    · rw [hrest] at hnext
      exact congrArg some hnext.symm
  case move =>
    cases he
    exact h.consume_move hp
  case next_head =>
    obtain ⟨rfl, hne⟩ := hf
    cases he
    exact h.consumed_read (by rw [hp]; rfl) ⟨rfl, rfl, hne⟩
  case next_tail =>
    obtain ⟨rfl, rfl, hne⟩ := hf
    have hheld := hl.holds _ hl.head_mem
    rw [if_pos rfl] at hheld
    cases he
    refine h.consumed_refresh (by rw [hp]; rfl) rfl ⟨rfl, ?_, ?_⟩
    · rw [Function.update_self]
    · rw [Function.update_self]
      exact mt hheld.cells.head_eq_tail.mp hne
  case read =>
    cases he
    exact h.consume_read hp
  case store =>
    cases he
    exact h.consume_store hp

end State

/-! ## Section 4: Runs -/

theorem init_list_linked (cells : Nat) {blk_count i k : Nat} (hcount : i + k = max 1 blk_count) :
    Links (fun b => (init_list cells blk_count b : BlockNode τ).next) (List.range' i k) 0 := by
  induction k generalizing i with
  | zero => trivial
  | succ k ih =>
    rw [List.range'_succ]
    refine ⟨?_, ih (by omega)⟩
    show (if i + 1 < blk_count then i + 1 else 0) = _
    rcases k with _ | k
    · rw [if_neg (by omega)]
      rfl
    · rw [if_pos (by omega), List.range'_succ]
      rfl

theorem construct_inv (no_constructor : Bool) {PerBlockElementCount : BitVec 32}
    (hcount : 2 ≤ PerBlockElementCount.toInt) (size : BitVec 32) :
    (construct no_constructor PerBlockElementCount size : State τ).Inv := by
  obtain ⟨m, hpos, hle, hm⟩ := ceil_to_power_of_two_eq hcount
  have hpow : 2 ^ m ≤ 2 ^ 31 := Nat.pow_le_pow_right Nat.two_pos hle
  have hone : 1 ≤ 2 ^ m := Nat.one_le_two_pow
  have hcells : (construct no_constructor PerBlockElementCount size : State τ).cells = 2 ^ m := by
    show (ceil_to_power_of_two PerBlockElementCount - 1).toNat + 1 = 2 ^ m
    bv_omega
  obtain ⟨n, hn⟩ : ∃ n, n = (size.toInt.tdiv
      ((ceil_to_power_of_two PerBlockElementCount).toInt + 1) + 1).toNat := ⟨_, rfl⟩
  have hheld : ∀ b, ((construct no_constructor PerBlockElementCount size : State τ).blocks b).Holds
      (2 ^ m) 0 [] := by
    intro b
    have hnew := BlockNode.Holds.of_construct (τ := τ) (if b + 1 < n then b + 1 else 0) hone
    rw [← hm] at hnew ⊢
    rw [hn] at hnew
    exact hnew
  have hlist : List.range' 0 (max 1 n) = 0 :: List.range' 1 (max 1 n - 1) := by
    rw [show max 1 n = max 1 n - 1 + 1 by omega, List.range'_succ]
    rfl
  refine ⟨[0], List.range' 1 (max 1 n - 1), fun _ => [], [], ⟨m, hpos, hcells⟩, ?_, ?_, trivial,
    trivial, rfl, rfl, rfl, Nat.le_refl 0⟩
  · rw [hcells]
    refine ⟨?_, ?_, rfl, rfl, ?_, fun b _ => hheld b, nofun⟩
    · show Links _ (0 :: List.range' 1 (max 1 n - 1)) 0
      rw [← hlist, hn]
      exact init_list_linked _ (Nat.zero_add _)
    · show (0 :: List.range' 1 (max 1 n - 1)).Nodup
      rw [← hlist]
      exact List.nodup_range'
    · intro b _
      exact (hheld b).mono (Nat.zero_le _)
  · show ∀ b ∈ 0 :: List.range' 1 (max 1 n - 1), b < _
    rw [← hlist]
    intro b hb
    rw [List.mem_range'_1, Nat.zero_add] at hb
    rw [hn] at hb
    exact hb.2

namespace State

variable {s s' : State τ}

theorem step_inv {l : Label τ} (h : s.Inv) (he : s.step l = some s') : s'.Inv := by
  cases l with
  | push v =>
    obtain ⟨used, free, items, out, h⟩ := h
    simp only [step] at he
    split at he
    · next hp =>
      cases he
      have hl := h.layout
      have hc := h.created
      have horder := h.order
      have hcalls := h.calls
      rw [hp] at hl hc horder hcalls
      refine ⟨used, free, items, out, h.size, hl, hc, trivial, h.pop, h.popped, ?_, ?_, h.before⟩
      · show _ ++ [v] = s.pushed ++ [v]
        rw [← horder, show (Push.idle : Push τ).waiting = [] from rfl, List.append_nil]
      · show (s.pushed ++ [v]).length = s.returned + 1
        rw [List.length_append, hcalls]
        rfl
    · cases he
  | produce => exact produce_inv h he
  | pop =>
    obtain ⟨used, free, items, out, h⟩ := h
    simp only [step] at he
    split at he
    · next hp =>
      cases he
      have hl := h.layout
      rw [hp] at hl
      exact ⟨used, free, items, out, h.size, hl, h.created, h.push, trivial, h.popped, h.order,
        h.calls, Nat.le_refl _⟩
    · cases he
  | consume => exact consume_inv h he

/-- A step of the thread that calls `pop`. -/
def of_consumer : Label τ → Bool
  | .pop | .consume => true
  | .push _ | .produce => false

/-- **First in, first out**: the popped values are a prefix of the pushed
    ones. And a `pop` that starts while the value of a returned `push` is
    still there succeeds, after at most 13 steps of its own. -/
structure Fifo (s : State τ) : Prop where
  in_order : s.popped <+: s.pushed.map some
  goes_on : s.consumer ≠ .idle → (s.step .consume).isSome = true
  succeeds : s.consumer = .idle → s.popped.length < s.returned →
    ∀ ls s', exec step s ls = some s' → 13 ≤ ls.countP of_consumer →
      s.popped.length < s'.popped.length

/-- How many steps `pop` takes from here on at most. -/
def steps_left : Pop τ → Nat
  | .idle => 0
  | .store _ _ _ => 1
  | .read _ _ => 2
  | .next_tail _ _ => 3
  | .next_head _ => 4
  | .move _ => 5
  | .next _ => 6
  | .last _ _ => 7
  | .moved _ _ => 8
  | .tail _ _ => 9
  | .cached _ _ => 10
  | .head _ => 11
  | .blk => 12

theorem consume_isSome (h : s.consumer ≠ .idle) : s.consume.isSome = true := by
  unfold consume
  rcases hp : s.consumer with _ | _ | b | ⟨b, t⟩ | ⟨b, t⟩ | ⟨b, t⟩ | ⟨b, t⟩ | b | b | b | ⟨b, t⟩ |
    ⟨b, t⟩ | ⟨b, t, data⟩
  case idle => exact absurd hp h
  all_goals
    simp only
    try split
  all_goals rfl

/-- A step of a `pop` that owes a value. -/
theorem consume_progress (h : s.Inv) (howed : s.popped.length < s.returned_before)
    (he : s.consume = some s') :
    s.popped.length < s'.popped.length ∨
      (s'.consumer ≠ .idle ∧ s'.popped = s.popped ∧ s'.returned_before = s.returned_before ∧
        steps_left s'.consumer + 1 ≤ steps_left s.consumer) := by
  obtain ⟨used, free, items, out, h⟩ := h
  have hf := h.pop
  unfold consume at he
  rcases hp : s.consumer with _ | _ | b | ⟨b, t⟩ | ⟨b, t⟩ | ⟨b, t⟩ | ⟨b, t⟩ | b | b | b | ⟨b, t⟩ |
    ⟨b, t⟩ | ⟨b, t, data⟩
  all_goals
    rw [hp] at he hf
    simp only at he
  case idle => cases he
  case moved =>
    obtain ⟨rfl, -, hmore⟩ := hf
    rw [if_pos fun heq => hmore howed (h.layout.single_iff.mp heq)] at he
    cases he
    exact Or.inr ⟨nofun, rfl, rfl, Nat.le_refl _⟩
  case store =>
    cases he
    left
    show s.popped.length < (s.popped ++ [data]).length
    rw [List.length_append]
    exact Nat.lt_succ_self _
  case cached | tail | last =>
    right
    split at he
    all_goals
      cases he
      exact ⟨nofun, rfl, rfl, by simp [steps_left]⟩
  all_goals
    cases he
    exact Or.inr ⟨nofun, rfl, rfl, Nat.le_refl _⟩

/-- A step of the other thread. -/
theorem step_other {l : Label τ} (hl : of_consumer l = false) (he : s.step l = some s') :
    s'.consumer = s.consumer ∧ s'.popped = s.popped ∧ s'.returned_before = s.returned_before ∧
      s.returned ≤ s'.returned := by
  cases l with
  | push v =>
    simp only [step] at he
    split at he
    · cases he
      exact ⟨rfl, rfl, rfl, Nat.le_refl _⟩
    · cases he
  | produce =>
    simp only [step, produce] at he
    rcases hp : s.producer with _ | v | ⟨v, b⟩ | ⟨v, b, t⟩ | ⟨v, b, t⟩ | ⟨v, b, t⟩ | ⟨v, b, t⟩ |
      ⟨v, b⟩ | ⟨v, b⟩ | ⟨v, b, t⟩ | ⟨v, b, t⟩ | ⟨v, b⟩ | ⟨v, b⟩ | ⟨v, b, c⟩ | ⟨v, b⟩ | ⟨v, b⟩ |
      ⟨v, b⟩ | ⟨v, b⟩ | v
    all_goals
      rw [hp] at he
      simp only at he
    case idle => cases he
    case cached | head | next =>
      split at he
      all_goals
        cases he
        exact ⟨rfl, rfl, rfl, Nat.le_refl _⟩
    case store | move | capacity =>
      cases he
      exact ⟨rfl, rfl, rfl, Nat.le_succ _⟩
    all_goals
      cases he
      exact ⟨rfl, rfl, rfl, Nat.le_refl _⟩
  | pop => cases hl
  | consume => cases hl

theorem step_popped {l : Label τ} (he : s.step l = some s') :
    s.popped.length ≤ s'.popped.length := by
  by_cases hl : of_consumer l = true
  · cases l with
    | push v => cases hl
    | produce => cases hl
    | pop =>
      simp only [step] at he
      split at he
      · cases he
        exact Nat.le_refl _
      · cases he
    | consume =>
      simp only [step, consume] at he
      rcases hp : s.consumer with _ | _ | b | ⟨b, t⟩ | ⟨b, t⟩ | ⟨b, t⟩ | ⟨b, t⟩ | b | b | b |
        ⟨b, t⟩ | ⟨b, t⟩ | ⟨b, t, data⟩
      all_goals
        rw [hp] at he
        simp only at he
      case idle => cases he
      case cached | tail | moved | last =>
        split at he
        all_goals
          cases he
          exact Nat.le_refl _
      case store =>
        cases he
        exact (List.prefix_append s.popped [data]).length_le
      all_goals
        cases he
        exact Nat.le_refl _
  · obtain ⟨-, hpopped, -⟩ := step_other (by simpa using hl) he
    rw [hpopped]

theorem exec_popped {ls : List (Label τ)} (he : exec step s ls = some s') :
    s.popped.length ≤ s'.popped.length := by
  induction ls generalizing s with
  | nil =>
    cases he
    exact Nat.le_refl _
  | cons l ls ih =>
    obtain ⟨s₁, hstep, hrest⟩ := Option.bind_eq_some_iff.mp he
    exact Nat.le_trans (step_popped hstep) (ih hrest)

/-- A `pop` that owes a value succeeds within its steps, whatever the other
    thread does. -/
theorem owed_popped {ls : List (Label τ)} (h : s.Inv) (hbusy : s.consumer ≠ .idle)
    (howed : s.popped.length < s.returned_before) (he : exec step s ls = some s')
    (hsteps : steps_left s.consumer ≤ ls.countP of_consumer) :
    s.popped.length < s'.popped.length := by
  induction ls generalizing s with
  | nil =>
    -- it still has a step to go
    exfalso
    rw [List.countP_nil] at hsteps
    cases hp : s.consumer with
    | idle => exact hbusy hp
    | _ =>
      rw [hp] at hsteps
      simp [steps_left] at hsteps
  | cons l ls ih =>
    obtain ⟨s₁, hstep, hrest⟩ := Option.bind_eq_some_iff.mp he
    have hinv := step_inv h hstep
    by_cases hl : of_consumer l = true
    · rw [List.countP_cons, if_pos hl] at hsteps
      cases l with
      | push v => cases hl
      | produce => cases hl
      | pop =>
        simp only [step] at hstep
        cases hstep
      | consume =>
        rcases consume_progress h howed hstep with hlt | ⟨hbusy', hpopped, hbefore, hless⟩
        · exact Nat.lt_of_lt_of_le hlt (exec_popped hrest)
        · rw [← hpopped]
          exact ih hinv hbusy' (by rw [hpopped, hbefore]; exact howed) hrest (by omega)
    · rw [List.countP_cons, if_neg hl] at hsteps
      obtain ⟨hconsumer, hpopped, hbefore, -⟩ := step_other (by simpa using hl) hstep
      rw [← hpopped]
      refine ih hinv ?_ ?_ hrest ?_
      · rw [hconsumer]
        exact hbusy
      · rw [hpopped, hbefore]
        exact howed
      · rw [hconsumer]
        exact hsteps

theorem Inv.fifo (h : s.Inv) : s.Fifo := by
  refine ⟨?_, consume_isSome, ?_⟩
  · obtain ⟨used, free, items, out, h⟩ := h
    rw [h.popped, ← h.order, List.append_assoc, List.map_append]
    exact List.prefix_append _ _
  · intro hidle hlt ls s' he hsteps
    induction ls generalizing s with
    | nil => cases hsteps
    | cons l ls ih =>
      obtain ⟨s₁, hstep, hrest⟩ := Option.bind_eq_some_iff.mp he
      have hinv := step_inv h hstep
      by_cases hl : of_consumer l = true
      · rw [List.countP_cons, if_pos hl] at hsteps
        cases l with
        | push v => cases hl
        | produce => cases hl
        | pop =>
          -- the call starts
          simp only [step, hidle] at hstep
          cases hstep
          have hpop := owed_popped hinv (by nofun) hlt hrest (by simp only [steps_left]; omega)
          exact hpop
        | consume =>
          simp only [step, consume, hidle] at hstep
          cases hstep
      · rw [List.countP_cons, if_neg hl] at hsteps
        obtain ⟨hconsumer, hpopped, -, hreturned⟩ := step_other (by simpa using hl) hstep
        rw [← hpopped]
        refine ih hinv (hconsumer.trans hidle) ?_ hrest hsteps
        rw [hpopped]
        exact Nat.lt_of_lt_of_le hlt hreturned

end State

end O2o

end Pump
