import Pump.Cells

/-! # heap_sort

    `__max_heapify`, `__bulid_max_heap` and `heap_sort` of `sort.h`. The
    children of node `i` are taken at `2i` and `2i + 1` in an array that starts
    at 0, so that node 0 is its own left child and has one child besides. An
    index is a `Nat`, for with `2 * s + 1 < 2 ^ 31` none leaves `int32_t`. -/

namespace Pump

section

variable {α : Type*} [LinearOrder α]

/-! ## Section 1: The functions -/

/-- The greatest of node `i` and its children in `__max_heapify`. -/
def max_heapify_largest (s i : Nat) (a : Cells Nat α) : Nat × Cells Nat α :=
  let l := i * 2
  let r := i * 2 + 1
  let c := if l < s then (if a.val l > a.val i then l else i, (a.read l).read i) else (i, a)
  if r < s then (if c.2.val r > c.2.val c.1 then r else c.1, (c.2.read r).read c.1) else c

/-- Where the greatest is, and which elements were looked at. -/
structure Largest (s i : Nat) (a : Cells Nat α) (r : Nat × Cells Nat α) : Prop where
  place : r.1 = i ∨ i < r.1 ∧ r.1 < s ∧ r.1 / 2 = i
  self : a.val i ≤ a.val r.1
  left : i * 2 < s → a.val (i * 2) ≤ a.val r.1
  right : i * 2 + 1 < s → a.val (i * 2 + 1) ≤ a.val r.1
  same : r.2.val = a.val
  inside : a.Accesses (Set.Iio s) r.2

theorem max_heapify_largest_spec (s i : Nat) (a : Cells Nat α) :
    Largest s i a (max_heapify_largest s i a) := by
  have hread : ∀ (b : Cells Nat α) {k m : Nat}, k < s → m < s →
      b.Accesses (Set.Iio s) ((b.read k).read m) := by
    intro b k m hk hm
    have hfirst : b.Accesses (Set.Iio s) (b.read k) := .read hk
    exact hfirst.trans (.read hm)
  -- after the left child
  obtain ⟨c, hc⟩ : ∃ c, c = if i * 2 < s then
      (if a.val (i * 2) > a.val i then i * 2 else i, (a.read (i * 2)).read i) else (i, a) := ⟨_, rfl⟩
  have hleft : (c.1 = i ∨ c.1 = i * 2 ∧ i < c.1 ∧ i * 2 < s) ∧ a.val i ≤ a.val c.1 ∧
      (i * 2 < s → a.val (i * 2) ≤ a.val c.1) ∧ c.2.val = a.val ∧
      a.Accesses (Set.Iio s) c.2 := by
    rw [hc]
    by_cases hl : i * 2 < s
    · rw [if_pos hl]
      by_cases hgt : a.val (i * 2) > a.val i
      · rw [if_pos hgt]
        have hne : i * 2 ≠ i := by
          intro heq
          rw [heq] at hgt
          exact lt_irrefl _ hgt
        exact ⟨.inr ⟨rfl, by dsimp only; omega, hl⟩, le_of_lt hgt, fun _ => le_refl _, rfl,
          hread a hl (by omega)⟩
      · rw [if_neg hgt]
        exact ⟨.inl rfl, le_refl _, fun _ => not_lt.mp hgt, rfl, hread a hl (by omega)⟩
    · rw [if_neg hl]
      exact ⟨.inl rfl, le_refl _, fun h => absurd h hl, rfl, .refl _ a⟩
  obtain ⟨hplace, hself, hlval, hval, hacc⟩ := hleft
  have heq : max_heapify_largest s i a = if i * 2 + 1 < s then
      (if c.2.val (i * 2 + 1) > c.2.val c.1 then i * 2 + 1 else c.1,
        (c.2.read (i * 2 + 1)).read c.1) else c := by
    rw [hc]
    rfl
  rw [heq, hval]
  by_cases hr : i * 2 + 1 < s
  · rw [if_pos hr]
    have hc1 : c.1 < s := by
      rcases hplace with h | ⟨h, -⟩ <;> omega
    by_cases hgt : a.val (i * 2 + 1) > a.val c.1
    · rw [if_pos hgt]
      constructor
      case place => exact .inr ⟨by dsimp only; omega, hr, by dsimp only; omega⟩
      case self => exact le_trans hself (le_of_lt hgt)
      case left => exact fun h => le_trans (hlval h) (le_of_lt hgt)
      case right => exact fun _ => le_refl _
      case same => exact hval
      case inside => exact hacc.trans (hread c.2 hr hc1)
    · rw [if_neg hgt]
      constructor
      case place =>
        rcases hplace with h | ⟨h, hgt', hlt⟩
        · exact .inl h
        · exact .inr ⟨hgt', hc1, by dsimp only; omega⟩
      case self => exact hself
      case left => exact hlval
      case right => exact fun _ => not_lt.mp hgt
      case same => exact hval
      case inside => exact hacc.trans (hread c.2 hr hc1)
  · rw [if_neg hr]
    constructor
    case place =>
      rcases hplace with h | ⟨h, hgt', hlt⟩
      · exact .inl h
      · exact .inr ⟨hgt', by omega, by omega⟩
    case self => exact hself
    case left => exact hlval
    case right => exact fun h => absurd h hr
    case same => exact hval
    case inside => exact hacc

/-- `__max_heapify`. -/
def max_heapify (s i : Nat) (a : Cells Nat α) : Cells Nat α :=
  let r := max_heapify_largest s i a
  if _h : r.1 ≠ i then max_heapify s r.1 (r.2.swap i r.1) else r.2
termination_by s - i
decreasing_by
  have hplace := (max_heapify_largest_spec s i a).place
  rcases hplace with heq | hlt
  · exact absurd heq _h
  · omega

/-- The loop of `__bulid_max_heap`, from `i` down to 0. -/
def bulid_max_heap_from (s : Nat) : Nat → Cells Nat α → Cells Nat α
  | 0, a => max_heapify s 0 a
  | i + 1, a => bulid_max_heap_from s i (max_heapify s (i + 1) a)

/-- `__bulid_max_heap`. -/
def bulid_max_heap (a : Cells Nat α) (s : Nat) : Cells Nat α := bulid_max_heap_from s (s / 2) a

/-- The loop of `heap_sort`, from `i` down to 1. -/
def heap_sort_from : Nat → Nat → Cells Nat α → Cells Nat α
  | 0, _, a => a
  | i + 1, s, a => heap_sort_from i (s - 1) (max_heapify (s - 1) 0 (a.swap 0 (i + 1)))

/-- `heap_sort`. -/
def heap_sort (a : Cells Nat α) (s : Nat) : Cells Nat α :=
  heap_sort_from (s - 1) s (bulid_max_heap a s)

/-! ## Section 2: A sift-down -/

/-- Every node from 1 on whose parent is `t` or later is not greater than its
    parent. -/
def HeapFrom (t s : Nat) (a : Cells Nat α) : Prop :=
  ∀ k, 1 ≤ k → k < s → t ≤ k / 2 → a.val k ≤ a.val (k / 2)

/-- The same but for the children of node `i`, which are not greater than the
    parent of `i` where that one counts. -/
structure Sifting (t s i : Nat) (a : Cells Nat α) : Prop where
  except : ∀ k, 1 ≤ k → k < s → t ≤ k / 2 → k / 2 ≠ i → a.val k ≤ a.val (k / 2)
  grand : 1 ≤ i → t ≤ i / 2 → ∀ k, k < s → k / 2 = i → a.val k ≤ a.val (i / 2)

section

variable {t s i : Nat} {a b : Cells Nat α} {r : Nat × Cells Nat α}

/-- The children of `i` are at `2i` and `2i + 1`. -/
theorem Largest.child (h : Largest s i a r) {k : Nat} (hks : k < s) (hk : k / 2 = i) :
    a.val k ≤ a.val r.1 := by
  have hcases : k = i * 2 ∨ k = i * 2 + 1 := by omega
  rcases hcases with rfl | rfl
  · exact h.left hks
  · exact h.right hks

/-- Nothing is out of order once the greatest is at `i`. -/
theorem Sifting.stop (h : Sifting t s i a) (hlargest : Largest s i a r) (hi : r.1 = i) :
    HeapFrom t s r.2 := by
  intro k hk hks ht
  rw [hlargest.same]
  by_cases hki : k / 2 = i
  · rw [hki]
    have hchild := hlargest.child hks hki
    rwa [hi] at hchild
  · exact h.except k hk hks ht hki

/-- Otherwise the greatest moves up, and only its own children are left to be
    looked at. -/
theorem Sifting.move (h : Sifting t s i a) (hlargest : Largest s i a r) (hne : r.1 ≠ i) :
    Sifting t s r.1 (r.2.swap i r.1) := by
  obtain ⟨hlt, hrs, hparent⟩ : i < r.1 ∧ r.1 < s ∧ r.1 / 2 = i := by
    rcases hlargest.place with heq | hplace
    · exact absurd heq hne
    · exact hplace
  have hi : (r.2.swap i r.1).val i = a.val r.1 := by
    rw [Cells.swap_val_left, hlargest.same]
  have hr : (r.2.swap i r.1).val r.1 = a.val i := by
    rw [Cells.swap_val_right, hlargest.same]
  have hother : ∀ k, k ≠ i → k ≠ r.1 → (r.2.swap i r.1).val k = a.val k := by
    intro k hki hkr
    rw [Cells.swap_val_ne _ hki hkr, hlargest.same]
  constructor
  case except =>
    intro k hk hks ht hkr
    by_cases hki : k / 2 = i
    · -- a child of `i`: the greatest of them is now above it
      rw [hki, hi]
      by_cases hkeq : k = r.1
      · rw [hkeq, hr]
        exact hlargest.self
      · rw [hother k (by omega) hkeq]
        exact hlargest.child hks hki
    · rw [hother (k / 2) hki hkr]
      by_cases hkeq : k = i
      · rw [hkeq, hi]
        rw [hkeq] at hk ht
        exact h.grand hk ht r.1 hrs hparent
      · rw [hother k hkeq (by omega)]
        exact h.except k hk hks ht hki
  case grand =>
    intro hpos ht k hks hk
    -- what has moved up to `i` was above these children before
    rw [hparent, hi, hother k (by omega) (by omega)]
    have hold := h.except k (by omega) hks (by omega) (by omega)
    rwa [hk] at hold

/-- `__max_heapify` mends the heap at node `i`. -/
theorem max_heapify_spec (s i : Nat) (a : Cells Nat α) :
    a.Rearranges (Set.Iio s) (max_heapify s i a) ∧
      a.Accesses (Set.Iio s) (max_heapify s i a) ∧
      ∀ t, Sifting t s i a → HeapFrom t s (max_heapify s i a) := by
  fun_induction max_heapify s i a with
  | case1 i a r hne ih =>
    have hlargest : Largest s i a r := max_heapify_largest_spec s i a
    obtain ⟨hlt, hrs⟩ : i < r.1 ∧ r.1 < s := by
      rcases hlargest.place with heq | ⟨hlt, hrs, -⟩
      · exact absurd heq hne
      · exact ⟨hlt, hrs⟩
    have his : i ∈ Set.Iio s := lt_trans hlt hrs
    obtain ⟨hmoved, hacc, hheap⟩ := ih
    refine ⟨?_, ?_, ?_⟩
    · exact (Cells.Rearranges.of_eq _ hlargest.same).trans
        ((Cells.Rearranges.swap his hrs).trans hmoved)
    · exact hlargest.inside.trans ((Cells.Accesses.swap his hrs).trans hacc)
    · exact fun t hsift => hheap t (hsift.move hlargest hne)
  | case2 i a r heq =>
    have hlargest : Largest s i a r := max_heapify_largest_spec s i a
    refine ⟨.of_eq _ hlargest.same, hlargest.inside, ?_⟩
    exact fun t hsift => hsift.stop hlargest (not_not.mp heq)

/-! ## Section 3: The heap is built -/

/-- Before a sift-down at `i` no node counts whose parent is the parent of `i`. -/
theorem HeapFrom.sifting (h : HeapFrom (i + 1) s a) : Sifting i s i a := by
  constructor
  case except => exact fun k hk hks ht hki => h k hk hks (by omega)
  case grand =>
    intro hi ht
    omega

/-- The loop of `__bulid_max_heap` extends the order down to node 0. -/
theorem bulid_max_heap_from_spec (s i : Nat) (a : Cells Nat α) (h : HeapFrom (i + 1) s a) :
    HeapFrom 0 s (bulid_max_heap_from s i a) ∧
      a.Rearranges (Set.Iio s) (bulid_max_heap_from s i a) ∧
      a.Accesses (Set.Iio s) (bulid_max_heap_from s i a) := by
  induction i generalizing a with
  | zero =>
    obtain ⟨hmoved, hacc, hheap⟩ := max_heapify_spec s 0 a
    exact ⟨hheap 0 h.sifting, hmoved, hacc⟩
  | succ i ih =>
    obtain ⟨hmoved, hacc, hheap⟩ := max_heapify_spec s (i + 1) a
    obtain ⟨hend, hmoved', hacc'⟩ := ih _ (hheap (i + 1) h.sifting)
    exact ⟨hend, hmoved.trans hmoved', hacc.trans hacc'⟩

theorem bulid_max_heap_spec (a : Cells Nat α) (s : Nat) :
    HeapFrom 0 s (bulid_max_heap a s) ∧ a.Rearranges (Set.Iio s) (bulid_max_heap a s) ∧
      a.Accesses (Set.Iio s) (bulid_max_heap a s) := by
  apply bulid_max_heap_from_spec
  intro k hk hks ht
  omega

/-! ## Section 4: The greatest goes to the end -/

/-- Node 0 is the root: every chain of parents ends there. -/
theorem HeapFrom.root (h : HeapFrom 0 s a) : ∀ k, k < s → a.val k ≤ a.val 0 := by
  intro k
  induction k using Nat.strongRecOn with
  | ind k ih =>
    intro hks
    by_cases hk : k = 0
    · rw [hk]
    · exact le_trans (h k (by omega) hks (Nat.zero_le _)) (ih (k / 2) (by omega) (by omega))

/-- Between two turns of the loop: `[0, i]` is a heap, and what follows is in
    order and not less than anything in it. -/
structure Sorting (n i : Nat) (a : Cells Nat α) : Prop where
  heap : HeapFrom 0 (i + 1) a
  sorted : ∀ k l, i < k → k ≤ l → l < n → a.val k ≤ a.val l
  least : ∀ k l, k ≤ i → i < l → l < n → a.val k ≤ a.val l

/-- One turn: the root is swapped with the last node, and the rest sifted. -/
theorem Sorting.turn {n : Nat} (h : Sorting n (i + 1) a) (hi : i + 1 < n) :
    let b := max_heapify (i + 1) 0 (a.swap 0 (i + 1))
    Sorting n i b ∧ a.Rearranges (Set.Iio n) b ∧ a.Accesses (Set.Iio n) b := by
  obtain ⟨hmoved, hacc, hheap⟩ := max_heapify_spec (i + 1) 0 (a.swap 0 (i + 1))
  dsimp only
  generalize max_heapify (i + 1) 0 (a.swap 0 (i + 1)) = b at *
  have hroot := h.heap.root
  have hswap : ∀ k, 1 ≤ k → k ≤ i → (a.swap 0 (i + 1)).val k = a.val k := by
    intro k hk hki
    exact Cells.swap_val_ne a (by omega) (by omega)
  -- from `i + 1` on only the old root is new
  have hlast : b.val (i + 1) = a.val 0 := by
    rw [hmoved.others (by simp), Cells.swap_val_right]
  have hbeyond : ∀ k, i + 1 < k → b.val k = a.val k := by
    intro k hk
    rw [hmoved.others (by simp only [Set.mem_Iio]; omega), Cells.swap_val_ne a (by omega) (by omega)]
  have hbelow : ∀ k ∈ Set.Iio (i + 1), b.val k ≤ a.val 0 := by
    refine hmoved.forall (P := fun x => x ≤ a.val 0) ?_
    intro k hk
    have hki : k < i + 1 := hk
    by_cases hk0 : k = 0
    · rw [hk0, Cells.swap_val_left]
      exact hroot (i + 1) (by omega)
    · rw [hswap k (by omega) (by omega)]
      exact hroot k (by omega)
  refine ⟨?_, ?_, ?_⟩
  · constructor
    case heap =>
      apply hheap
      constructor
      case except =>
        intro k hk hki ht hk0
        rw [hswap k hk (by omega), hswap (k / 2) (by omega) (by omega)]
        exact h.heap k hk (by omega) ht
      case grand =>
        intro hpos
        omega
    case sorted =>
      intro k l hk hkl hl
      by_cases hki : k = i + 1
      · by_cases hli : l = i + 1
        · rw [hki, hli]
        · rw [hki, hlast, hbeyond l (by omega)]
          exact h.least 0 l (by omega) (by omega) hl
      · rw [hbeyond k (by omega), hbeyond l (by omega)]
        exact h.sorted k l (by omega) hkl hl
    case least =>
      intro k l hk hil hl
      refine le_trans (hbelow k (by simp only [Set.mem_Iio]; omega)) ?_
      by_cases hli : l = i + 1
      · rw [hli, hlast]
      · rw [hbeyond l (by omega)]
        exact h.least 0 l (by omega) (by omega) hl
  · refine (Cells.Rearranges.swap ?_ ?_).trans (hmoved.mono ?_)
    · exact lt_trans (Nat.succ_pos i) hi
    · exact hi
    · exact fun k hk => lt_trans hk hi
  · refine (Cells.Accesses.swap ?_ ?_).trans (hacc.mono ?_)
    · exact lt_trans (Nat.succ_pos i) hi
    · exact hi
    · exact fun k hk => lt_trans hk hi

theorem heap_sort_from_spec {n : Nat} (h : Sorting n i a) (hi : i < n) :
    let b := heap_sort_from i (i + 1) a
    Sorting n 0 b ∧ a.Rearranges (Set.Iio n) b ∧ a.Accesses (Set.Iio n) b := by
  induction i generalizing a with
  | zero => exact ⟨h, .of_eq _ rfl, .refl _ a⟩
  | succ i ih =>
    obtain ⟨hnext, hmoved, hacc⟩ := h.turn hi
    obtain ⟨hend, hmoved', hacc'⟩ := ih hnext (by omega)
    exact ⟨hend, hmoved.trans hmoved', hacc.trans hacc'⟩

/-- `heap_sort` sorts every array, and looks at nothing outside it. -/
theorem heap_sort_sorts (a : Cells Nat α) (s : Nat) :
    a.Accesses (Set.Iio s) (heap_sort a s) ∧ ((heap_sort a s).front s).Pairwise (· ≤ ·) ∧
      ((heap_sort a s).front s).Perm (a.front s) ∧
      ∀ k, s ≤ k → (heap_sort a s).val k = a.val k := by
  obtain ⟨hheap, hmoved, hacc⟩ := bulid_max_heap_spec a s
  have hend : (∀ k l, k < l → l < s → (heap_sort a s).val k ≤ (heap_sort a s).val l) ∧
      a.Rearranges (Set.Iio s) (heap_sort a s) ∧ a.Accesses (Set.Iio s) (heap_sort a s) := by
    rw [heap_sort]
    -- the loop counts down from `s - 1`, which an empty array does not have
    by_cases hs : s = 0
    · rw [show s - 1 = 0 by omega, heap_sort_from]
      exact ⟨fun k l _ hl => by omega, hmoved, hacc⟩
    · obtain ⟨n, rfl⟩ : ∃ n, s = n + 1 := ⟨s - 1, by omega⟩
      have hsorting : Sorting (n + 1) n (bulid_max_heap a (n + 1)) := by
        constructor
        case heap => exact hheap
        case sorted =>
          intro k l hk hkl hl
          omega
        case least =>
          intro k l hk hnl hl
          omega
      obtain ⟨hsorted, hmoved', hacc'⟩ := heap_sort_from_spec hsorting (by omega)
      refine ⟨?_, hmoved.trans hmoved', hacc.trans hacc'⟩
      intro k l hkl hl
      by_cases hk : k = 0
      · rw [hk]
        exact hsorted.least 0 l (le_refl 0) (by omega) hl
      · exact hsorted.sorted k l (by omega) (by omega) hl
  obtain ⟨hsorted, hmoved', hacc'⟩ := hend
  refine ⟨hacc', Cells.front_pairwise hsorted, hmoved'.front_perm, ?_⟩
  intro k hk
  exact hmoved'.others (not_lt.mpr hk)

end

end

end Pump
