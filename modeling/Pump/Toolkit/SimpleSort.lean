import Pump.Toolkit.QuickSort

/-! # bubble_sort and select_sort

    The two sorts of `sort.h` that `quick_sort` does not use. Either takes the
    places of the range one after the other, and brings a least element of what
    is left to each: `bubble_sort` by a swap at every smaller element it meets,
    `select_sort` by one swap after the scan. -/

namespace Pump

section

variable {α : Type*} [LinearOrder α]

/-! ## Section 1: The functions -/

/-- The outer loop of the two, from `i` on. `turn i` is its body. -/
def sort_from (turn : Int → Cells Int α → Cells Int α) (right i : Int) (a : Cells Int α) :
    Cells Int α :=
  if i < right then sort_from turn right (i + 1) (turn i a) else a
termination_by (right - i).toNat

/-- The inner loop of `bubble_sort`, from `j` on. -/
def bubble_sort_pass (right i j : Int) (a : Cells Int α) : Cells Int α :=
  if j < right then
    bubble_sort_pass right i (j + 1)
      (if a.val i > a.val j then ((a.read i).read j).swap i j else (a.read i).read j)
  else a
termination_by (right - j).toNat

/-- `bubble_sort`. -/
def bubble_sort (a : Cells Int α) (left right : Int) : Cells Int α :=
  sort_from (fun i a => bubble_sort_pass right i (i + 1) a) right left a

/-- The inner loop of `select_sort`, from `j` on. The result is `min_pos`. -/
def select_sort_min (right j min_pos : Int) (a : Cells Int α) : Int × Cells Int α :=
  if j < right then
    select_sort_min right (j + 1) (if a.val j < a.val min_pos then j else min_pos)
      ((a.read j).read min_pos)
  else (min_pos, a)
termination_by (right - j).toNat

/-- The body of the outer loop of `select_sort`. -/
def select_sort_turn (right i : Int) (a : Cells Int α) : Cells Int α :=
  let r := select_sort_min right (i + 1) i a
  if i ≠ r.1 then r.2.swap i r.1 else r.2

/-- `select_sort`. -/
def select_sort (a : Cells Int α) (left right : Int) : Cells Int α :=
  sort_from (select_sort_turn right) right left a

/-! ## Section 2: One turn -/

variable {turn : Int → Cells Int α → Cells Int α} {a b c : Cells Int α}
variable {lo left right i j : Int}

/-- From `a` to `b` a least element of `[i, right)` comes to `i`. -/
structure Fetches (right i : Int) (a b : Cells Int α) : Prop where
  inside : a.Accesses (Set.Ico i right) b
  moved : a.Rearranges (Set.Ico i right) b
  least : ∀ k, i ≤ k → k < right → b.val i ≤ b.val k

/-- One comparison of `bubble_sort` extends the part in which nothing is less
    than the element at `i`. -/
theorem bubble_sort_step (hi : i < j) (hleast : ∀ k, i ≤ k → k < j → a.val i ≤ a.val k) :
    let b := if a.val i > a.val j then ((a.read i).read j).swap i j else (a.read i).read j
    ∀ k, i ≤ k → k < j + 1 → b.val i ≤ b.val k := by
  intro b k hk hkj
  by_cases hgt : a.val i > a.val j
  · have hb : b = ((a.read i).read j).swap i j := if_pos hgt
    rw [hb, Cells.swap_val_left]
    rcases eq_or_lt_of_le hk with rfl | hik
    · rw [Cells.swap_val_left]
    rcases eq_or_lt_of_le (show k ≤ j by omega) with rfl | hkj'
    · rw [Cells.swap_val_right]
      exact le_of_lt hgt
    · rw [Cells.swap_val_ne _ (by omega) (by omega)]
      exact le_trans (le_of_lt hgt) (hleast k hk hkj')
  · have hb : b = (a.read i).read j := if_neg hgt
    rw [hb]
    rcases eq_or_lt_of_le (show k ≤ j by omega) with rfl | hkj'
    · exact not_lt.mp hgt
    · exact hleast k hk hkj'

theorem bubble_sort_pass_fetches (hi : i < j) (hj : j ≤ max right (i + 1))
    (hright : i < right) (hleast : ∀ k, i ≤ k → k < j → a.val i ≤ a.val k) :
    Fetches right i a (bubble_sort_pass right i j a) := by
  fun_induction bubble_sort_pass right i j a with
  | case1 j a hlt ih =>
    have hhere : i ∈ Set.Ico i right := ⟨le_refl i, hright⟩
    have hthere : j ∈ Set.Ico i right := ⟨le_of_lt hi, hlt⟩
    have hreads : a.Accesses (Set.Ico i right) ((a.read i).read j) :=
      (Cells.Accesses.read hhere).trans (.read hthere)
    have hrest := ih (by omega) (by omega) (bubble_sort_step hi hleast)
    have hone : a.Accesses (Set.Ico i right)
          (if a.val i > a.val j then ((a.read i).read j).swap i j else (a.read i).read j) ∧
        a.Rearranges (Set.Ico i right)
          (if a.val i > a.val j then ((a.read i).read j).swap i j else (a.read i).read j) := by
      split
      · exact ⟨hreads.trans (.swap hhere hthere),
          (Cells.Rearranges.of_eq _ rfl).trans (.swap hhere hthere)⟩
      · exact ⟨hreads, .of_eq _ rfl⟩
    exact ⟨hone.1.trans hrest.inside, hone.2.trans hrest.moved, hrest.least⟩
  | case2 j a hge =>
    refine ⟨.refl _ a, .of_eq _ rfl, ?_⟩
    intro k hk hkr
    exact hleast k hk (by omega)

/-- The scan of `select_sort` changes nothing, and finds a least element. -/
theorem select_sort_min_spec {min_pos : Int} (hi : i ≤ min_pos) (hpos : min_pos < right)
    (hij : i < j) (hmin : min_pos < j) (hleast : ∀ k, i ≤ k → k < j → a.val min_pos ≤ a.val k) :
    let r := select_sort_min right j min_pos a
    r.1 ∈ Set.Ico i right ∧ r.2.val = a.val ∧ a.Accesses (Set.Ico i right) r.2 ∧
      ∀ k, i ≤ k → k < right → a.val r.1 ≤ a.val k := by
  fun_induction select_sort_min right j min_pos a with
  | case1 j min_pos a hlt ih =>
    have hreads : a.Accesses (Set.Ico i right) ((a.read j).read min_pos) :=
      (Cells.Accesses.read (show j ∈ Set.Ico i right from ⟨le_of_lt hij, hlt⟩)).trans
        (.read ⟨hi, hpos⟩)
    have hnext : ∀ k, i ≤ k → k < j + 1 →
        a.val (if a.val j < a.val min_pos then j else min_pos) ≤ a.val k := by
      intro k hk hkj
      rcases eq_or_lt_of_le (show k ≤ j by omega) with rfl | hkj'
      · split
        · exact le_refl _
        · exact not_lt.mp ‹_›
      · split
        · exact le_trans (le_of_lt ‹_›) (hleast k hk hkj')
        · exact hleast k hk hkj'
    have hrest := ih (by split <;> omega) (by split <;> omega) (by omega)
      (by split <;> omega) hnext
    obtain ⟨hin, hsame, hacc, hend⟩ := hrest
    exact ⟨hin, hsame, hreads.trans hacc, hend⟩
  | case2 j min_pos a hge =>
    refine ⟨⟨hi, hpos⟩, rfl, .refl _ a, ?_⟩
    intro k hk hkr
    exact hleast k hk (by omega)

theorem select_sort_turn_fetches (hi : i < right) :
    Fetches right i a (select_sort_turn right i a) := by
  have hhere : i ∈ Set.Ico i right := ⟨le_refl i, hi⟩
  have hfirst : ∀ k, i ≤ k → k < i + 1 → a.val i ≤ a.val k := by
    intro k hk hki
    rw [show k = i by omega]
  obtain ⟨hin, hsame, hacc, hleast⟩ :=
    select_sort_min_spec (le_refl i) hi (show i < i + 1 by omega) (by omega) hfirst
  simp only [select_sort_turn]
  generalize select_sort_min right (i + 1) i a = r at hin hsame hacc hleast ⊢
  split
  · refine ⟨hacc.trans (.swap hhere hin),
      (Cells.Rearranges.of_eq _ hsame).trans (.swap hhere hin), ?_⟩
    intro k hk hkr
    -- the swap only brings the least element found to `i`
    have hmoved : r.2.Rearranges (Set.Ico i right) (r.2.swap i r.1) := .swap hhere hin
    rw [Cells.swap_val_left, hsame]
    refine hmoved.forall (P := fun x => a.val r.1 ≤ x) ?_ k ⟨hk, hkr⟩
    intro l hl
    rw [hsame]
    exact hleast l hl.1 hl.2
  · have heq : i = r.1 := not_not.mp ‹_›
    refine ⟨hacc, .of_eq _ hsame, ?_⟩
    rw [hsame]
    rw [← heq] at hleast
    exact hleast

/-! ## Section 3: The whole range -/

/-- When every turn fetches a least element, the loop sorts what is left of the
    range. -/
theorem sort_from_spec (h : ∀ i a, i < right → Fetches right i a (turn i a)) (i : Int)
    (a : Cells Int α) :
    let b := sort_from turn right i a
    SortedOn i right b ∧ a.Rearranges (Set.Ico i right) b ∧ a.Accesses (Set.Ico i right) b := by
  fun_induction sort_from turn right i a with
  | case1 i a hlt ih =>
    have hturn := h i a hlt
    obtain ⟨hsorted, hmoved, hacc⟩ := ih
    have hsub : ∀ k ∈ Set.Ico (i + 1) right, k ∈ Set.Ico i right :=
      fun k hk => ⟨by have := hk.1; omega, hk.2⟩
    refine ⟨?_, hturn.moved.trans (hmoved.mono hsub), hturn.inside.trans (hacc.mono hsub)⟩
    intro k l hk hkl hl
    rcases eq_or_lt_of_le hk with rfl | hik
    · -- the element fetched stays, and what comes after it is only put in order
      rw [hmoved.others fun hin => by have := hin.1; omega]
      rcases eq_or_lt_of_le hkl with rfl | hkl'
      · rw [hmoved.others fun hin => by have := hin.1; omega]
      · refine hmoved.forall (P := fun x => (turn i a).val i ≤ x) ?_ l ⟨by omega, hl⟩
        intro m hm
        exact hturn.least m (by have := hm.1; omega) hm.2
    · exact hsorted k l (by omega) hkl hl
  | case2 i a hge =>
    refine ⟨?_, .of_eq _ rfl, .refl _ a⟩
    intro k l hk hkl hl
    omega

theorem SortsInPlace.of_spec (hsorted : SortedOn left right b)
    (hmoved : a.Rearranges (Set.Ico left right) b) (hacc : a.Accesses (Set.Ico left right) b) :
    SortsInPlace left right a b :=
  ⟨hacc, fun _ hk => hmoved.others hk,
    Cells.content_pairwise fun k l hk hkl hl => hsorted k l hk (le_of_lt hkl) hl,
    hmoved.content_perm⟩

theorem bubble_sort_spec (a : Cells Int α) (left right : Int) :
    SortedOn left right (bubble_sort a left right) ∧
      a.Rearranges (Set.Ico left right) (bubble_sort a left right) ∧
      a.Accesses (Set.Ico left right) (bubble_sort a left right) := by
  refine sort_from_spec (fun i a hi => ?_) left a
  refine bubble_sort_pass_fetches (by omega) (by omega) hi ?_
  intro k hk hki
  rw [show k = i by omega]

theorem select_sort_spec (a : Cells Int α) (left right : Int) :
    SortedOn left right (select_sort a left right) ∧
      a.Rearranges (Set.Ico left right) (select_sort a left right) ∧
      a.Accesses (Set.Ico left right) (select_sort a left right) :=
  sort_from_spec (fun _ _ hi => select_sort_turn_fetches hi) left a

/-! ## Section 4: The sorts agree -/

/-- Two rearrangements of one range that are both in order are the same array. -/
theorem SortedOn.eq (hb : SortedOn left right b) (hmoved : a.Rearranges (Set.Ico left right) b)
    (hc : SortedOn left right c) (hmoved' : a.Rearranges (Set.Ico left right) c) :
    b.val = c.val := by
  have hcontent : b.content left right = c.content left right := by
    refine List.Perm.eq_of_sortedLE ?_ ?_ (hmoved.content_perm.trans hmoved'.content_perm.symm)
    · exact (Cells.content_pairwise fun k l hk hkl hl =>
        hb k l hk (le_of_lt hkl) hl).sortedLE
    · exact (Cells.content_pairwise fun k l hk hkl hl =>
        hc k l hk (le_of_lt hkl) hl).sortedLE
  funext k
  by_cases hk : k ∈ Set.Ico left right
  · exact Cells.content_inj hcontent hk.1 hk.2
  · rw [hmoved.others hk, hmoved'.others hk]

/-- `bubble_sort` and `select_sort` sort every range in place, and look at
    nothing outside it. They leave the same array, and so does `quick_sort`
    wherever its insertion sort finds something to stop at: an element in front
    of the range that is not greater than any in it, or a least element at the
    left end. -/
theorem simple_sorts_agree (a : Cells Int α) (left right : Int) :
    SortsInPlace left right a (bubble_sort a left right) ∧
      SortsInPlace left right a (select_sort a left right) ∧
      (select_sort a left right).val = (bubble_sort a left right).val ∧
      ∀ lo, Guarded lo left right a →
        (quick_sort a left right).val = (bubble_sort a left right).val := by
  obtain ⟨hsorted, hmoved, hacc⟩ := bubble_sort_spec a left right
  obtain ⟨hsorted', hmoved', hacc'⟩ := select_sort_spec a left right
  refine ⟨.of_spec hsorted hmoved hacc, .of_spec hsorted' hmoved' hacc',
    hsorted'.eq hmoved' hsorted hmoved, ?_⟩
  intro lo hguard
  obtain ⟨hquick, hquickMoved, -⟩ := quick_sort_spec hguard
  exact hquick.eq hquickMoved hsorted hmoved

end

end Pump
