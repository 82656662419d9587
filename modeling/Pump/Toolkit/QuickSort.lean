import Mathlib.Data.List.TakeWhile
import Pump.Cells

/-! # quick_sort

    `insert_sort`, `__median_pos` and `quick_sort` of `sort.h`. A range is
    `[left, right)`, and every element read or written is logged. Nothing keeps
    an index inside the range but the code itself. -/

namespace Pump

section

variable {α : Type*} [LinearOrder α]

/-! ## Section 1: The functions -/

/-- The inner loop of `insert_sort`. The result is where `tem` goes. -/
def insert_sort_shift (tem : α) (left j : Int) (a : Cells Int α) : Int × Cells Int α :=
  if left ≤ j then
    if tem < a.val (j - 1) then
      insert_sort_shift tem left (j - 1)
        (((a.read (j - 1)).read (j - 1)).write j (a.val (j - 1)))
    else (j, a.read (j - 1))
  else (j, a)
termination_by (j + 1 - left).toNat

/-- The outer loop of `insert_sort`, from `i` on. -/
def insert_sort_from (left right i : Int) (a : Cells Int α) : Cells Int α :=
  if i < right then
    let tem := a.val i
    let r := insert_sort_shift tem left i (a.read i)
    insert_sort_from left right (i + 1) (r.2.write r.1 tem)
  else a
termination_by (right - i).toNat

/-- `insert_sort`. -/
def insert_sort (a : Cells Int α) (left right : Int) : Cells Int α :=
  insert_sort_from left right (left + 1) a

/-- The scan of `__median_pos` from the right. The comparison is made before
    the guard is looked at. -/
def median_pos_down (pivot : α) (i j : Int) (a : Cells Int α) : Int × Cells Int α :=
  if a.val j ≥ pivot ∧ j > i then median_pos_down pivot i (j - 1) (a.read j) else (j, a.read j)
termination_by (j - i).toNat

/-- The scan of `__median_pos` from the left. -/
def median_pos_up (pivot : α) (i j : Int) (a : Cells Int α) : Int × Cells Int α :=
  if a.val i ≤ pivot ∧ i < j then median_pos_up pivot (i + 1) j (a.read i) else (i, a.read i)
termination_by (j - i).toNat

/-- The first half of a turn: the scan from the right, and the swap after it. -/
def median_pos_fall (pivot : α) (i j : Int) (a : Cells Int α) : Int × Int × Cells Int α :=
  let r := median_pos_down pivot i j a
  if r.1 > i then (i + 1, r.1, r.2.swap i r.1) else (i, r.1, r.2)

/-- The second half of a turn: the scan from the left, and the swap after it. -/
def median_pos_rise (pivot : α) (i j : Int) (a : Cells Int α) : Int × Int × Cells Int α :=
  let r := median_pos_up pivot i j a
  if r.1 < j then (r.1, j - 1, r.2.swap r.1 j) else (r.1, j, r.2)

/-- One turn of the outer loop of `__median_pos`. -/
def median_pos_turn (pivot : α) (i j : Int) (a : Cells Int α) : Int × Int × Cells Int α :=
  let r := median_pos_fall pivot i j a
  median_pos_rise pivot r.1 r.2.1 r.2.2

theorem median_pos_down_bounds (pivot : α) {i j : Int} (a : Cells Int α) (hij : i ≤ j) :
    i ≤ (median_pos_down pivot i j a).1 ∧ (median_pos_down pivot i j a).1 ≤ j := by
  fun_induction median_pos_down pivot i j a with
  | case1 j a hcond ih =>
    have := ih (by omega)
    omega
  | case2 j a _ => exact ⟨hij, le_refl j⟩

theorem median_pos_up_bounds (pivot : α) {i j : Int} (a : Cells Int α) (hij : i ≤ j) :
    i ≤ (median_pos_up pivot i j a).1 ∧ (median_pos_up pivot i j a).1 ≤ j := by
  fun_induction median_pos_up pivot i j a with
  | case1 i a hcond ih =>
    have := ih (by omega)
    omega
  | case2 i a _ => exact ⟨le_refl i, hij⟩

/-- A turn keeps the cursors in order, and brings them closer. -/
theorem median_pos_turn_bounds (pivot : α) {i j : Int} (a : Cells Int α) (hij : i < j) :
    let r := median_pos_turn pivot i j a
    i ≤ r.1 ∧ r.1 ≤ r.2.1 ∧ r.2.1 ≤ j ∧ r.2.1 - r.1 < j - i := by
  have hdown := median_pos_down_bounds pivot a (le_of_lt hij)
  have hrise : ∀ (i' j' : Int) (a' : Cells Int α), i' ≤ j' →
      let r := median_pos_rise pivot i' j' a'
      i' ≤ r.1 ∧ r.1 ≤ r.2.1 ∧ r.2.1 ≤ j' := by
    intro i' j' a' h
    have hup := median_pos_up_bounds pivot a' h
    simp only [median_pos_rise]
    split <;> dsimp only <;> omega
  simp only [median_pos_turn, median_pos_fall]
  split
  · rename_i hgt
    have := hrise (i + 1) (median_pos_down pivot i j a).1
      ((median_pos_down pivot i j a).2.swap i (median_pos_down pivot i j a).1) (by omega)
    dsimp only at this ⊢
    omega
  · have := hrise i _ (median_pos_down pivot i j a).2 hdown.1
    dsimp only at this ⊢
    omega

/-- The outer loop of `__median_pos`. -/
def median_pos_loop (pivot : α) (i j : Int) (a : Cells Int α) : Int × Cells Int α :=
  if _h : i < j then
    let r := median_pos_turn pivot i j a
    median_pos_loop pivot r.1 r.2.1 r.2.2
  else (i, a)
termination_by (j - i).toNat
decreasing_by
  have := median_pos_turn_bounds pivot a _h
  dsimp only at this
  omega

/-- `__median_pos`. -/
def median_pos (a : Cells Int α) (left right : Int) : Int × Cells Int α :=
  median_pos_loop (a.val left) left (right - 1) (a.read left)

theorem median_pos_loop_bounds (pivot : α) {i j : Int} (a : Cells Int α) (hij : i ≤ j) :
    i ≤ (median_pos_loop pivot i j a).1 ∧ (median_pos_loop pivot i j a).1 ≤ j := by
  fun_induction median_pos_loop pivot i j a with
  | case1 i j a h r ih =>
    have hturn := median_pos_turn_bounds pivot a h
    have := ih hturn.2.1
    dsimp only [r] at hturn this ⊢
    omega
  | case2 i j a h => exact ⟨le_refl i, hij⟩

theorem median_pos_bounds (a : Cells Int α) {left right : Int} (h : left < right) :
    left ≤ (median_pos a left right).1 ∧ (median_pos a left right).1 < right := by
  have := median_pos_loop_bounds (a.val left) (a.read left) (show left ≤ right - 1 by omega)
  rw [median_pos]
  omega

/-- `quick_sort`, with `min_size` 10. -/
def quick_sort (a : Cells Int α) (left right : Int) : Cells Int α :=
  if _h : right - left > 10 then
    let r := median_pos a left right
    let b := quick_sort r.2 left r.1
    quick_sort b (r.1 + 1) right
  else insert_sort a left right
termination_by (right - left).toNat
decreasing_by
  all_goals
    have := median_pos_bounds a (show left < right by omega)
    omega

/-! ## Section 2: What a turn of the partition does -/

theorem median_pos_down_spec (pivot : α) {i j : Int} (a : Cells Int α) (hij : i ≤ j) :
    let r := median_pos_down pivot i j a
    r.2.val = a.val ∧ a.Accesses (Set.Icc i j) r.2 ∧ (i < r.1 → a.val r.1 < pivot) ∧
      ∀ k, r.1 < k → k ≤ j → pivot ≤ a.val k := by
  fun_induction median_pos_down pivot i j a with
  | case1 j a hcond ih =>
    obtain ⟨hval, hacc, hless, habove⟩ := ih (by omega)
    have hread : a.Accesses (Set.Icc i j) (a.read j) := Cells.Accesses.read ⟨hij, le_refl j⟩
    refine ⟨hval, hread.trans (hacc.mono ?_), hless, ?_⟩
    · intro k hk
      exact ⟨hk.1, by have := hk.2; omega⟩
    · intro k hlo hhi
      rcases eq_or_lt_of_le hhi with heq | hlt
      · exact heq ▸ hcond.1
      · exact habove k hlo (by omega)
  | case2 j a hcond =>
    refine ⟨rfl, Cells.Accesses.read ⟨hij, le_refl j⟩, ?_, ?_⟩
    · intro hgt
      by_contra hge
      exact hcond ⟨not_lt.mp hge, hgt⟩
    · intro k hlo hhi
      omega

theorem median_pos_up_spec (pivot : α) {i j : Int} (a : Cells Int α) (hij : i ≤ j) :
    let r := median_pos_up pivot i j a
    r.2.val = a.val ∧ a.Accesses (Set.Icc i j) r.2 ∧ (r.1 < j → pivot < a.val r.1) ∧
      ∀ k, i ≤ k → k < r.1 → a.val k ≤ pivot := by
  fun_induction median_pos_up pivot i j a with
  | case1 i a hcond ih =>
    obtain ⟨hval, hacc, hgreater, hbelow⟩ := ih (by omega)
    have hread : a.Accesses (Set.Icc i j) (a.read i) := Cells.Accesses.read ⟨le_refl i, hij⟩
    refine ⟨hval, hread.trans (hacc.mono ?_), hgreater, ?_⟩
    · intro k hk
      exact ⟨by have := hk.1; omega, hk.2⟩
    · intro k hlo hhi
      rcases eq_or_lt_of_le hlo with heq | hlt
      · exact heq ▸ hcond.1
      · exact hbelow k (by omega) hhi
  | case2 i a hcond =>
    refine ⟨rfl, Cells.Accesses.read ⟨le_refl i, hij⟩, ?_, ?_⟩
    · intro hlt
      by_contra hle
      exact hcond ⟨not_lt.mp hle, hlt⟩
    · intro k hlo hhi
      omega

/-- What a turn on `[i, j]` can do when the pivot is at `i`. -/
inductive Turn (pivot : α) (i j : Int) (a : Cells Int α) : Int × Int × Cells Int α → Prop
  /-- The scan from the right meets the pivot, and nothing moves. -/
  | stays (b : Cells Int α) (inside : a.Accesses (Set.Icc i j) b) (same : b.val = a.val)
      (above : ∀ k, i < k → k ≤ j → pivot ≤ a.val k) : Turn pivot i j a (i, i, b)
  /-- It finds a smaller element at `m`, and the scan from the left then meets
      the pivot there. -/
  | falls (m : Int) (b : Cells Int α) (inside : a.Accesses (Set.Icc i j) b)
      (him : i < m) (hmj : m ≤ j) (less : a.val m < pivot)
      (above : ∀ k, m < k → k ≤ j → pivot ≤ a.val k)
      (below : ∀ k, i < k → k < m → a.val k ≤ pivot)
      (swapped : b.val = (a.swap i m).val) : Turn pivot i j a (m, m, b)
  /-- Then a larger one is found at `n`, and the pivot ends there. -/
  | crosses (n m : Int) (b : Cells Int α) (inside : a.Accesses (Set.Icc i j) b)
      (hin : i < n) (hnm : n < m) (hmj : m ≤ j) (less : a.val m < pivot)
      (above : ∀ k, m < k → k ≤ j → pivot ≤ a.val k) (greater : pivot < a.val n)
      (below : ∀ k, i < k → k < n → a.val k ≤ pivot)
      (swapped : b.val = ((a.swap i m).swap n m).val) : Turn pivot i j a (n, m - 1, b)

theorem median_pos_turn_spec {pivot : α} {i j : Int} {a : Cells Int α} (hij : i < j)
    (hpivot : a.val i = pivot) : Turn pivot i j a (median_pos_turn pivot i j a) := by
  obtain ⟨hval, hacc, hless, habove⟩ := median_pos_down_spec pivot a (le_of_lt hij)
  have hbounds := median_pos_down_bounds pivot a (le_of_lt hij)
  simp only [median_pos_turn, median_pos_fall]
  generalize median_pos_down pivot i j a = down at *
  obtain ⟨m, b⟩ := down
  dsimp only at hval hacc hless habove hbounds ⊢
  by_cases hm : m > i
  · rw [if_pos hm]
    dsimp only
    have hb : (b.swap i m).val = (a.swap i m).val := by
      funext k
      simp only [Cells.swap, hval]
    have hswap : a.Accesses (Set.Icc i j) (b.swap i m) :=
      hacc.trans (Cells.Accesses.swap ⟨le_refl i, by omega⟩ ⟨by omega, hbounds.2⟩)
    obtain ⟨hval', hacc', hgreater, hbelow⟩ :=
      median_pos_up_spec pivot (b.swap i m) (show i + 1 ≤ m by omega)
    have hbounds' := median_pos_up_bounds pivot (b.swap i m) (show i + 1 ≤ m by omega)
    simp only [median_pos_rise]
    generalize median_pos_up pivot (i + 1) m (b.swap i m) = up at *
    obtain ⟨n, c⟩ := up
    dsimp only at hval' hacc' hgreater hbelow hbounds' ⊢
    have hc : a.Accesses (Set.Icc i j) c := by
      refine hswap.trans (hacc'.mono ?_)
      intro k hk
      exact ⟨by have := hk.1; omega, by have := hk.2; omega⟩
    -- between the cursors the swap has changed nothing
    have hmid : ∀ k, i < k → k < m → (b.swap i m).val k = a.val k := by
      intro k hlo hhi
      rw [hb, Cells.swap_val_ne a (by omega) (by omega)]
    by_cases hn : n < m
    · rw [if_pos hn]
      refine .crosses n m _ ?_ (by omega) hn hbounds.2 (hless hm) habove ?_ ?_ ?_
      · exact hc.trans (Cells.Accesses.swap ⟨by omega, by omega⟩ ⟨by omega, hbounds.2⟩)
      · rw [← hmid n (by omega) hn]
        exact hgreater hn
      · intro k hlo hhi
        rw [← hmid k hlo (by omega)]
        exact hbelow k (by omega) hhi
      · funext k
        simp only [Cells.swap, hval', hval]
    · rw [if_neg hn]
      obtain rfl : n = m := by omega
      refine .falls n c hc (by omega) hbounds.2 (hless hm) habove ?_ (by rw [hval', hb])
      intro k hlo hhi
      rw [← hmid k hlo hhi]
      exact hbelow k (by omega) hhi
  · rw [if_neg hm]
    obtain rfl : m = i := by omega
    dsimp only
    -- the second scan stops at once, for the cursors have met
    have hrise : median_pos_rise pivot m m b = (m, m, b.read m) := by
      have hup : median_pos_up pivot m m b = (m, b.read m) := by
        rw [median_pos_up, if_neg fun hcond => lt_irrefl m hcond.2]
      simp only [median_pos_rise, hup, lt_irrefl, if_false]
    rw [hrise]
    refine .stays _ (hacc.trans (Cells.Accesses.read ⟨le_refl m, by omega⟩)) hval ?_
    intro k hlo hhi
    exact habove k hlo hhi

/-! ## Section 3: What comes before the pivot -/

/-- The elements that the partition by `pivot` moves before it, when `l` is
    what follows the pivot. The last one less than the pivot comes first, and
    an element greater than the pivot leaves its place. -/
def smaller (pivot : α) (l : List α) : List α :=
  match _h : l.reverse.dropWhile (pivot ≤ ·) with
  | [] => []
  | x :: rest =>
    x :: (rest.reverse.takeWhile (· ≤ pivot) ++
      smaller pivot (rest.reverse.dropWhile (· ≤ pivot)).tail)
termination_by l.length
decreasing_by
  have hlen := (List.dropWhile_sublist (fun y => decide (pivot ≤ y)) (l := l.reverse)).length_le
  have htail := (List.dropWhile_sublist (fun y => decide (y ≤ pivot))
    (l := rest.reverse)).length_le
  rw [_h] at hlen
  simp only [List.length_reverse, List.length_cons, List.length_tail] at hlen htail ⊢
  omega

theorem smaller_nil {pivot : α} {l : List α} (h : ∀ x ∈ l, pivot ≤ x) :
    smaller pivot l = [] := by
  have hdrop : l.reverse.dropWhile (pivot ≤ ·) = [] := by
    rw [List.dropWhile_eq_nil_iff]
    intro x hx
    simpa using h x (List.mem_reverse.mp hx)
  rw [smaller]
  split
  · rfl
  · rename_i hcons
    rw [hdrop] at hcons
    cases hcons

theorem smaller_append {pivot x : α} {l post : List α} (hx : x < pivot)
    (hpost : ∀ y ∈ post, pivot ≤ y) :
    smaller pivot (l ++ x :: post) = x :: (l.takeWhile (· ≤ pivot) ++
      smaller pivot (l.dropWhile (· ≤ pivot)).tail) := by
  have hdrop : (l ++ x :: post).reverse.dropWhile (pivot ≤ ·) = x :: l.reverse := by
    rw [List.reverse_append, List.reverse_cons, List.append_assoc, List.singleton_append,
      List.dropWhile_append_of_pos]
    · rw [List.dropWhile_cons_of_neg (by simpa using hx)]
    · intro y hy
      simpa using hpost y (List.mem_reverse.mp hy)
  rw [smaller]
  split
  · rename_i hnil
    rw [hdrop] at hnil
    cases hnil
  · rename_i y rest hcons
    rw [hdrop] at hcons
    cases hcons
    rw [List.reverse_reverse]

/-! ## Section 4: The partition -/

/-- Between two turns: the pivot is at `i`, what lies before it is not greater,
    what lies after `j` is not less, and `before` names the elements that come
    to lie before it in the end. -/
structure Split (a₀ : Cells Int α) (left right : Int) (pivot : α) (i j : Int)
    (a : Cells Int α) : Prop where
  lo : left ≤ i
  hi : j < right
  order : i ≤ j
  here : a.val i = pivot
  below : ∀ k, left ≤ k → k < i → a.val k ≤ pivot
  above : ∀ k, j < k → k < right → pivot ≤ a.val k
  inside : a₀.Accesses (Set.Ico left right) a
  moved : a₀.Rearranges (Set.Ico left right) a
  before : a.content left i ++ smaller pivot (a.content (i + 1) (j + 1)) =
    smaller pivot (a₀.content (left + 1) right)

section

variable {a₀ a b : Cells Int α} {left right i j m n : Int} {pivot : α}

omit [LinearOrder α] in
/-- The elements before the pivot once `a[m]` has come to `i`. -/
theorem content_fall (hlo : left ≤ i) (hin : i < n) (hi : b.val i = a.val m)
    (hbefore : ∀ k, k < i → b.val k = a.val k) (hmid : ∀ k, i < k → k < n → b.val k = a.val k) :
    b.content left n = a.content left i ++ a.val m :: a.content (i + 1) n := by
  rw [Cells.content_append i hlo (by omega), Cells.content_cons (show i < n by omega),
    hi, Cells.content_congr fun k _ hk => hbefore k hk,
    Cells.content_congr fun k hk hkn => hmid k (by omega) hkn]

/-- The elements after the pivot at the beginning of a turn that moves `a[m]`. -/
theorem smaller_content (him : i < m) (hmj : m ≤ j) (hless : a.val m < pivot)
    (habove : ∀ k, m < k → k ≤ j → pivot ≤ a.val k) :
    smaller pivot (a.content (i + 1) (j + 1)) =
      a.val m :: ((a.content (i + 1) m).takeWhile (· ≤ pivot) ++
        smaller pivot ((a.content (i + 1) m).dropWhile (· ≤ pivot)).tail) := by
  rw [Cells.content_append m (by omega) (by omega),
    Cells.content_cons (show m < j + 1 by omega)]
  apply smaller_append hless
  intro y hy
  obtain ⟨k, hlo, hhi, rfl⟩ := Cells.mem_content.mp hy
  exact habove k (by omega) (by omega)

theorem takeWhile_content (h : ∀ k, i < k → k < n → a.val k ≤ pivot) :
    ∀ x ∈ a.content (i + 1) n, decide (x ≤ pivot) = true := by
  intro x hx
  obtain ⟨k, hlo, hhi, rfl⟩ := Cells.mem_content.mp hx
  exact decide_eq_true (h k (by omega) hhi)

/-- A turn stays in the range. -/
theorem Split.inside_turn (h : Split a₀ left right pivot i j a)
    (hinside : a.Accesses (Set.Icc i j) b) : a₀.Accesses (Set.Ico left right) b := by
  have hlo := h.lo
  have hhi := h.hi
  refine h.inside.trans (hinside.mono ?_)
  intro k hk
  exact ⟨by have := hk.1; omega, by have := hk.2; omega⟩

/-- What a scan from the right has left behind it is not less, up to the end. -/
theorem Split.above_scan (h : Split a₀ left right pivot i j a)
    (habove : ∀ k, m < k → k ≤ j → pivot ≤ a.val k) {k : Int} (hk : m < k) (hkr : k < right) :
    pivot ≤ a.val k := by
  by_cases hkj : k ≤ j
  · exact habove k hk hkj
  · exact h.above k (by omega) hkr

/-- What lies before the pivot once it has come to `n`: what was there, `a[m]`
    and what a scan from the left has passed. -/
theorem Split.below_fall (h : Split a₀ left right pivot i j a) (hi : b.val i = a.val m)
    (hless : a.val m < pivot) (hother : ∀ k, k < n → k ≠ i → b.val k = a.val k)
    (hbelow : ∀ k, i < k → k < n → a.val k ≤ pivot) {k : Int} (hk : left ≤ k) (hkn : k < n) :
    b.val k ≤ pivot := by
  rcases lt_trichotomy k i with hlt | rfl | hgt
  · rw [hother k hkn (by omega)]
    exact h.below k hk hlt
  · rw [hi]
    exact le_of_lt hless
  · rw [hother k hkn (by omega)]
    exact hbelow k hgt hkn

/-- The turn that ends with the pivot at `j`. -/
theorem Split.stays (h : Split a₀ left right pivot i j a) (hinside : a.Accesses (Set.Icc i j) b)
    (hsame : b.val = a.val) (habove : ∀ k, i < k → k ≤ j → pivot ≤ a.val k) :
    Split a₀ left right pivot i i b := by
  have hlo := h.lo
  have hhi := h.hi
  have horder := h.order
  -- the scan has found nothing smaller up to the pivot
  have hnil : smaller pivot (a.content (i + 1) (j + 1)) = [] := by
    apply smaller_nil
    intro x hx
    obtain ⟨k, hk, hkj, rfl⟩ := Cells.mem_content.mp hx
    exact habove k (by omega) (by omega)
  constructor
  case lo => exact hlo
  case hi => omega
  case order => exact le_refl i
  case here => rw [hsame, h.here]
  case below =>
    intro k hk hki
    rw [hsame]
    exact h.below k hk hki
  case above =>
    intro k hk hkr
    rw [hsame]
    exact h.above_scan habove hk hkr
  case inside => exact h.inside_turn hinside
  case moved => exact h.moved.trans (Cells.Rearranges.of_eq _ hsame)
  case before =>
    have hbefore := h.before
    rw [hnil] at hbefore
    rw [Cells.content_nil (le_refl (i + 1)), smaller_nil (by simp),
      Cells.content_congr (a := a) fun k _ _ => congrFun hsame k]
    exact hbefore

theorem Split.falls (h : Split a₀ left right pivot i j a) (hinside : a.Accesses (Set.Icc i j) b)
    (him : i < m) (hmj : m ≤ j) (hless : a.val m < pivot)
    (habove : ∀ k, m < k → k ≤ j → pivot ≤ a.val k)
    (hbelow : ∀ k, i < k → k < m → a.val k ≤ pivot) (hswap : b.val = (a.swap i m).val) :
    Split a₀ left right pivot m m b := by
  have hlo := h.lo
  have hhi := h.hi
  have hother : ∀ k, k ≠ i → k ≠ m → b.val k = a.val k := by
    intro k hki hkm
    rw [hswap, Cells.swap_val_ne a hki hkm]
  have hi : b.val i = a.val m := by rw [hswap, Cells.swap_val_left]
  have hm : b.val m = a.val i := by rw [hswap, Cells.swap_val_right]
  constructor
  case lo => omega
  case hi => omega
  case order => exact le_refl m
  case here => rw [hm, h.here]
  case below =>
    intro k hk hkm
    exact h.below_fall hi hless (fun k hkm hki => hother k hki (by omega)) hbelow hk hkm
  case above =>
    intro k hk hkr
    rw [hother k (by omega) (by omega)]
    exact h.above_scan habove hk hkr
  case inside => exact h.inside_turn hinside
  case moved =>
    have hmoved : a.Rearranges (Set.Ico left right) (a.swap i m) :=
      .swap ⟨hlo, by omega⟩ ⟨by omega, by omega⟩
    exact h.moved.trans (hmoved.trans (.of_eq _ hswap))
  case before =>
    -- the scan from the left has taken all that lies between `i` and `m`
    have hall := takeWhile_content hbelow
    have htake : (a.content (i + 1) m).takeWhile (· ≤ pivot) = a.content (i + 1) m :=
      List.takeWhile_eq_self_iff.mpr hall
    have hdrop : (a.content (i + 1) m).dropWhile (· ≤ pivot) = [] :=
      List.dropWhile_eq_nil_iff.mpr hall
    rw [← h.before, smaller_content him hmj hless habove, htake, hdrop,
      content_fall hlo him hi (fun k hk => hother k (by omega) (by omega))
        (fun k hk hkm => hother k (by omega) (by omega)),
      Cells.content_nil (le_refl (m + 1)), List.tail_nil, smaller_nil (by simp)]
    simp

theorem Split.crosses (h : Split a₀ left right pivot i j a) (hinside : a.Accesses (Set.Icc i j) b)
    (hin : i < n) (hnm : n < m) (hmj : m ≤ j) (hless : a.val m < pivot)
    (habove : ∀ k, m < k → k ≤ j → pivot ≤ a.val k) (hgreater : pivot < a.val n)
    (hbelow : ∀ k, i < k → k < n → a.val k ≤ pivot)
    (hswap : b.val = ((a.swap i m).swap n m).val) :
    Split a₀ left right pivot n (m - 1) b := by
  have hlo := h.lo
  have hhi := h.hi
  have hother : ∀ k, k ≠ i → k ≠ m → k ≠ n → b.val k = a.val k := by
    intro k hki hkm hkn
    rw [hswap, Cells.swap_val_ne _ hkn hkm, Cells.swap_val_ne a hki hkm]
  have hi : b.val i = a.val m := by
    rw [hswap, Cells.swap_val_ne _ (by omega) (by omega), Cells.swap_val_left]
  have hn : b.val n = a.val i := by rw [hswap, Cells.swap_val_left, Cells.swap_val_right]
  have hm : b.val m = a.val n := by
    rw [hswap, Cells.swap_val_right, Cells.swap_val_ne a (by omega) (by omega)]
  constructor
  case lo => omega
  case hi => omega
  case order => omega
  case here => rw [hn, h.here]
  case below =>
    intro k hk hkn
    exact h.below_fall hi hless (fun k hkn hki => hother k hki (by omega) (by omega)) hbelow hk hkn
  case above =>
    intro k hk hkr
    -- `a[n]` has come to `m`
    by_cases hkm : k = m
    · rw [hkm, hm]
      exact le_of_lt hgreater
    rw [hother k (by omega) hkm (by omega)]
    exact h.above_scan habove (by omega) hkr
  case inside => exact h.inside_turn hinside
  case moved =>
    have hfirst : a.Rearranges (Set.Ico left right) (a.swap i m) :=
      .swap ⟨hlo, by omega⟩ ⟨by omega, by omega⟩
    have hsecond : (a.swap i m).Rearranges (Set.Ico left right) ((a.swap i m).swap n m) :=
      .swap ⟨by omega, by omega⟩ ⟨by omega, by omega⟩
    exact h.moved.trans (hfirst.trans (hsecond.trans (.of_eq _ hswap)))
  case before =>
    have hall := takeWhile_content hbelow
    have hsplit : a.content (i + 1) m =
        a.content (i + 1) n ++ a.val n :: a.content (n + 1) m := by
      rw [Cells.content_append n (by omega) (by omega),
        Cells.content_cons (show n < m by omega)]
    -- the scan from the left stops at `n`
    have htake : (a.content (i + 1) m).takeWhile (· ≤ pivot) = a.content (i + 1) n := by
      rw [hsplit, List.takeWhile_append_of_pos hall]
      simp [hgreater.not_ge]
    have hdrop : (a.content (i + 1) m).dropWhile (· ≤ pivot) =
        a.val n :: a.content (n + 1) m := by
      rw [hsplit, List.dropWhile_append_of_pos hall]
      simp [hgreater.not_ge]
    rw [← h.before, smaller_content (by omega) hmj hless habove, htake, hdrop,
      content_fall hlo hin hi (fun k hk => hother k (by omega) (by omega) (by omega))
        (fun k hk hkn => hother k (by omega) (by omega) (by omega)),
      show m - 1 + 1 = m by omega,
      Cells.content_congr (a := a) fun k (hk : n + 1 ≤ k) hkm =>
        hother k (by omega) (by omega) (by omega)]
    simp

theorem Split.turn (h : Split a₀ left right pivot i j a) (hij : i < j) :
    let r := median_pos_turn pivot i j a
    Split a₀ left right pivot r.1 r.2.1 r.2.2 := by
  have hturn := median_pos_turn_spec hij h.here
  generalize median_pos_turn pivot i j a = r at hturn
  cases hturn with
  | stays b inside same above => exact h.stays inside same above
  | falls m b inside him hmj less above below swapped =>
    exact h.falls inside him hmj less above below swapped
  | crosses n m b inside hin hnm hmj less above greater below swapped =>
    exact h.crosses inside hin hnm hmj less above greater below swapped

/-- Over all turns, until the cursors meet. -/
theorem Split.loop (h : Split a₀ left right pivot i j a) :
    let r := median_pos_loop pivot i j a
    Split a₀ left right pivot r.1 r.1 r.2 := by
  fun_induction median_pos_loop pivot i j a with
  | case1 i j a hij r ih => exact ih (h.turn hij)
  | case2 i j a hij =>
    obtain rfl : i = j := le_antisymm h.order (by omega)
    exact h

theorem median_pos_split (a : Cells Int α) (h : left < right) :
    let r := median_pos a left right
    Split a left right (a.val left) r.1 r.1 r.2 := by
  apply Split.loop
  constructor
  case lo => exact le_refl left
  case hi => omega
  case order => omega
  case here => rfl
  case below =>
    intro k hk hkl
    omega
  case above =>
    intro k hk hkr
    omega
  case inside => exact .read ⟨le_refl left, h⟩
  case moved => exact .of_eq _ rfl
  case before =>
    rw [Cells.content_nil (le_refl left), List.nil_append, show right - 1 + 1 = right by omega]
    rfl

/-- `__median_pos` partitions the range, whatever is in it. -/
theorem median_pos_partitions (a : Cells Int α) (left right : Int) (h : left < right) :
    let (p, b) := median_pos a left right
    (left ≤ p ∧ p < right) ∧ a.Accesses (Set.Ico left right) b ∧
      (∀ k, left ≤ k → k < p → b.val k ≤ b.val p) ∧
      (∀ k, p + 1 ≤ k → k < right → b.val p ≤ b.val k) ∧
      (b.content left right).Perm (a.content left right) ∧
      ∀ k, k ∉ Set.Ico left right → b.val k = a.val k := by
  have hsplit := median_pos_split a h
  dsimp only at hsplit ⊢
  refine ⟨⟨hsplit.lo, hsplit.hi⟩, hsplit.inside, ?_, ?_, hsplit.moved.content_perm, ?_⟩
  · rw [hsplit.here]
    exact hsplit.below
  · rw [hsplit.here]
    exact fun k hk hkr => hsplit.above k (by omega) hkr
  · intro k hk
    exact hsplit.moved.others hk

theorem median_pos_partitions_pair :
    let (p, b) := median_pos (⟨fun k => if k = 0 then 1 else 0, []⟩ : Cells Int Nat) 0 2
    (0 ≤ p ∧ p < 2) ∧
      (⟨fun k => if k = 0 then 1 else 0, []⟩ : Cells Int Nat).Accesses (Set.Ico 0 2) b ∧
      (∀ k, 0 ≤ k → k < p → b.val k ≤ b.val p) ∧
      (∀ k, p + 1 ≤ k → k < 2 → b.val p ≤ b.val k) ∧
      (b.content 0 2).Perm
        ((⟨fun k => if k = 0 then 1 else 0, []⟩ : Cells Int Nat).content 0 2) ∧
      ∀ k, k ∉ Set.Ico (0 : Int) 2 → b.val k = if k = 0 then 1 else 0 :=
  median_pos_partitions _ 0 2 (by decide)

end

/-! ## Section 5: insert_sort behind a sentinel -/

section

variable {a b : Cells Int α} {lo left right i j : Int} {tem : α}

/-- No element of `[lo, hi)` is less than an earlier one. -/
def SortedOn (lo hi : Int) (a : Cells Int α) : Prop :=
  ∀ k l, lo ≤ k → k ≤ l → l < hi → a.val k ≤ a.val l

/-- What `insert_sort_shift` keeps: `[lo, i]` without the hole at `j` is in
    order, what comes after the hole is not less than `tem`, and the array with
    `tem` in the hole is a rearrangement of what it was. -/
structure Hole (a₀ : Cells Int α) (tem : α) (lo i j : Int) (a : Cells Int α) : Prop where
  order : j ≤ i
  sorted : ∀ k l, lo ≤ k → k ≤ l → l ≤ i → k ≠ j → l ≠ j → a.val k ≤ a.val l
  after : ∀ l, j < l → l ≤ i → tem ≤ a.val l
  moved : a₀.Rearranges (Set.Ioc lo i) (a.write j tem)

omit [LinearOrder α] in
/-- A move of one element, with `tem` in the hole before and after, is a swap. -/
theorem write_shift (a : Cells Int α) (tem : α) (j : Int) :
    ((a.write j (a.val (j - 1))).write (j - 1) tem).val = ((a.write j tem).swap (j - 1) j).val := by
  funext k
  by_cases hk : k = j - 1
  · rw [hk, Cells.write_val_self, Cells.swap_val_left, Cells.write_val_self]
  rw [Cells.write_val_ne _ _ hk]
  by_cases hkj : k = j
  · rw [hkj, Cells.write_val_self, Cells.swap_val_right, Cells.write_val_ne _ _ (by omega)]
  · rw [Cells.write_val_ne _ _ hkj, Cells.swap_val_ne _ hk hkj, Cells.write_val_ne _ _ hkj]

/-- One element moves into the hole. -/
theorem Hole.shift {a₀ : Cells Int α} (h : Hole a₀ tem lo i j a) (hj : lo < j - 1)
    (hless : tem < a.val (j - 1)) :
    Hole a₀ tem lo i (j - 1) (((a.read (j - 1)).read (j - 1)).write j (a.val (j - 1))) := by
  have horder := h.order
  have hother : ∀ k, k ≠ j →
      (((a.read (j - 1)).read (j - 1)).write j (a.val (j - 1))).val k = a.val k :=
    fun k hk => Cells.write_val_ne _ _ hk
  constructor
  case order => omega
  case sorted =>
    -- what was at `j - 1` is at `j` now, and the hole at `j - 1`
    intro k l hk hkl hl hkj hlj
    by_cases hkeq : k = j
    · subst hkeq
      rw [Cells.write_val_self]
      by_cases hleq : l = k
      · rw [hleq, Cells.write_val_self]
      · rw [hother l hleq]
        exact h.sorted (k - 1) l (by omega) (by omega) hl (by omega) hleq
    rw [hother k hkeq]
    by_cases hleq : l = j
    · rw [hleq, Cells.write_val_self]
      exact h.sorted k (j - 1) hk (by omega) (by omega) hkeq (by omega)
    · rw [hother l hleq]
      exact h.sorted k l hk hkl hl hkeq hleq
  case after =>
    intro l hl hli
    by_cases hleq : l = j
    · rw [hleq, Cells.write_val_self]
      exact le_of_lt hless
    · rw [hother l hleq]
      exact h.after l (by omega) hli
  case moved =>
    -- with `tem` in the hole the turn swaps the hole and its neighbour
    have hswap : (a.write j tem).Rearranges (Set.Ioc lo i) ((a.write j tem).swap (j - 1) j) :=
      .swap ⟨by omega, by omega⟩ ⟨by omega, horder⟩
    refine h.moved.trans (hswap.trans (.of_eq _ ?_))
    rw [← write_shift]
    rfl

/-- Behind an element that is not greater than `tem` the loop stops. -/
theorem insert_sort_shift_spec {a₀ : Cells Int α} (h : Hole a₀ tem lo i j a)
    (hleft : left ≤ lo + 1) (hj : lo < j) (hlo : a.val lo ≤ tem) :
    let r := insert_sort_shift tem left j a
    Hole a₀ tem lo i r.1 r.2 ∧ lo < r.1 ∧ r.2.val (r.1 - 1) ≤ tem ∧
      a.Accesses (Set.Icc lo i) r.2 := by
  have horder := h.order
  fun_induction insert_sort_shift tem left j a with
  | case1 j a hguard hless ih =>
    -- the element at `lo` stops the loop before it is reached
    have hgap : lo < j - 1 := by
      by_contra hnot
      rw [show j - 1 = lo by omega] at hless
      exact absurd hlo (not_le.mpr hless)
    have hshift := h.shift hgap hless
    have hkeep : (((a.read (j - 1)).read (j - 1)).write j (a.val (j - 1))).val lo ≤ tem := by
      rw [Cells.write_val_ne _ _ (by omega)]
      exact hlo
    obtain ⟨hhole, hpos, hstop, hacc⟩ := ih hshift hgap hkeep hshift.order
    have hread : j - 1 ∈ Set.Icc lo i := ⟨by omega, by omega⟩
    have hstep : a.Accesses (Set.Icc lo i)
        (((a.read (j - 1)).read (j - 1)).write j (a.val (j - 1))) :=
      (Cells.Accesses.read hread).trans
        ((Cells.Accesses.read hread).trans (.write ⟨by omega, horder⟩))
    exact ⟨hhole, hpos, hstop, hstep.trans hacc⟩
  | case2 j a hguard hless =>
    refine ⟨⟨h.order, h.sorted, h.after, h.moved⟩, hj, not_lt.mp hless, .read ⟨?_, ?_⟩⟩
    · omega
    · omega
  | case3 j a hguard => omega

/-- One turn of the outer loop. -/
theorem insert_sort_step (hleft : left ≤ lo + 1) (hi : lo < i) (hsorted : SortedOn lo i a)
    (hlo : a.val lo ≤ a.val i) :
    let r := insert_sort_shift (a.val i) left i (a.read i)
    SortedOn lo (i + 1) (r.2.write r.1 (a.val i)) ∧
      a.Rearranges (Set.Ioc lo i) (r.2.write r.1 (a.val i)) ∧
      a.Accesses (Set.Icc lo i) (r.2.write r.1 (a.val i)) := by
  have hhole : Hole a (a.val i) lo i i (a.read i) := by
    constructor
    case order => exact le_refl i
    case sorted =>
      intro k l hk hkl hl hki hli
      exact hsorted k l hk hkl (by omega)
    case after =>
      intro l hl hli
      omega
    case moved =>
      refine .of_eq _ ?_
      simp [Cells.write]
  obtain ⟨hend, hpos, hstop, hacc⟩ := insert_sort_shift_spec hhole hleft hi hlo
  dsimp only
  generalize insert_sort_shift (a.val i) left i (a.read i) = r at *
  obtain ⟨j, b⟩ := r
  dsimp only at hend hpos hstop hacc ⊢
  have horder := hend.order
  refine ⟨?_, hend.moved, ?_⟩
  · -- `tem` is not less than what comes before, nor greater than what comes after
    intro k l hk hkl hl
    by_cases hkj : k = j
    · by_cases hlj : l = j
      · rw [hkj, hlj]
      · rw [hkj, Cells.write_val_self, Cells.write_val_ne _ _ hlj]
        exact hend.after l (by omega) (by omega)
    rw [Cells.write_val_ne _ _ hkj]
    by_cases hlj : l = j
    · rw [hlj, Cells.write_val_self]
      exact le_trans (hend.sorted k (j - 1) hk (by omega) (by omega) hkj (by omega)) hstop
    · rw [Cells.write_val_ne _ _ hlj]
      exact hend.sorted k l hk hkl (by omega) hkj hlj
  · have hread : a.Accesses (Set.Icc lo i) (a.read i) := .read ⟨by omega, le_refl i⟩
    exact hread.trans (hacc.trans (.write ⟨by omega, horder⟩))

/-- The outer loop, behind a sentinel at `lo`. -/
theorem insert_sort_from_spec (hleft : left ≤ lo + 1) (hi : lo < i) (hsorted : SortedOn lo i a)
    (hlo : ∀ k, i ≤ k → k < right → a.val lo ≤ a.val k) :
    let b := insert_sort_from left right i a
    (i ≤ right → SortedOn lo right b) ∧ a.Rearranges (Set.Ioo lo right) b ∧
      a.Accesses (Set.Ico lo right) b := by
  fun_induction insert_sort_from left right i a with
  | case1 i a hlt tem r ih =>
    obtain ⟨hstep, hmoved, hacc⟩ := insert_sort_step hleft hi hsorted (hlo i (le_refl i) hlt)
    -- neither `lo` nor what comes after `i` is touched by the turn
    have hrest : ∀ k, i + 1 ≤ k → k < right →
        (r.2.write r.1 tem).val lo ≤ (r.2.write r.1 tem).val k := by
      intro k hk hkr
      rw [hmoved.others (k := lo) (fun hin => lt_irrefl lo hin.1),
        hmoved.others (k := k) (fun hin => by have := hin.2; omega)]
      exact hlo k (by omega) hkr
    obtain ⟨hend, hmoved', hacc'⟩ := ih (by omega) hstep hrest
    refine ⟨fun _ => hend (by omega), ?_, ?_⟩
    · refine (hmoved.mono ?_).trans hmoved'
      intro k hk
      exact ⟨hk.1, by have := hk.2; omega⟩
    · refine (hacc.mono ?_).trans hacc'
      intro k hk
      exact ⟨hk.1, by have := hk.2; omega⟩
  | case2 i a hge =>
    refine ⟨?_, .of_eq _ rfl, .refl _ a⟩
    intro hir
    obtain rfl : i = right := by omega
    exact hsorted

theorem insert_sort_sentinel (hlo : lo = left - 1 ∨ lo = left) (hne : left < right)
    (hleast : ∀ k, left ≤ k → k < right → a.val lo ≤ a.val k) :
    let b := insert_sort a left right
    SortedOn left right b ∧ a.Rearranges (Set.Ico left right) b ∧
      a.Accesses (Set.Ico lo right) b := by
  have hsorted : SortedOn lo (left + 1) a := by
    intro k l hk hkl hl
    rcases eq_or_lt_of_le hkl with rfl | hlt
    · exact le_refl _
    · obtain rfl : k = lo := by omega
      exact hleast l (by omega) (by omega)
  obtain ⟨hend, hmoved, hacc⟩ := insert_sort_from_spec (show left ≤ lo + 1 by omega) (by omega)
    hsorted fun k hk hkr => hleast k (by omega) hkr
  refine ⟨?_, hmoved.mono ?_, hacc⟩
  · intro k l hk hkl hl
    exact hend (by omega) k l (by omega) hkl hl
  · intro k hk
    exact ⟨by have := hk.1; omega, hk.2⟩

/-! ## Section 6: insert_sort without a sentinel -/

theorem insert_sort_shift_accesses (tem : α) (left j : Int) (a : Cells Int α) :
    a.Accesses Set.univ (insert_sort_shift tem left j a).2 := by
  fun_induction insert_sort_shift tem left j a with
  | case1 j a hguard hless ih =>
    have hread : ∀ b : Cells Int α, b.Accesses Set.univ (b.read (j - 1)) :=
      fun b => .read (Set.mem_univ _)
    exact (hread a).trans ((hread _).trans ((Cells.Accesses.write (Set.mem_univ _)).trans ih))
  | case2 j a hguard hless => exact .read (Set.mem_univ _)
  | case3 j a hguard => exact .refl _ a

theorem insert_sort_step_accesses (left i : Int) (a : Cells Int α) :
    let r := insert_sort_shift (a.val i) left i (a.read i)
    a.Accesses Set.univ (r.2.write r.1 (a.val i)) := by
  have hread : a.Accesses Set.univ (a.read i) := .read (Set.mem_univ _)
  exact hread.trans ((insert_sort_shift_accesses _ _ _ _).trans (.write (Set.mem_univ _)))

theorem insert_sort_from_accesses (left right i : Int) (a : Cells Int α) :
    a.Accesses Set.univ (insert_sort_from left right i a) := by
  fun_induction insert_sort_from left right i a with
  | case1 i a hlt tem r ih => exact (insert_sort_step_accesses left i a).trans ih
  | case2 i a hge => exact .refl _ a

/-- What is less than all elements before it is compared with the element in
    front of the range. -/
theorem insert_sort_shift_falls (hj : left ≤ j) (hless : ∀ k, left ≤ k → k < j → tem < a.val k) :
    a.Touches (left - 1) (insert_sort_shift tem left j a).2 := by
  fun_induction insert_sort_shift tem left j a with
  | case1 j a hguard hlt ih =>
    by_cases hend : j = left
    · rw [hend]
      exact Cells.Touches.read.then ((Cells.Accesses.read (Set.mem_univ _)).trans
        ((Cells.Accesses.write (Set.mem_univ _)).trans (insert_sort_shift_accesses _ _ _ _)))
    · have hread : ∀ b : Cells Int α, b.Accesses Set.univ (b.read (j - 1)) :=
        fun b => .read (Set.mem_univ _)
      refine ((hread a).trans ((hread _).trans (.write (Set.mem_univ _)))).then_touches
        (ih (by omega) ?_)
      intro k hk hkj
      rw [Cells.write_val_ne _ _ (by omega)]
      exact hless k hk (by omega)
  | case2 j a hguard hge =>
    -- the loop ends above the range only at its left end
    obtain rfl : j = left := by
      by_contra hne
      exact hge (hless (j - 1) (by omega) (by omega))
    exact .read
  | case3 j a hguard => exact absurd hj hguard

theorem insert_sort_from_falls (hi : left < i) (hsorted : SortedOn left i a)
    (hless : ∃ k, i ≤ k ∧ k < right ∧ a.val k < a.val left) :
    a.Touches (left - 1) (insert_sort_from left right i a) := by
  fun_induction insert_sort_from left right i a with
  | case1 i a hlt tem r ih =>
    by_cases hfirst : a.val i < a.val left
    · -- the first element less than `a[left]`, and so less than all before it
      have hread : a.Accesses Set.univ (a.read i) := .read (Set.mem_univ _)
      have hfalls : (a.read i).Touches (left - 1) r.2 := by
        refine insert_sort_shift_falls (by omega) ?_
        intro k hk hki
        exact lt_of_lt_of_le hfirst (hsorted left k (le_refl left) hk hki)
      exact (hread.then_touches hfalls).then
        ((Cells.Accesses.write (Set.mem_univ _)).trans (insert_sort_from_accesses _ _ _ _))
    · obtain ⟨hstep, hmoved, hacc⟩ := insert_sort_step (show left ≤ left + 1 by omega) hi hsorted
        (not_lt.mp hfirst)
      obtain ⟨k, hk, hkr, hkless⟩ := hless
      have hki : k ≠ i := by
        rintro rfl
        exact hfirst hkless
      refine hacc.then_touches (ih (by omega) hstep ⟨k, by omega, hkr, ?_⟩)
      rw [hmoved.others (k := left) (fun hin => lt_irrefl left hin.1),
        hmoved.others (k := k) (fun hin => by have := hin.2; omega)]
      exact hkless
  | case2 i a hge =>
    obtain ⟨k, hk, hkr, -⟩ := hless
    omega

theorem insert_sort_falls (hless : ∃ k, left ≤ k ∧ k < right ∧ a.val k < a.val left) :
    a.Touches (left - 1) (insert_sort a left right) := by
  obtain ⟨k, hk, hkr, hkless⟩ := hless
  have hne : k ≠ left := by
    rintro rfl
    exact lt_irrefl _ hkless
  refine insert_sort_from_falls (by omega) ?_ ⟨k, by omega, hkr, hkless⟩
  intro m l hm hml hl
  obtain rfl : m = l := by omega
  exact le_refl _

/-! ## Section 7: quick_sort -/

theorem smaller_length (pivot : α) (l : List α) : (smaller pivot l).length ≤ l.length := by
  fun_induction smaller pivot l with
  | case1 l h => exact Nat.zero_le _
  | case2 l x rest h ih =>
    have hlen := (List.dropWhile_sublist (fun y => decide (pivot ≤ y)) (l := l.reverse)).length_le
    have hparts := congrArg List.length
      (List.takeWhile_append_dropWhile (p := fun y => decide (y ≤ pivot)) (l := rest.reverse))
    rw [h] at hlen
    simp only [List.length_append, List.length_reverse, List.length_cons, List.length_tail]
      at hlen hparts ih ⊢
    omega

/-- The first of the blocks of at most ten elements that the partitions leave
    begins with its least element. -/
def led : List α → Bool
  | [] => true
  | x :: rest =>
    if rest.length < 10 then rest.all (x ≤ ·) else led (smaller x rest)
termination_by l => l.length
decreasing_by
  have := smaller_length x rest
  simp only [List.length_cons]
  omega

/-- The part before the pivot, after the partition of a long range. -/
theorem led_partition (h : right - left > 10) :
    led (a.content left right) =
      led ((median_pos a left right).2.content left (median_pos a left right).1) := by
  have hsplit := median_pos_split a (show left < right by omega)
  have hbefore := hsplit.before
  rw [Cells.content_nil (le_refl ((median_pos a left right).1 + 1)), smaller_nil (by simp), List.append_nil]
    at hbefore
  rw [hbefore, Cells.content_cons (by omega), led, if_neg]
  rw [Cells.content_length]
  omega

/-- The first element of a short range. -/
theorem led_short (hne : left < right) (h : ¬ right - left > 10) :
    led (a.content left right) = true ↔ ∀ k, left ≤ k → k < right → a.val left ≤ a.val k := by
  have hlen : (a.content (left + 1) right).length < 10 := by
    rw [Cells.content_length]
    omega
  rw [Cells.content_cons hne, led, if_pos hlen, List.all_eq_true]
  constructor
  · intro hall k hk hkr
    rcases eq_or_lt_of_le hk with heq | hlt
    · rw [heq]
    · have hin : a.val k ∈ a.content (left + 1) right :=
        Cells.mem_content.mpr ⟨k, by omega, hkr, rfl⟩
      simpa using hall _ hin
  · intro hall x hx
    obtain ⟨k, hk, hkr, rfl⟩ := Cells.mem_content.mp hx
    simpa using hall k (by omega) hkr

/-- Either the element in front of the range is not greater than any in it, or
    the range is one that needs no such element. -/
def Guarded (lo left right : Int) (a : Cells Int α) : Prop :=
  (lo = left - 1 ∧ ∀ k, left ≤ k → k < right → a.val lo ≤ a.val k) ∨
    (lo = left ∧ led (a.content left right) = true)

theorem quick_sort_spec (h : Guarded lo left right a) :
    let b := quick_sort a left right
    SortedOn left right b ∧ a.Rearranges (Set.Ico left right) b ∧
      a.Accesses (Set.Ico lo right) b := by
  fun_induction quick_sort a left right generalizing lo with
  | case1 a left right hlong r b =>
    rename_i ih₁ _ ih₂
    have hsplit : Split a left right (a.val left) r.1 r.1 r.2 :=
      median_pos_split a (show left < right by omega)
    have hlo := hsplit.lo
    have hhi := hsplit.hi
    -- the part before the pivot has the sentinel of the whole range, if any
    have hguard : Guarded lo left r.1 r.2 := by
      rcases h with ⟨hlo', hleast⟩ | ⟨hlo', hled⟩
      · left
        refine ⟨hlo', ?_⟩
        intro k hk hkp
        rw [hsplit.moved.others (k := lo) (fun hin => by have := hin.1; omega)]
        exact hsplit.moved.forall (P := fun x => a.val lo ≤ x)
          (fun l hl => hleast l hl.1 hl.2) k ⟨hk, by omega⟩
      · right
        exact ⟨hlo', by rw [← led_partition hlong]; exact hled⟩
    have hloleft : left - 1 ≤ lo ∧ lo ≤ left := by
      rcases h with ⟨hlo', -⟩ | ⟨hlo', -⟩ <;> omega
    obtain ⟨hsorted₁, hmoved₁, hacc₁⟩ := ih₁ hguard
    have hsame : ∀ k, r.1 ≤ k → b.val k = r.2.val k := by
      intro k hk
      exact hmoved₁.others fun hin => by have := hin.2; omega
    -- and the pivot is the sentinel of the part after it
    have hpivot : ∀ k, r.1 + 1 ≤ k → k < right → b.val r.1 ≤ b.val k := by
      intro k hk hkr
      rw [hsame r.1 (le_refl _), hsame k (by omega), hsplit.here]
      exact hsplit.above k (by omega) hkr
    obtain ⟨hsorted₂, hmoved₂, hacc₂⟩ := ih₂
      (show Guarded r.1 (r.1 + 1) right b from .inl ⟨by omega, hpivot⟩)
    generalize quick_sort b (r.1 + 1) right = d at hsorted₂ hmoved₂ hacc₂ ⊢
    have hkeep : ∀ k, k ≤ r.1 → d.val k = b.val k := by
      intro k hk
      exact hmoved₂.others fun hin => by have := hin.1; omega
    have hbelow : ∀ k, left ≤ k → k < r.1 → d.val k ≤ d.val r.1 := by
      intro k hk hkp
      rw [hkeep k (by omega), hkeep r.1 (le_refl _), hsame r.1 (le_refl _), hsplit.here]
      exact hmoved₁.forall (P := fun x => x ≤ a.val left)
        (fun l hl => hsplit.below l hl.1 hl.2) k ⟨hk, hkp⟩
    have habove : ∀ k, r.1 < k → k < right → d.val r.1 ≤ d.val k := by
      intro k hk hkr
      rw [hkeep r.1 (le_refl _)]
      exact hmoved₂.forall (P := fun x => b.val r.1 ≤ x)
        (fun l hl => hpivot l hl.1 hl.2) k ⟨by omega, hkr⟩
    refine ⟨?_, ?_, ?_⟩
    · intro k l hk hkl hl
      rcases lt_trichotomy l r.1 with hlp | rfl | hlp
      · rw [hkeep k (by omega), hkeep l (by omega)]
        exact hsorted₁ k l hk hkl hlp
      · rcases eq_or_lt_of_le hkl with rfl | hlt
        · exact le_refl _
        · exact hbelow k hk hlt
      · rcases lt_trichotomy k r.1 with hkp | rfl | hkp
        · exact le_trans (hbelow k hk hkp) (habove l hlp hl)
        · exact habove l hlp hl
        · exact hsorted₂ k l (by omega) hkl hl
    · refine hsplit.moved.trans ((hmoved₁.mono ?_).trans (hmoved₂.mono ?_))
      · intro k hk
        exact ⟨hk.1, by have := hk.2; omega⟩
      · intro k hk
        exact ⟨by have := hk.1; omega, hk.2⟩
    · refine (hsplit.inside.mono ?_).trans ((hacc₁.mono ?_).trans (hacc₂.mono ?_))
      · intro k hk
        exact ⟨by have := hk.1; omega, hk.2⟩
      · intro k hk
        exact ⟨hk.1, by have := hk.2; omega⟩
      · intro k hk
        exact ⟨by have := hk.1; omega, hk.2⟩
  | case2 a left right hshort =>
    by_cases hne : left < right
    · rcases h with ⟨rfl, hleast⟩ | ⟨rfl, hled⟩
      · exact insert_sort_sentinel (.inl rfl) hne hleast
      · exact insert_sort_sentinel (.inr rfl) hne ((led_short hne hshort).mp hled)
    · have hnone : insert_sort a left right = a := by
        rw [insert_sort, insert_sort_from, if_neg (by omega)]
      rw [hnone]
      refine ⟨?_, .of_eq _ rfl, .refl _ a⟩
      intro k l hk hkl hl
      omega

theorem quick_sort_accesses (a : Cells Int α) (left right : Int) :
    a.Accesses Set.univ (quick_sort a left right) := by
  fun_induction quick_sort a left right with
  | case1 a left right hlong r b ih₁ _ ih₂ =>
    have hsplit := median_pos_split a (show left < right by omega)
    exact (hsplit.inside.mono fun k _ => Set.mem_univ k).trans (ih₁.trans ih₂)
  | case2 a left right hshort => exact insert_sort_from_accesses _ _ _ _

theorem quick_sort_falls (h : led (a.content left right) = false) :
    a.Touches (left - 1) (quick_sort a left right) := by
  fun_induction quick_sort a left right with
  | case1 a left right hlong r b ih₁ _ ih₂ =>
    have hsplit := median_pos_split a (show left < right by omega)
    rw [led_partition hlong] at h
    exact hsplit.inside.then_touches ((ih₁ h).then (quick_sort_accesses _ _ _))
  | case2 a left right hshort =>
    have hne : left < right := by
      by_contra hnot
      rw [Cells.content_nil (by omega), led] at h
      cases h
    apply insert_sort_falls
    by_contra hnone
    push Not at hnone
    rw [(led_short hne hshort).mpr hnone] at h
    cases h

/-- The range is sorted in place, and nothing outside it is looked at. -/
structure SortsInPlace (left right : Int) (a b : Cells Int α) : Prop where
  inside : a.Accesses (Set.Ico left right) b
  others : ∀ k, k ∉ Set.Ico left right → b.val k = a.val k
  sorted : (b.content left right).Pairwise (· ≤ ·)
  perm : (b.content left right).Perm (a.content left right)

/-- `quick_sort` does so exactly where the insertion sort at the left end finds
    its least element first. -/
theorem quick_sort_sorts_iff (a : Cells Int α) (left right : Int) :
    SortsInPlace left right a (quick_sort a left right) ↔
      led (a.content left right) = true := by
  constructor
  · intro h
    by_contra hnot
    have hfalls := quick_sort_falls (Bool.eq_false_iff.mpr hnot)
    have hin := (h.inside.mem hfalls).1
    omega
  · intro h
    obtain ⟨hsorted, hmoved, hacc⟩ := quick_sort_spec (show Guarded left left right a from .inr ⟨rfl, h⟩)
    refine ⟨hacc, fun k hk => hmoved.others hk, ?_, hmoved.content_perm⟩
    exact Cells.content_pairwise fun k l hk hkl hl => hsorted k l hk (le_of_lt hkl) hl

/-- Two elements in the wrong order, from index 0 on: `a[-1]` is read. -/
theorem quick_sort_pair_reads_outside :
    ¬ SortsInPlace 0 2 (⟨fun k => if k = 0 then 1 else 0, []⟩ : Cells Int Nat)
      (quick_sort ⟨fun k => if k = 0 then 1 else 0, []⟩ 0 2) := by
  intro h
  have hled : led ((⟨fun k => if k = 0 then 1 else 0, []⟩ : Cells Int Nat).content 0 2) =
      false := by
    rw [show (⟨fun k => if k = 0 then 1 else 0, []⟩ : Cells Int Nat).content 0 2 = [1, 0] from rfl,
      led]
    rfl
  have hin := (h.inside.mem (quick_sort_falls hled)).1
  omega

end

end

end Pump
