import Mathlib.Tactic
import Mathlib.Logic.Equiv.Basic
import Mathlib.Data.Int.Range

/-! # Arrays without bounds

    An array whose indices come from any type, with a log of the indices that
    were read or written. In place of bounds a result says which indices were
    accessed (`Accesses`), and that what is new is a rearrangement of what was
    there before (`Rearranges`). -/

namespace Pump

/-- The elements and the indices accessed so far. -/
structure Cells (ι α : Type*) where
  val : ι → α
  log : List ι

namespace Cells

section

variable {ι α : Type*} {S T : Set ι} {a b c : Cells ι α} {i j : ι}

/-! ## Section 1: The indices accessed -/

/-- An element is read. -/
def read (a : Cells ι α) (i : ι) : Cells ι α := { a with log := a.log ++ [i] }

@[simp] theorem read_val (a : Cells ι α) (i : ι) : (a.read i).val = a.val := rfl

/-- From `a` to `b` only indices in `S` are accessed. -/
def Accesses (S : Set ι) (a b : Cells ι α) : Prop :=
  ∃ new, b.log = a.log ++ new ∧ ∀ k ∈ new, k ∈ S

/-- From `a` to `b` the index `i` is accessed. -/
def Touches (i : ι) (a b : Cells ι α) : Prop := ∃ new, b.log = a.log ++ new ∧ i ∈ new

theorem Accesses.refl (S : Set ι) (a : Cells ι α) : a.Accesses S a :=
  ⟨[], by simp, by simp⟩

theorem Accesses.trans (h : a.Accesses S b) (h' : b.Accesses S c) : a.Accesses S c := by
  obtain ⟨new, hlog, hin⟩ := h
  obtain ⟨new', hlog', hin'⟩ := h'
  refine ⟨new ++ new', by rw [hlog', hlog, List.append_assoc], ?_⟩
  intro k hk
  rcases List.mem_append.mp hk with hk | hk
  · exact hin k hk
  · exact hin' k hk

theorem Accesses.mono (h : a.Accesses S b) (hST : ∀ k ∈ S, k ∈ T) : a.Accesses T b := by
  obtain ⟨new, hlog, hin⟩ := h
  exact ⟨new, hlog, fun k hk => hST k (hin k hk)⟩

theorem Accesses.read (hi : i ∈ S) : a.Accesses S (a.read i) := by
  refine ⟨[i], rfl, ?_⟩
  intro k hk
  rwa [List.mem_singleton.mp hk]

theorem Touches.then (h : a.Touches i b) (h' : b.Accesses S c) : a.Touches i c := by
  obtain ⟨new, hlog, hin⟩ := h
  obtain ⟨new', hlog', -⟩ := h'
  exact ⟨new ++ new', by rw [hlog', hlog, List.append_assoc], List.mem_append_left _ hin⟩

theorem Accesses.then_touches (h : a.Accesses S b) (h' : b.Touches i c) : a.Touches i c := by
  obtain ⟨new, hlog, -⟩ := h
  obtain ⟨new', hlog', hin⟩ := h'
  exact ⟨new ++ new', by rw [hlog', hlog, List.append_assoc], List.mem_append_right _ hin⟩

theorem Touches.read : a.Touches i (a.read i) := ⟨[i], rfl, List.mem_singleton_self i⟩

theorem Accesses.mem (h : a.Accesses S b) (h' : a.Touches i b) : i ∈ S := by
  obtain ⟨new, hlog, hin⟩ := h
  obtain ⟨new', hlog', hmem⟩ := h'
  have heq : new' = new := List.append_cancel_left (hlog'.symm.trans hlog)
  exact hin i (heq ▸ hmem)

/-! ## Section 2: Writing and swapping -/

variable [DecidableEq ι]

/-- An element is written. -/
def write (a : Cells ι α) (i : ι) (x : α) : Cells ι α where
  val := Function.update a.val i x
  log := a.log ++ [i]

/-- `std::swap` of two elements. -/
def swap (a : Cells ι α) (i j : ι) : Cells ι α where
  val := fun k => a.val (Equiv.swap i j k)
  log := a.log ++ [i, j]

@[simp] theorem write_val_self (a : Cells ι α) (i : ι) (x : α) : (a.write i x).val i = x := by
  simp [write]

theorem write_val_ne (a : Cells ι α) (x : α) (h : j ≠ i) : (a.write i x).val j = a.val j := by
  simp [write, h]

@[simp] theorem swap_val_left (a : Cells ι α) (i j : ι) : (a.swap i j).val i = a.val j := by
  simp [swap]

@[simp] theorem swap_val_right (a : Cells ι α) (i j : ι) : (a.swap i j).val j = a.val i := by
  simp [swap]

theorem swap_val_ne (a : Cells ι α) {k : ι} (hi : k ≠ i) (hj : k ≠ j) :
    (a.swap i j).val k = a.val k := by
  simp [swap, Equiv.swap_apply_of_ne_of_ne hi hj]

theorem Accesses.write {x : α} (hi : i ∈ S) : a.Accesses S (a.write i x) := by
  refine ⟨[i], rfl, ?_⟩
  intro k hk
  rwa [List.mem_singleton.mp hk]

theorem Accesses.swap (hi : i ∈ S) (hj : j ∈ S) : a.Accesses S (a.swap i j) := by
  refine ⟨[i, j], rfl, ?_⟩
  simp [hi, hj]

/-! ## Section 3: Rearrangements -/

omit [DecidableEq ι] in
/-- The elements with index in `S` are put in another order, and no other
    element changes. -/
def Rearranges (S : Set ι) (a b : Cells ι α) : Prop :=
  ∃ σ : Equiv.Perm ι, (∀ k, k ∉ S → σ k = k) ∧ ∀ k, b.val k = a.val (σ k)

omit [DecidableEq ι] in
theorem Rearranges.of_eq (S : Set ι) (h : b.val = a.val) : a.Rearranges S b :=
  ⟨1, fun _ _ => rfl, fun k => by rw [h]; rfl⟩

omit [DecidableEq ι] in
theorem Rearranges.trans (h : a.Rearranges S b) (h' : b.Rearranges S c) : a.Rearranges S c := by
  obtain ⟨σ, hout, hval⟩ := h
  obtain ⟨σ', hout', hval'⟩ := h'
  refine ⟨σ * σ', ?_, ?_⟩
  · intro k hk
    rw [Equiv.Perm.mul_apply, hout' k hk, hout k hk]
  · intro k
    rw [hval' k, hval (σ' k), Equiv.Perm.mul_apply]

omit [DecidableEq ι] in
theorem Rearranges.mono (h : a.Rearranges S b) (hST : ∀ k ∈ S, k ∈ T) : a.Rearranges T b := by
  obtain ⟨σ, hout, hval⟩ := h
  exact ⟨σ, fun k hk => hout k fun hS => hk (hST k hS), hval⟩

theorem Rearranges.swap (hi : i ∈ S) (hj : j ∈ S) : a.Rearranges S (a.swap i j) := by
  refine ⟨Equiv.swap i j, ?_, fun k => rfl⟩
  intro k hk
  refine Equiv.swap_apply_of_ne_of_ne ?_ ?_
  · exact fun h => hk (h ▸ hi)
  · exact fun h => hk (h ▸ hj)

omit [DecidableEq ι] in
theorem Rearranges.others (h : a.Rearranges S b) {k : ι} (hk : k ∉ S) : b.val k = a.val k := by
  obtain ⟨σ, hout, hval⟩ := h
  rw [hval k, hout k hk]

omit [DecidableEq ι] in
/-- A permutation that moves nothing outside `S` maps `S` to itself. -/
theorem fixes_mem {σ : Equiv.Perm ι} (hout : ∀ k, k ∉ S → σ k = k) (k : ι) :
    σ k ∈ S ↔ k ∈ S := by
  constructor
  · intro hk
    by_contra hnot
    rw [hout k hnot] at hk
    exact hnot hk
  · intro hk
    by_contra hnot
    have hfix : σ k = k := σ.injective (hout (σ k) hnot)
    rw [hfix] at hnot
    exact hnot hk

omit [DecidableEq ι] in
/-- What is in `S` afterwards was in `S` before. -/
theorem Rearranges.source (h : a.Rearranges S b) {k : ι} (hk : k ∈ S) :
    ∃ l ∈ S, b.val k = a.val l := by
  obtain ⟨σ, hout, hval⟩ := h
  exact ⟨σ k, (fixes_mem hout k).mpr hk, hval k⟩

omit [DecidableEq ι] in
/-- What holds of every element in `S` holds of every one afterwards. -/
theorem Rearranges.forall {P : α → Prop} (h : a.Rearranges S b) (hP : ∀ k ∈ S, P (a.val k)) :
    ∀ k ∈ S, P (b.val k) := by
  intro k hk
  obtain ⟨l, hl, heq⟩ := h.source hk
  exact heq ▸ hP l hl

omit [DecidableEq ι] in
/-- The contents of the indices in a list, when the rest stays as it was. -/
theorem Rearranges.perm {l : List ι} (h : a.Rearranges {k | k ∈ l} b) (hl : l.Nodup) :
    (l.map b.val).Perm (l.map a.val) := by
  obtain ⟨σ, hout, hval⟩ := h
  have hsame : (l.map σ).Perm l := by
    rw [List.perm_ext_iff_of_nodup (hl.map σ.injective) hl]
    intro k
    constructor
    · intro hk
      obtain ⟨m, hm, rfl⟩ := List.mem_map.mp hk
      exact (fixes_mem hout m).mpr hm
    · intro hk
      refine List.mem_map.mpr ⟨σ.symm k, (fixes_mem hout _).mp ?_, σ.apply_symm_apply k⟩
      rwa [Equiv.apply_symm_apply]
  have heq : l.map b.val = (l.map σ).map a.val := by
    rw [List.map_map]
    exact List.map_congr_left fun k _ => hval k
  rw [heq]
  exact hsame.map a.val

end

/-! ## Section 4: Ranges of indices -/

section

variable {α : Type*} {a b : Cells Int α} {left mid right : Int}

/-- The elements of a range, in order. -/
def content (left right : Int) (a : Cells Int α) : List α := (Int.range left right).map a.val

theorem range_nodup (left right : Int) : (Int.range left right).Nodup := by
  refine List.Nodup.map ?_ List.nodup_range
  intro m n h
  simpa using h

theorem content_nil (h : right ≤ left) : a.content left right = [] := by
  have hlen : (right - left).toNat = 0 := by omega
  simp [content, Int.range, hlen]

theorem content_length : (a.content left right).length = (right - left).toNat := by
  simp [content, Int.range]

theorem content_cons (h : left < right) :
    a.content left right = a.val left :: a.content (left + 1) right := by
  obtain ⟨n, hn⟩ : ∃ n : Nat, (right - left).toNat = n + 1 :=
    ⟨(right - left).toNat - 1, by omega⟩
  have hn' : (right - (left + 1)).toNat = n := by omega
  have hshift : ∀ m : Nat, left + ((m + 1 : Nat) : Int) = left + 1 + m := by
    intro m
    push_cast
    ring
  rw [content, content, Int.range, Int.range, hn, hn', List.range_succ_eq_map, List.map_cons,
    List.map_cons, Nat.cast_zero, Int.add_zero, List.map_map, List.map_map, List.map_map]
  congr 1
  refine List.map_congr_left fun m _ => ?_
  exact congrArg a.val (hshift m)

theorem content_append (mid : Int) (h : left ≤ mid) (h' : mid ≤ right) :
    a.content left right = a.content left mid ++ a.content mid right := by
  obtain ⟨n, hn⟩ : ∃ n : Nat, mid = left + n := ⟨(mid - left).toNat, by omega⟩
  induction n generalizing left with
  | zero =>
    obtain rfl : mid = left := by omega
    rw [content_nil (le_refl mid), List.nil_append]
  | succ n ih =>
    rw [content_cons (by omega), content_cons (show left < mid by omega),
      ih (by omega) (by omega), List.cons_append]

theorem mem_content {x : α} :
    x ∈ a.content left right ↔ ∃ k, left ≤ k ∧ k < right ∧ a.val k = x := by
  simp only [content, List.mem_map, Int.mem_range_iff]
  tauto

theorem content_congr (h : ∀ k, left ≤ k → k < right → b.val k = a.val k) :
    b.content left right = a.content left right := by
  apply List.map_congr_left
  intro k hk
  obtain ⟨hlo, hhi⟩ := Int.mem_range_iff.mp hk
  exact h k hlo hhi

theorem content_inj (h : b.content left right = a.content left right) {k : Int}
    (hk : left ≤ k) (hkr : k < right) : b.val k = a.val k :=
  List.map_inj_left.mp h k (Int.mem_range_iff.mpr ⟨hk, hkr⟩)

theorem Rearranges.content_perm (h : a.Rearranges (Set.Ico left right) b) :
    (b.content left right).Perm (a.content left right) := by
  refine Rearranges.perm (h.mono ?_) (range_nodup left right)
  intro k hk
  exact Int.mem_range_iff.mpr hk

/-- A range in which no element is less than an earlier one. -/
theorem content_pairwise [LE α] (h : ∀ k l, left ≤ k → k < l → l < right → a.val k ≤ a.val l) :
    (a.content left right).Pairwise (· ≤ ·) := by
  rw [content, List.pairwise_map, Int.range, List.pairwise_map]
  refine List.pairwise_lt_range.imp_of_mem ?_
  intro m n _ hn hmn
  have hlt := List.mem_range.mp hn
  exact h _ _ (by omega) (by omega) (by omega)

/-- The first `s` elements. -/
def front (s : Nat) (a : Cells Nat α) : List α := (List.range s).map a.val

theorem Rearranges.front_perm {a b : Cells Nat α} {s : Nat} (h : a.Rearranges (Set.Iio s) b) :
    (b.front s).Perm (a.front s) := by
  refine Rearranges.perm (h.mono ?_) List.nodup_range
  intro k hk
  exact List.mem_range.mpr hk

theorem front_pairwise [LE α] {a : Cells Nat α} {s : Nat}
    (h : ∀ k l, k < l → l < s → a.val k ≤ a.val l) : (a.front s).Pairwise (· ≤ ·) := by
  rw [front, List.pairwise_map]
  refine List.pairwise_lt_range.imp_of_mem ?_
  intro k l _ hl hkl
  exact h k l hkl (List.mem_range.mp hl)

end

end Cells

end Pump
