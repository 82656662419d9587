import Mathlib.Tactic

/-! # Sorted maps

    `std::map`: an association list in the order of its keys, each key once.
    The values are looked at through the list `nodes`, in the order of an
    iterator. For a map of lists, `push_back` appends to the list of a key and
    `values` is everything stored, in the order of the keys. -/

namespace Pump

/-- A map whose nodes are in the order of their keys. -/
structure SortedMap (K V : Type*) [LinearOrder K] where
  nodes : List (K × V)
  sorted : nodes.Pairwise fun e e' => e.1 < e'.1

namespace SortedMap

/-! ## Section 1: Maps -/

section

variable {K V : Type*} [LinearOrder K]

def empty : SortedMap K V := ⟨[], List.Pairwise.nil⟩

/-- `erase` of the first `n` nodes. -/
def erase_front (m : SortedMap K V) (n : Nat) : SortedMap K V :=
  ⟨m.nodes.drop n, m.sorted.sublist (List.drop_sublist n m.nodes)⟩

/-- The nodes after `operator[]` made the value at `k`, and `f` was applied to
    it. -/
def modify_nodes (k : K) (f : Option V → V) : List (K × V) → List (K × V)
  | [] => [(k, f none)]
  | e :: nodes =>
    if k < e.1 then (k, f none) :: e :: nodes
    else if k = e.1 then (k, f (some e.2)) :: nodes
    else e :: modify_nodes k f nodes

/-- A node is an old one, or the one with key `k`. -/
theorem mem_modify_nodes {k : K} {f : Option V → V} {nodes : List (K × V)} {e : K × V}
    (h : e ∈ modify_nodes k f nodes) :
    e ∈ nodes ∨ e = (k, f none) ∨ ∃ v, (k, v) ∈ nodes ∧ e = (k, f (some v)) := by
  induction nodes with
  | nil => exact .inr (.inl (List.mem_singleton.mp h))
  | cons e' nodes ih =>
    rw [modify_nodes] at h
    split at h
    · rcases List.mem_cons.mp h with heq | hmem
      · exact .inr (.inl heq)
      · exact .inl hmem
    · split at h
      · rename_i hk
        rcases List.mem_cons.mp h with heq | hmem
        · exact .inr (.inr ⟨e'.2, by rw [hk]; exact List.mem_cons_self, heq⟩)
        · exact .inl (List.mem_cons_of_mem _ hmem)
      · rcases List.mem_cons.mp h with heq | hmem
        · rw [heq]
          exact .inl List.mem_cons_self
        · rcases ih hmem with hold | hnew | ⟨v, hv, hnew⟩
          · exact .inl (List.mem_cons_of_mem _ hold)
          · exact .inr (.inl hnew)
          · exact .inr (.inr ⟨v, List.mem_cons_of_mem _ hv, hnew⟩)

theorem modify_nodes_key {k : K} {f : Option V → V} {nodes : List (K × V)} {e : K × V}
    (h : e ∈ modify_nodes k f nodes) : e.1 = k ∨ ∃ e' ∈ nodes, e.1 = e'.1 := by
  rcases mem_modify_nodes h with hold | rfl | ⟨v, -, rfl⟩
  · exact .inr ⟨e, hold, rfl⟩
  · exact .inl rfl
  · exact .inl rfl

theorem sorted_modify_nodes (k : K) (f : Option V → V) {nodes : List (K × V)}
    (h : nodes.Pairwise fun e e' => e.1 < e'.1) :
    (modify_nodes k f nodes).Pairwise fun e e' => e.1 < e'.1 := by
  induction nodes with
  | nil => exact List.pairwise_singleton _ _
  | cons e nodes ih =>
    obtain ⟨hhead, htail⟩ := List.pairwise_cons.mp h
    rw [modify_nodes]
    split
    · rename_i hlt
      refine List.pairwise_cons.mpr ⟨?_, h⟩
      intro e' he'
      rcases List.mem_cons.mp he' with rfl | hmem
      · exact hlt
      · exact lt_trans hlt (hhead e' hmem)
    · split
      · rename_i hk
        refine List.pairwise_cons.mpr ⟨?_, htail⟩
        intro e' he'
        exact hk ▸ hhead e' he'
      · rename_i hge hne
        refine List.pairwise_cons.mpr ⟨?_, ih htail⟩
        intro e' he'
        rcases modify_nodes_key he' with hk | ⟨e'', hmem, hk⟩
        · rw [hk]
          exact lt_of_le_of_ne (not_lt.mp hge) (Ne.symm hne)
        · rw [hk]
          exact hhead e'' hmem

/-- `f` of the value at `k`, if there is one, becomes the value at `k`. -/
def modify (m : SortedMap K V) (k : K) (f : Option V → V) : SortedMap K V :=
  ⟨modify_nodes k f m.nodes, sorted_modify_nodes k f m.sorted⟩

/-- Behind the first key that is greater than `c` all are. -/
theorem lt_of_mem_dropWhile (m : SortedMap K V) (c : K) {e : K × V}
    (h : e ∈ m.nodes.dropWhile fun e => e.1 ≤ c) : c < e.1 := by
  have hsorted := m.sorted.sublist (List.dropWhile_sublist fun e => decide (e.1 ≤ c))
  rcases hdrop : m.nodes.dropWhile (fun e => decide (e.1 ≤ c)) with _ | ⟨e', rest⟩
  · rw [hdrop] at h
    cases h
  rw [hdrop] at h hsorted
  have hhead : c < e'.1 := by
    have hnot := List.head_dropWhile_not (fun e : K × V => decide (e.1 ≤ c)) (l := m.nodes)
      (by rw [hdrop]; exact List.cons_ne_nil _ _)
    simpa [hdrop] using hnot
  rcases List.mem_cons.mp h with rfl | hmem
  · exact hhead
  · exact lt_trans hhead ((List.pairwise_cons.mp hsorted).1 e hmem)

end

/-! ## Section 2: Maps of lists -/

section

variable {K V : Type*} [LinearOrder K]

/-- Everything stored, in the order of the keys. -/
def values (m : SortedMap K (List V)) : List V := m.nodes.flatMap Prod.snd

/-- `m[k].push_back(x)`. -/
def push_back (m : SortedMap K (List V)) (k : K) (x : V) : SortedMap K (List V) :=
  m.modify k fun l => l.getD [] ++ [x]

theorem values_modify_nodes (k : K) (x : V) (nodes : List (K × List V)) :
    ((modify_nodes k (fun l => l.getD [] ++ [x]) nodes).flatMap Prod.snd).Perm
      (nodes.flatMap Prod.snd ++ [x]) := by
  induction nodes with
  | nil => simp [modify_nodes]
  | cons e nodes ih =>
    rw [modify_nodes]
    split
    · simpa using (List.perm_append_singleton x (e.2 ++ nodes.flatMap Prod.snd)).symm
    · split
      · simp only [List.flatMap_cons, Option.getD_some, List.append_assoc]
        exact List.Perm.append_left e.2 (List.perm_append_comm)
      · simp only [List.flatMap_cons, List.append_assoc]
        exact List.Perm.append_left e.2 ih

theorem values_push_back (m : SortedMap K (List V)) (k : K) (x : V) :
    (m.push_back k x).values.Perm (m.values ++ [x]) := values_modify_nodes k x m.nodes

/-- A node is an old one, or the one that got `x` at its end. -/
theorem forall_push_back {P : K → List V → Prop} {m : SortedMap K (List V)} {k : K} {x : V}
    (h : ∀ e ∈ m.nodes, P e.1 e.2) (hnew : P k [x])
    (hold : ∀ l, (k, l) ∈ m.nodes → P k (l ++ [x])) :
    ∀ e ∈ (m.push_back k x).nodes, P e.1 e.2 := by
  intro e he
  rcases mem_modify_nodes he with hmem | rfl | ⟨l, hmem, rfl⟩
  · exact h e hmem
  · exact hnew
  · exact hold l hmem

theorem mem_values {m : SortedMap K (List V)} {x : V} :
    x ∈ m.values ↔ ∃ e ∈ m.nodes, x ∈ e.2 := List.mem_flatMap

end

end SortedMap

end Pump
