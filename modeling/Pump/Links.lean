import Mathlib.Tactic

/-! # Linked nodes

    Nodes in the order in which each is linked to the next one. -/

namespace Pump

section

variable {α : Type*}

/-- The nodes are linked in this order, and the last one is linked to `z`. -/
def Links (next : α → α) : List α → α → Prop
  | [], _ => True
  | a :: l, z => next a = l.headD z ∧ Links next l z

/-- Nodes in the middle, taken to the front. -/
theorem splice_perm (l m l' : List α) (a : α) :
    (l ++ a :: (m ++ l')).Perm (m ++ (l ++ a :: l')) :=
  calc
    l ++ a :: (m ++ l') = ((l ++ [a]) ++ m) ++ l' := by simp
    List.Perm _ ((m ++ (l ++ [a])) ++ l') := List.perm_append_comm.append_right l'
    _ = m ++ (l ++ a :: l') := by simp

namespace Links

variable {next next' : α → α} {a b z : α} {l l' : List α}

theorem append : Links next (l ++ l') z ↔ Links next l (l'.headD z) ∧ Links next l' z := by
  induction l with
  | nil => simp [Links]
  | cons a l ih =>
    rw [List.cons_append, Links, Links, ih, and_assoc]
    rcases l with _ | ⟨b, l⟩
    · rfl
    · rfl

theorem congr (h : ∀ a ∈ l, next' a = next a) : Links next' l z ↔ Links next l z := by
  induction l with
  | nil => rfl
  | cons a l ih =>
    rw [Links, Links, h a List.mem_cons_self, ih fun b hb => h b (List.mem_cons_of_mem a hb)]

/-- A ring may be entered one node later. -/
theorem rotate (h : Links next (a :: l) a) : Links next (l ++ [a]) (l.headD a) := by
  obtain ⟨hnext, hl⟩ := h
  exact append.mpr ⟨hl, hnext, trivial⟩

variable [DecidableEq α]

/-- A change of a node that is not among them. -/
theorem update_of_notMem (b : α) (ha : a ∉ l) :
    Links (Function.update next a b) l z ↔ Links next l z :=
  congr fun _ hc => Function.update_of_ne (ne_of_mem_of_not_mem hc ha) b next

/-- Nodes that are linked to what follows `a` are linked in behind `a`. -/
theorem splice {m : List α} (h : Links next (l ++ a :: l') z) (hm : Links next (b :: m) (next a))
    (ha : a ∉ l ++ l' ++ b :: m) : Links (Function.update next a b) (l ++ a :: (b :: m ++ l')) z := by
  rw [List.mem_append, List.mem_append, not_or, not_or] at ha
  obtain ⟨⟨hal, hal'⟩, ham⟩ := ha
  obtain ⟨hl, hnext, hl'⟩ := append.mp h
  rw [append]
  refine ⟨(update_of_notMem b hal).mpr hl, ?_, ?_⟩
  · rw [Function.update_self]
    rfl
  · rw [append]
    refine ⟨(update_of_notMem b ham).mpr ?_, (update_of_notMem b hal').mpr hl'⟩
    rw [hnext] at hm
    exact hm

/-- A node `b` is linked in behind `a`. -/
theorem insert (h : Links next (l ++ a :: l') z) (hb : next b = next a) (hba : b ≠ a) (hal : a ∉ l)
    (hal' : a ∉ l') : Links (Function.update next a b) (l ++ a :: b :: l') z := by
  apply splice h (m := [])
  · exact ⟨hb, trivial⟩
  · rw [List.mem_append, List.mem_append, List.mem_singleton]
    rintro ((hal₁ | hal₁) | hab)
    · exact hal hal₁
    · exact hal' hal₁
    · exact hba hab.symm

end Links

/-- Nodes in the order of their numbers. -/
theorem Links.range' {next : Nat → Nat} {a k : Nat} (h : ∀ n, a ≤ n → n < a + k → next n = n + 1) :
    Links next (List.range' a k) (a + k) := by
  induction k generalizing a with
  | zero => trivial
  | succ k ih =>
    rw [List.range'_succ]
    have hrest : Links next (List.range' (a + 1) k) (a + 1 + k) := by
      apply ih
      intro n hle hlt
      exact h n (by omega) (by omega)
    rw [show a + 1 + k = a + (k + 1) by omega] at hrest
    refine ⟨?_, hrest⟩
    rw [h a le_rfl (by omega)]
    rcases k with _ | k
    · rfl
    · rw [List.range'_succ]
      rfl

end

end Pump
