import Mathlib.Tactic

/-! # Writers that report a size

    What a writer appends, with the size it reports. A formatter with a
    bounded buffer reports the size of the whole text and may leave off its
    end. -/

namespace Pump

namespace Sized

variable {α : Type*} {w w' : List α × Nat} {n : Nat} {s : List α}

/-- Not more is appended than reported. -/
def Covers (w : List α × Nat) : Prop := w.1.length ≤ w.2

/-- One writer behind the other. -/
def both (w w' : List α × Nat) : List α × Nat := (w.1 ++ w'.1, w.2 + w'.2)

/-- All of them. -/
def all (ws : List (List α × Nat)) : List α × Nat := ((ws.map (·.1)).flatten, (ws.map (·.2)).sum)

/-- A formatter with room for `n` elements. -/
def truncate (n : Nat) (s : List α) : List α × Nat := (s.take n, s.length)

theorem Covers.both (h : Covers w) (h' : Covers w') : Covers (both w w') := by
  show (w.1 ++ w'.1).length ≤ w.2 + w'.2
  rw [List.length_append]
  exact Nat.add_le_add h h'

theorem all_cons (ws : List (List α × Nat)) : all (w :: ws) = Sized.both w (all ws) := rfl

theorem Covers.all {ws : List (List α × Nat)} (h : ∀ w ∈ ws, Covers w) : Covers (all ws) := by
  induction ws with
  | nil => exact Nat.le_refl 0
  | cons w ws ih =>
    rw [all_cons]
    exact (h w List.mem_cons_self).both (ih fun w' hw => h w' (List.mem_cons_of_mem w hw))

theorem truncate_eq (h : s.length ≤ n) : (truncate n s).1 = s := List.take_of_length_le h

end Sized

end Pump
