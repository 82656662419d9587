import Mathlib.Tactic

/-! # Filling a buffer from the front

    A buffer of fixed size and the place of the next element. A store
    outside the buffer gives `none`. -/

namespace Pump

/-- A buffer and the place of the next store. -/
structure Cursor (α : Type*) where
  out : List α
  pos : Nat

namespace Cursor

variable {α : Type*} {c c' : Cursor α} {text xs ys : List α} {n : Nat}

/-- `out[pos++] = x`. -/
def put (c : Cursor α) (x : α) : Option (Cursor α) :=
  if c.pos < c.out.length then some ⟨c.out.set c.pos x, c.pos + 1⟩ else none

/-- One store after the other. -/
def puts : Cursor α → List α → Option (Cursor α)
  | c, [] => some c
  | c, x :: xs => (c.put x).bind (puts · xs)

theorem puts_append (c : Cursor α) (xs ys : List α) :
    c.puts (xs ++ ys) = (c.puts xs).bind (·.puts ys) := by
  induction xs generalizing c with
  | nil => rfl
  | cons x xs ih =>
    rw [List.cons_append, puts, puts]
    rcases c.put x with _ | c'
    · rfl
    · exact ih c'

/-- A buffer of `n` places, of which the first ones hold `text`. -/
structure Holds (c : Cursor α) (n : Nat) (text : List α) : Prop where
  length_out : c.out.length = n
  pos_eq : c.pos = text.length
  take_out : c.out.take c.pos = text
  pos_le : text.length ≤ n

theorem holds_new (n : Nat) (x : α) : Holds ⟨List.replicate n x, 0⟩ n [] :=
  ⟨List.length_replicate, rfl, List.take_zero, Nat.zero_le n⟩

theorem Holds.put (h : Holds c n text) (x : α) (hn : text.length < n) :
    ∃ c', c.put x = some c' ∧ Holds c' n (text ++ [x]) := by
  have hlen := h.length_out
  have hpos := h.pos_eq
  have hlt : c.pos < c.out.length := by omega
  refine ⟨⟨c.out.set c.pos x, c.pos + 1⟩, if_pos hlt, ?_, ?_, ?_, ?_⟩
  · rw [List.length_set, hlen]
  · rw [List.length_append, hpos]
    rfl
  · show (c.out.set c.pos x).take (c.pos + 1) = text ++ [x]
    rw [List.take_succ_eq_append_getElem (by rwa [List.length_set]), List.take_set_of_le le_rfl,
      h.take_out, List.getElem_set_self]
  · rw [List.length_append]
    exact hn

/-- What fits behind the text goes there. -/
theorem Holds.puts (xs : List α) (h : Holds c n text) (hn : text.length + xs.length ≤ n) :
    ∃ c', c.puts xs = some c' ∧ Holds c' n (text ++ xs) := by
  induction xs generalizing c text with
  | nil => exact ⟨c, rfl, by rwa [List.append_nil]⟩
  | cons x xs ih =>
    rw [List.length_cons] at hn
    obtain ⟨c₁, h₁, hc₁⟩ := h.put x (by omega)
    obtain ⟨c', h', hc'⟩ := ih hc₁ (by rw [List.length_append, List.length_singleton]; omega)
    refine ⟨c', ?_, ?_⟩
    · rw [Cursor.puts, h₁]
      exact h'
    · rwa [List.append_assoc] at hc'

/-- What does not is stored outside. -/
theorem Holds.puts_none (h : Holds c n text) (hn : n < text.length + xs.length) :
    c.puts xs = none := by
  induction xs generalizing c text with
  | nil =>
    have := h.pos_le
    rw [List.length_nil] at hn
    omega
  | cons x xs ih =>
    rw [List.length_cons] at hn
    rw [Cursor.puts]
    by_cases hlt : text.length < n
    · obtain ⟨c₁, h₁, hc₁⟩ := h.put x hlt
      rw [h₁]
      exact ih hc₁ (by rw [List.length_append, List.length_singleton]; omega)
    · have hout : ¬ c.pos < c.out.length := by
        rw [h.pos_eq, h.length_out]
        exact hlt
      rw [Cursor.put, if_neg hout]
      rfl

/-- A buffer that is full holds the text and nothing else. -/
theorem Holds.full (h : Holds c n text) (hn : text.length = n) : c.out = text ∧ c.pos = n := by
  have hall : c.out.take c.pos = c.out :=
    List.take_of_length_le (by rw [h.pos_eq, h.length_out, hn])
  exact ⟨by rw [← hall, h.take_out], by rw [h.pos_eq, hn]⟩

end Cursor

end Pump
