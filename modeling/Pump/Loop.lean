import Mathlib.Tactic

/-! # Loops

    A loop by its turns: one turn leaves the loop with a result or goes on
    with another state. -/

namespace Pump

namespace Loop

variable {σ ρ : Type*} (turn : σ → ρ ⊕ σ)

/-- The result of at most `k` turns; `none` when they do not leave the loop. -/
def run : Nat → σ → Option ρ
  | 0, _ => none
  | k + 1, s =>
    match turn s with
    | .inl r => some r
    | .inr s' => run k s'

/-- What the turns add up to, when one from `s` adds `cost s`. -/
def spent (cost : σ → Nat) : Nat → σ → Nat
  | 0, _ => 0
  | k + 1, s =>
    match turn s with
    | .inl _ => cost s
    | .inr s' => cost s + spent cost k s'

variable {turn}

theorem run_leave {s : σ} {r : ρ} (h : turn s = .inl r) (k : Nat) : run turn (k + 1) s = some r := by
  rw [run, h]

theorem run_next {s s' : σ} (h : turn s = .inr s') (k : Nat) :
    run turn (k + 1) s = run turn k s' := by
  rw [run, h]

theorem spent_leave {cost : σ → Nat} {s : σ} {r : ρ} (h : turn s = .inl r) (k : Nat) :
    spent turn cost (k + 1) s = cost s := by
  rw [spent, h]

theorem spent_next {cost : σ → Nat} {s s' : σ} (h : turn s = .inr s') (k : Nat) :
    spent turn cost (k + 1) s = cost s + spent turn cost k s' := by
  rw [spent, h]

/-- **The result.** `J s m` holds between the turns, `m` being what they have
    added up to, and the turn that leaves establishes `Q`. -/
theorem run_rule {cost : σ → Nat} {J : σ → Nat → Prop} {Q : ρ → Nat → Prop}
    (hnext : ∀ s s' m, J s m → turn s = .inr s' → J s' (m + cost s))
    (hleave : ∀ s r m, J s m → turn s = .inl r → Q r (m + cost s))
    {k m : Nat} {s : σ} {r : ρ} (hs : J s m) (h : run turn k s = some r) :
    Q r (m + spent turn cost k s) := by
  induction k generalizing s m with
  | zero => cases h
  | succ k ih =>
    rcases hturn : turn s with r' | s'
    · rw [run_leave hturn] at h
      cases h
      rw [spent_leave hturn]
      exact hleave s r m hs hturn
    · rw [run_next hturn] at h
      rw [spent_next hturn, ← Nat.add_assoc]
      exact ih (hnext s s' m hs hturn) h

/-- The loop ends with a result. -/
def Ends (turn : σ → ρ ⊕ σ) (s : σ) (r : ρ) : Prop := ∃ k, run turn k s = some r

theorem Ends.leave {s : σ} {r : ρ} (h : turn s = .inl r) : Ends turn s r := ⟨1, run_leave h 0⟩

theorem Ends.next {s s' : σ} {r : ρ} (h : turn s = .inr s') (h' : Ends turn s' r) :
    Ends turn s r := by
  obtain ⟨k, hk⟩ := h'
  exact ⟨k + 1, by rw [run_next h, hk]⟩

end Loop

end Pump
