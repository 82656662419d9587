import Mathlib.Tactic

/-! # Exactly one place

    Things that are handed from one place to another. A step that moves one of
    them, or none, keeps each in exactly one place. -/

namespace Pump

section

variable {τ P : Type*}

/-- Each thing is at exactly one of the places. -/
def OnePlace (At : τ → P → Prop) : Prop := ∀ v, ∃! q, At v q

/-- The thing `v` goes from one place to another, and no other thing moves. -/
structure Moves (At At' : τ → P → Prop) (v : τ) (source target : P) : Prop where
  before : At v source
  after : At' v target
  leaves : ¬ At' v source
  others : ∀ u q, ¬ (u = v ∧ (q = source ∨ q = target)) → (At' u q ↔ At u q)

namespace OnePlace

variable {At At' : τ → P → Prop} {v : τ} {source target q r : P}

theorem eq (h : OnePlace At) (hq : At v q) (hr : At v r) : q = r :=
  (h v).unique hq hr

/-- No thing moves. -/
theorem stay (h : OnePlace At) (hsame : ∀ u q, At' u q ↔ At u q) : OnePlace At' := by
  intro u
  obtain ⟨q, hq, honly⟩ := h u
  exact ⟨q, (hsame u q).mpr hq, fun r hr => honly r ((hsame u r).mp hr)⟩

/-- One thing moves. -/
theorem move (h : OnePlace At) (hmove : Moves At At' v source target) : OnePlace At' := by
  intro u
  by_cases hu : u = v
  · subst hu
    refine ⟨target, hmove.after, ?_⟩
    intro r hr
    by_contra hne
    by_cases hsource : r = source
    · rw [hsource] at hr
      exact hmove.leaves hr
    · -- a third place is one where it was before
      have hout : ¬ (u = u ∧ (r = source ∨ r = target)) := by
        rintro ⟨-, hr' | hr'⟩
        · exact hsource hr'
        · exact hne hr'
      exact hsource (h.eq ((hmove.others u r hout).mp hr) hmove.before)
  · obtain ⟨q, hq, honly⟩ := h u
    have hout : ∀ r, ¬ (u = v ∧ (r = source ∨ r = target)) := fun _ hr => hu hr.1
    refine ⟨q, (hmove.others u q (hout q)).mpr hq, ?_⟩
    intro r hr
    exact honly r ((hmove.others u r (hout r)).mp hr)

end OnePlace

end

end Pump
