import Mathlib.Tactic

/-! # Runs of a step function

    A component is a state type and a partial step function over labels. A
    run may be restricted to steps that meet a condition on the state before
    the step and the label. -/

namespace Pump

/-! A concrete run is of one, two or three threads. -/

instance one_thread : NeZero 1 := ⟨Nat.one_ne_zero⟩

instance two_threads : NeZero 2 := ⟨Nat.succ_ne_zero 1⟩

instance three_threads : NeZero 3 := ⟨Nat.succ_ne_zero 2⟩

section

variable {σ Λ : Type*} (step : σ → Λ → Option σ)

/-- The state after the labels, if every step is enabled. -/
def exec : σ → List Λ → Option σ
  | s, [] => some s
  | s, l :: ls => (step s l).bind fun s' => exec s' ls

theorem exec_append (s : σ) (ls ls' : List Λ) :
    exec step s (ls ++ ls') = (exec step s ls).bind fun s' => exec step s' ls' := by
  induction ls generalizing s with
  | nil => rfl
  | cons l ls ih =>
    rw [List.cons_append, exec, exec]
    rcases step s l with _ | s'
    · rfl
    · exact ih s'

variable (ok : σ → Λ → Prop)

/-- The states of the runs from `init` whose steps all meet `ok`. -/
inductive Reachable (init : σ) : σ → Prop
  | init : Reachable init init
  | step {s s' : σ} {l : Λ} : Reachable init s → ok s l → step s l = some s' →
      Reachable init s'

/-- Every step of the labels meets `ok`. -/
def Meets : σ → List Λ → Prop
  | _, [] => True
  | s, l :: ls => ok s l ∧ match step s l with
    | none => True
    | some s' => Meets s' ls

instance Meets.decidable [∀ s l, Decidable (ok s l)] :
    (s : σ) → (ls : List Λ) → Decidable (Meets step ok s ls)
  | _, [] => isTrue trivial
  | s, l :: ls =>
    match h : step s l with
    | none => decidable_of_iff (ok s l) (by simp [Meets, h])
    | some s' =>
      have := Meets.decidable s' ls
      decidable_of_iff (ok s l ∧ Meets step ok s' ls) (by simp [Meets, h])

end

/-- No restriction on the steps. -/
def AnyStep {σ Λ : Type*} : σ → Λ → Prop := fun _ _ => True

theorem meets_anyStep {σ Λ : Type*} (step : σ → Λ → Option σ) (s : σ) (ls : List Λ) :
    Meets step AnyStep s ls := by
  induction ls generalizing s with
  | nil => trivial
  | cons l ls ih =>
    refine ⟨trivial, ?_⟩
    rcases step s l with _ | s'
    · trivial
    · exact ih s'

namespace Reachable

variable {σ Λ : Type*} {step : σ → Λ → Option σ} {ok : σ → Λ → Prop} {init s s' : σ}

/-- **Invariant rule.** -/
theorem invariant {I : σ → Prop} (hinit : I init)
    (hstep : ∀ s l s', I s → ok s l → step s l = some s' → I s')
    (h : Reachable step ok init s) : I s := by
  induction h with
  | init => exact hinit
  | step _ hok hs ih => exact hstep _ _ _ ih hok hs

/-- A run can be taken further. -/
theorem trans {mid : σ} (h : Reachable step ok init mid) (h' : Reachable step ok mid s) :
    Reachable step ok init s := by
  induction h' with
  | init => exact h
  | step _ hok hs ih => exact .step ih hok hs

/-- A condition may be weakened. -/
theorem mono {ok' : σ → Λ → Prop} (hok : ∀ s l, ok s l → ok' s l)
    (h : Reachable step ok init s) : Reachable step ok' init s := by
  induction h with
  | init => exact .init
  | step _ hl hs ih => exact .step ih (hok _ _ hl) hs

theorem of_exec {ls : List Λ} (hexec : exec step init ls = some s) (hok : Meets step ok init ls) :
    Reachable step ok init s := by
  induction ls generalizing init with
  | nil =>
    cases hexec
    exact .init
  | cons l ls ih =>
    obtain ⟨mid, hstep, hrest⟩ := Option.bind_eq_some_iff.mp hexec
    obtain ⟨hl, hls⟩ := hok
    rw [hstep] at hls
    exact trans (.step .init hl hstep) (ih hrest hls)

end Reachable

end Pump
