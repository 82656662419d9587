import Mathlib.Tactic

/-! # Incremental parsers

    A parser called on whatever has arrived takes some of it and keeps a
    state; what it did not take is presented again in front of the next
    segment. -/

namespace Pump

/-- The reply of one call. -/
inductive Reply (σ : Type*) where
  | aborted
  | failed (s : σ)
  | took (n : Nat) (s : σ)
  deriving DecidableEq

namespace Reply

variable {σ τ : Type*}

/-- The reply when `k` elements were taken before. -/
def after (k : Nat) : Reply σ → Reply σ
  | aborted => aborted
  | failed s => failed s
  | took n s => took (k + n) s

def map (f : σ → τ) : Reply σ → Reply τ
  | aborted => aborted
  | failed s => failed (f s)
  | took n s => took n (f s)

def state : Reply σ → Option σ
  | aborted => none
  | failed s => some s
  | took _ s => some s

@[simp] theorem state_after (k : Nat) (r : Reply σ) : (r.after k).state = r.state := by
  cases r <;> rfl

@[simp] theorem state_map (f : σ → τ) (r : Reply σ) : (r.map f).state = r.state.map f := by
  cases r <;> rfl

theorem after_took {k n : Nat} {r : Reply σ} {s : σ} (h : r.after k = took n s) :
    ∃ m, r = took m s ∧ n = k + m := by
  cases r with
  | took m s' =>
    cases h
    exact ⟨m, rfl, rfl⟩
  | _ => cases h

theorem map_took {f : σ → τ} {n : Nat} {r : Reply σ} {t : τ} (h : r.map f = took n t) :
    ∃ s, r = took n s ∧ t = f s := by
  cases r with
  | took m s =>
    cases h
    exact ⟨s, rfl, rfl⟩
  | _ => cases h

/-- There is a state in the reply, and it satisfies `P`. -/
def All (P : σ → Prop) : Reply σ → Prop
  | aborted => False
  | failed s => P s
  | took _ s => P s

instance (P : σ → Prop) [DecidablePred P] (r : Reply σ) : Decidable (r.All P) :=
  match r with
  | aborted => isFalse id
  | failed s => inferInstanceAs (Decidable (P s))
  | took _ s => inferInstanceAs (Decidable (P s))

theorem All.exists_state {P : σ → Prop} {r : Reply σ} (h : r.All P) : ∃ s, r.state = some s ∧ P s := by
  cases r with
  | aborted => exact h.elim
  | failed s => exact ⟨s, rfl, h⟩
  | took n s => exact ⟨s, rfl, h⟩

@[simp] theorem all_after (P : σ → Prop) (k : Nat) (r : Reply σ) :
    (r.after k).All P ↔ r.All P := by
  cases r <;> rfl

@[simp] theorem all_map (P : τ → Prop) (f : σ → τ) (r : Reply σ) :
    (r.map f).All P ↔ r.All (P ∘ f) := by
  cases r <;> rfl

@[simp] theorem after_zero (r : Reply σ) : r.after 0 = r := by
  cases r <;> simp [after]

theorem after_after (j k : Nat) (r : Reply σ) : (r.after k).after j = r.after (j + k) := by
  cases r <;> simp [after, Nat.add_assoc]

@[simp] theorem map_after (f : σ → τ) (k : Nat) (r : Reply σ) :
    (r.after k).map f = (r.map f).after k := by
  cases r <;> rfl

@[simp] theorem map_id (r : Reply σ) : r.map id = r := by
  cases r <;> rfl

theorem map_map {υ : Type*} (g : τ → υ) (f : σ → τ) (r : Reply σ) :
    (r.map f).map g = r.map (g ∘ f) := by
  cases r <;> rfl

end Reply

section

variable {σ α : Type*} (parse : σ → List α → Reply σ)

/-- Present the segments one after the other, `pending` being what is left
    of the earlier ones. -/
def feed : σ → List α → List (List α) → Reply σ
  | s, _, [] => .took 0 s
  | s, pending, seg :: segs =>
    match parse s (pending ++ seg) with
    | .aborted => .aborted
    | .failed s' => .failed s'
    | .took n s' => (feed s' ((pending ++ seg).drop n) segs).after n

theorem feed_single (s : σ) (pending x : List α) :
    feed parse s pending [x] = parse s (pending ++ x) := by
  unfold feed
  cases parse s (pending ++ x) <;> simp [feed, Reply.after]

/-- A call on `x` that can be taken up again when `y` arrives: it leads to
    what one call on both gives. -/
def ResumesAt (s : σ) (x y : List α) : Prop :=
  match parse s x with
  | .aborted => parse s (x ++ y) = .aborted
  | .failed s' => parse s (x ++ y) = .failed s'
  | .took n s' => parse s (x ++ y) = (parse s' (x.drop n ++ y)).after n

variable {parse}

/-- **Segmentation.** When every call resumes, on states with the invariant
    `Inv`, the segments do not matter. -/
theorem feed_eq_parse {Inv : σ → List α → Prop}
    (hinv : ∀ s x y n s', Inv s (x ++ y) → parse s x = .took n s' → Inv s' (x.drop n ++ y))
    (hlaw : ∀ s x y, Inv s (x ++ y) → ResumesAt parse s x y)
    {s : σ} {pending : List α} {segs : List (List α)}
    (hs : Inv s (pending ++ segs.flatten)) (hne : segs ≠ []) :
    feed parse s pending segs = parse s (pending ++ segs.flatten) := by
  induction segs generalizing s pending with
  | nil => exact absurd rfl hne
  | cons seg segs ih =>
    cases segs with
    | nil => simpa using feed_single parse s pending seg
    | cons seg' segs =>
      rw [List.flatten_cons, ← List.append_assoc] at hs ⊢
      have hlaw' := hlaw s (pending ++ seg) _ hs
      unfold ResumesAt at hlaw'
      unfold feed
      cases hcall : parse s (pending ++ seg) with
      | aborted => rw [hcall] at hlaw'; exact hlaw'.symm
      | failed s' => rw [hcall] at hlaw'; exact hlaw'.symm
      | took n s' =>
        rw [hcall] at hlaw'
        rw [hlaw', ← ih (hinv s _ _ n s' hs hcall) (List.cons_ne_nil _ _)]

/-- What every call preserves of a state, the elements to come and the number
    of those taken holds of the reply. -/
theorem feed_invariant {J : σ → List α → Nat → Prop}
    (hstep : ∀ s x y m n s', J s (x ++ y) m → parse s x = .took n s' →
      J s' (x.drop n ++ y) (m + n))
    {s s' : σ} {pending : List α} {segs : List (List α)} {m n : Nat}
    (hs : J s (pending ++ segs.flatten) m) (h : feed parse s pending segs = .took n s') :
    ∃ rest, J s' rest (m + n) := by
  induction segs generalizing s pending m n with
  | nil =>
    cases h
    exact ⟨_, hs⟩
  | cons seg segs ih =>
    rw [List.flatten_cons, ← List.append_assoc] at hs
    unfold feed at h
    cases hcall : parse s (pending ++ seg) with
    | aborted =>
      rw [hcall] at h
      cases h
    | failed s₁ =>
      rw [hcall] at h
      cases h
    | took k s₁ =>
      rw [hcall] at h
      simp only at h
      cases hrest : feed parse s₁ ((pending ++ seg).drop k) segs with
      | aborted =>
        rw [hrest] at h
        cases h
      | failed s₂ =>
        rw [hrest] at h
        cases h
      | took j s₂ =>
        rw [hrest] at h
        cases h
        obtain ⟨rest, hJ⟩ := ih (hstep s _ _ m k s₁ hs hcall) hrest
        exact ⟨rest, by rwa [Nat.add_assoc] at hJ⟩

/-- Two parsers that agree through `f` on the states with the invariant. -/
theorem feed_map {τ : Type*} {parse₁ : σ → List α → Reply σ} (parse₂ : τ → List α → Reply τ)
    (f : σ → τ) {Inv : σ → List α → Prop}
    (hinv : ∀ s x y n s', Inv s (x ++ y) → parse₁ s x = .took n s' → Inv s' (x.drop n ++ y))
    (hsim : ∀ s x y, Inv s (x ++ y) → parse₂ (f s) x = (parse₁ s x).map f)
    {s : σ} {pending : List α} {segs : List (List α)} (hs : Inv s (pending ++ segs.flatten)) :
    feed parse₂ (f s) pending segs = (feed parse₁ s pending segs).map f := by
  induction segs generalizing s pending with
  | nil => rfl
  | cons seg segs ih =>
    rw [List.flatten_cons, ← List.append_assoc] at hs
    unfold feed
    rw [hsim s _ _ hs]
    cases hcall : parse₁ s (pending ++ seg) with
    | aborted => rfl
    | failed s' => rfl
    | took n s' =>
      rw [Reply.map_after, ← ih (hinv s _ _ n s' hs hcall)]
      rfl

end

end Pump
