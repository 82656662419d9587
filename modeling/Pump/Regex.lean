import Mathlib.Tactic

/-! # Regular expressions

    Backtracking in the order of ECMAScript: the first alternative before the
    second, an optional part before its absence, a longer repetition before a
    shorter one. A repetition is of single elements of a class. Groups record
    the text they matched. -/

namespace Pump

/-! ## Section 1: Matching -/

inductive Regex (α : Type*) where
  | empty
  | one (P : α → Bool)
  | many (P : α → Bool)
  | upto (n : Nat) (P : α → Bool)
  | seq (r s : Regex α)
  | alt (r s : Regex α)
  | opt (r : Regex α)
  | group (k : Nat) (r : Regex α)

/-- The groups that took part in a match, with their texts. -/
abbrev Captures (α : Type*) := List (Nat × List α)

/-- One way to match: the text taken, what is left, and the groups. -/
structure Found (α : Type*) where
  text : List α
  rest : List α
  caps : Captures α

namespace Regex

variable {α : Type*}

/-- The word itself. -/
def word [DecidableEq α] : List α → Regex α
  | [] => empty
  | c :: cs => seq (one (· = c)) (word cs)

/-- Up to `n` elements, the most of them first. -/
def greedy (n : Nat) (s : List α) : List (Found α) :=
  (List.range (n + 1)).reverse.map fun k => ⟨s.take k, s.drop k, []⟩

/-- The ways to match a start of `s`, in the order they are tried. -/
def run : Regex α → List α → List (Found α)
  | empty, s => [⟨[], s, []⟩]
  | one _, [] => []
  | one P, c :: s => if P c then [⟨[c], s, []⟩] else []
  | many P, s => greedy (s.takeWhile P).length s
  | upto n P, s => greedy (min n (s.takeWhile P).length) s
  | seq r r', s => (run r s).flatMap fun f =>
      (run r' f.rest).map fun f' => ⟨f.text ++ f'.text, f'.rest, f.caps ++ f'.caps⟩
  | alt r r', s => run r s ++ run r' s
  | opt r, s => run r s ++ [⟨[], s, []⟩]
  | group k r, s => (run r s).map fun f => { f with caps := (k, f.text) :: f.caps }

/-- `regex_match`: the groups of the first way that takes all of `s`. -/
def regex_match (r : Regex α) (s : List α) : Option (Captures α) :=
  ((run r s).find? fun f => f.rest.isEmpty).map (·.caps)

/-! ## Section 2: What is matched

    Without looking around, whether a text is matched does not depend on what
    follows it. -/

/-- The expression matches the text, with these groups. -/
def Parses : Regex α → List α → Captures α → Prop
  | empty, s, caps => s = [] ∧ caps = []
  | one P, s, caps => (∃ c, s = [c] ∧ P c = true) ∧ caps = []
  | many P, s, caps => (∀ c ∈ s, P c = true) ∧ caps = []
  | upto n P, s, caps => s.length ≤ n ∧ (∀ c ∈ s, P c = true) ∧ caps = []
  | seq r r', s, caps => ∃ s₁ s₂ caps₁ caps₂, s = s₁ ++ s₂ ∧ caps = caps₁ ++ caps₂ ∧
      Parses r s₁ caps₁ ∧ Parses r' s₂ caps₂
  | alt r r', s, caps => Parses r s caps ∨ Parses r' s caps
  | opt r, s, caps => Parses r s caps ∨ (s = [] ∧ caps = [])
  | group k r, s, caps => ∃ caps', caps = (k, s) :: caps' ∧ Parses r s caps'

theorem parses_word_iff [DecidableEq α] {w s : List α} {caps : Captures α} :
    Parses (word w) s caps ↔ s = w ∧ caps = [] := by
  induction w generalizing s caps with
  | nil => exact Iff.rfl
  | cons c w ih =>
    constructor
    · rintro ⟨s₁, s₂, caps₁, caps₂, rfl, rfl, ⟨⟨d, rfl, hd⟩, rfl⟩, hw⟩
      obtain ⟨rfl, rfl⟩ := ih.mp hw
      rw [of_decide_eq_true hd]
      exact ⟨rfl, rfl⟩
    · rintro ⟨rfl, rfl⟩
      exact ⟨[c], w, [], [], rfl, rfl, ⟨⟨c, rfl, decide_eq_true rfl⟩, rfl⟩, ih.mpr ⟨rfl, rfl⟩⟩

theorem mem_greedy_iff {n : Nat} {s : List α} (hn : n ≤ s.length) {f : Found α} :
    f ∈ greedy n s ↔ s = f.text ++ f.rest ∧ f.text.length ≤ n ∧ f.caps = [] := by
  unfold greedy
  rw [List.mem_map]
  constructor
  · rintro ⟨k, hk, rfl⟩
    rw [List.mem_reverse, List.mem_range] at hk
    refine ⟨(List.take_append_drop k s).symm, ?_, rfl⟩
    rw [List.length_take]
    omega
  · obtain ⟨text, rest, caps⟩ := f
    rintro ⟨hs, hlen, hcaps⟩
    simp only at hs hlen hcaps
    subst hs hcaps
    refine ⟨text.length, ?_, ?_⟩
    · rw [List.mem_reverse, List.mem_range]
      omega
    · rw [List.take_left, List.drop_left]

/-- A start of `s` is in the class when it is no longer than the longest. -/
theorem length_le_takeWhile_iff {P : α → Bool} (text rest : List α) :
    text.length ≤ ((text ++ rest).takeWhile P).length ↔ ∀ c ∈ text, P c = true := by
  induction text with
  | nil => simp
  | cons c text ih =>
    rw [List.cons_append, List.forall_mem_cons]
    by_cases hc : P c = true
    · rw [List.takeWhile_cons_of_pos hc, List.length_cons, List.length_cons,
        Nat.add_le_add_iff_right, ih]
      simp [hc]
    · rw [List.takeWhile_cons_of_neg hc]
      simp [hc]

/-- **Backtracking finds exactly what the expression matches.** -/
theorem mem_run_iff {r : Regex α} {s : List α} {f : Found α} :
    f ∈ run r s ↔ s = f.text ++ f.rest ∧ Parses r f.text f.caps := by
  induction r generalizing s f with
  | empty =>
    obtain ⟨text, rest, caps⟩ := f
    simp only [run, Parses, List.mem_singleton, Found.mk.injEq]
    constructor
    · rintro ⟨rfl, rfl, rfl⟩
      exact ⟨rfl, rfl, rfl⟩
    · rintro ⟨rfl, rfl, rfl⟩
      exact ⟨rfl, rfl, rfl⟩
  | one P =>
    obtain ⟨text, rest, caps⟩ := f
    simp only [Parses]
    cases s with
    | nil =>
      simp only [run, List.not_mem_nil, false_iff]
      rintro ⟨hs, ⟨c, rfl, -⟩, -⟩
      cases hs
    | cons d s =>
      unfold run
      constructor
      · intro hf
        split at hf
        · next hd =>
          cases List.mem_singleton.mp hf
          exact ⟨rfl, ⟨d, rfl, hd⟩, rfl⟩
        · cases hf
      · rintro ⟨hs, ⟨c, rfl, hc⟩, rfl⟩
        cases hs
        rw [if_pos hc]
        exact List.mem_singleton_self _
  | many P =>
    -- the run takes any part of the longest match, and so does `Parses`
    unfold run Parses
    rw [mem_greedy_iff (List.takeWhile_prefix P).length_le]
    apply and_congr_right
    rintro rfl
    rw [length_le_takeWhile_iff]
  | upto n P =>
    have hle := (List.takeWhile_prefix (l := s) P).length_le
    unfold run Parses
    rw [mem_greedy_iff (by omega)]
    apply and_congr_right
    rintro rfl
    rw [Nat.le_min, length_le_takeWhile_iff, and_assoc]
  | seq r r' ih ih' =>
    obtain ⟨text, rest, caps⟩ := f
    unfold run Parses
    simp only [List.mem_flatMap, List.mem_map, ih, ih', Found.mk.injEq]
    constructor
    · rintro ⟨f₁, ⟨rfl, h₁⟩, f₂, ⟨hrest, h₂⟩, rfl, rfl, rfl⟩
      exact ⟨by rw [hrest, List.append_assoc], _, _, _, _, rfl, rfl, h₁, h₂⟩
    · rintro ⟨rfl, s₁, s₂, caps₁, caps₂, rfl, rfl, h₁, h₂⟩
      exact ⟨⟨s₁, s₂ ++ rest, caps₁⟩, ⟨by rw [List.append_assoc], h₁⟩,
        ⟨s₂, rest, caps₂⟩, ⟨rfl, h₂⟩, rfl, rfl, rfl⟩
  | alt r r' ih ih' =>
    unfold run Parses
    rw [List.mem_append, ih, ih', and_or_left]
  | opt r ih =>
    -- the empty match comes after all the others
    obtain ⟨text, rest, caps⟩ := f
    unfold run Parses
    rw [List.mem_append, ih, List.mem_singleton, Found.mk.injEq, and_or_left]
    apply or_congr_right
    constructor
    · rintro ⟨rfl, rfl, rfl⟩
      exact ⟨rfl, rfl, rfl⟩
    · rintro ⟨rfl, rfl, rfl⟩
      exact ⟨rfl, rfl, rfl⟩
  | group k r ih =>
    obtain ⟨text, rest, caps⟩ := f
    unfold run Parses
    simp only [List.mem_map, ih, Found.mk.injEq]
    constructor
    · rintro ⟨f, ⟨rfl, hf⟩, rfl, rfl, rfl⟩
      exact ⟨rfl, f.caps, rfl, hf⟩
    · rintro ⟨rfl, caps', rfl, hf⟩
      exact ⟨⟨text, rest, caps'⟩, ⟨rfl, hf⟩, rfl, rfl, rfl⟩

/-! ## Section 3: Whole matches -/

theorem regex_match_parses {r : Regex α} {s : List α} {caps : Captures α}
    (h : regex_match r s = some caps) : Parses r s caps := by
  unfold regex_match at h
  obtain ⟨f, hfind, rfl⟩ := Option.map_eq_some_iff.mp h
  have hrest : f.rest = [] :=
    List.isEmpty_iff.mp (List.find?_some (p := fun f : Found α => f.rest.isEmpty) hfind)
  obtain ⟨hs, hparses⟩ := mem_run_iff.mp (List.mem_of_find?_eq_some hfind)
  rw [hrest, List.append_nil] at hs
  rwa [hs]

/-- A whole match is found when there is one. -/
theorem exists_regex_match {r : Regex α} {s : List α} {caps : Captures α} (h : Parses r s caps) :
    ∃ caps', regex_match r s = some caps' := by
  have hmem : (⟨s, [], caps⟩ : Found α) ∈ run r s :=
    mem_run_iff.mpr ⟨(List.append_nil s).symm, h⟩
  have hfind : ((run r s).find? fun f => f.rest.isEmpty).isSome :=
    List.find?_isSome.mpr ⟨_, hmem, rfl⟩
  obtain ⟨f, hf⟩ := Option.isSome_iff_exists.mp hfind
  exact ⟨f.caps, by unfold regex_match; rw [hf]; rfl⟩

/-- **An optional start.** It is left out only when the rest does not match
    behind it. -/
theorem regex_match_seq_opt (r r' : Regex α) (s : List α) :
    regex_match (seq (opt r) r') s = (regex_match (seq r r') s).or (regex_match r' s) := by
  have hrun : run (seq (opt r) r') s = run (seq r r') s ++ run r' s := by
    have hseq : ∀ q : Regex α, run (seq q r') s = (run q s).flatMap fun f =>
        (run r' f.rest).map fun f' => ⟨f.text ++ f'.text, f'.rest, f.caps ++ f'.caps⟩ := by
      intro q
      rw [run]
    have hopt : run (opt r) s = run r s ++ [⟨[], s, []⟩] := by rw [run]
    rw [hseq, hseq, hopt, List.flatMap_append, List.flatMap_singleton]
    congr 1
    exact List.map_id _
  unfold regex_match
  rw [hrun, List.find?_append, Option.map_or]

end Regex

end Pump
