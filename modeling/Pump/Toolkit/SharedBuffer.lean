import Pump.Lts
import Pump.Tally

/-! # shared_buffer

    Handles to reference-counted buffers: `shared_buffer` of
    `toolkit/buffer.h`, with `io_buffer::refer` and `io_buffer::unrefer`. A
    buffer is a number, and a handle points to one or to none. Beside the
    handles there are owners that have a plain pointer with a reference of
    their own. -/

namespace Pump

/-! ## Section 1: Model -/

/-- The buffers `0 .. created - 1` with their `count_`, an `int`, and the
    handles `live` with their `iob_`. `raw` is how many references the owners
    of plain pointers have, and `destroyed` and `aborted` record what
    `unrefer` did. -/
structure SharedBuffers (ι : Type) where
  created : Nat
  count : Nat → BitVec 32
  raw : Nat → Nat
  destroyed : Nat → Bool
  aborted : Bool
  live : Finset ι
  iob : ι → Option Nat

inductive SharedBufferLabel (ι : Type) where
  /-- A new `io_buffer`, with a reference for its owner. -/
  | create
  /-- The owner of a plain pointer calls `refer` or `unrefer`. -/
  | refer (b : Nat)
  | unrefer (b : Nat)
  /-- `shared_buffer(io_buffer *)`, which takes over the reference of the
      owner; without a buffer also `shared_buffer()`. -/
  | adopt (h : ι) (b : Option Nat)
  /-- `shared_buffer(const shared_buffer &)`. -/
  | copy (h from_ : ι)
  /-- `operator=(const shared_buffer &)`. -/
  | assign (h from_ : ι)
  /-- `operator=(io_buffer *)`; the owner keeps its reference. -/
  | assign_raw (h : ι) (b : Option Nat)
  /-- `~shared_buffer`. -/
  | destroy (h : ι)

namespace SharedBuffers

variable {ι : Type} [DecidableEq ι]

/-- No buffers and no handles. -/
def new : SharedBuffers ι := ⟨0, fun _ => 0, fun _ => 0, fun _ => false, false, ∅, fun _ => none⟩

omit [DecidableEq ι] in
/-- `refer`, if the pointer is not null. -/
def refer (s : SharedBuffers ι) : Option Nat → SharedBuffers ι
  | none => s
  | some b => { s with count := Function.update s.count b (s.count b + 1) }

omit [DecidableEq ι] in
/-- `unrefer`, if the pointer is not null. -/
def unrefer (s : SharedBuffers ι) : Option Nat → SharedBuffers ι
  | none => s
  | some b =>
    let c := s.count b
    let s := { s with count := Function.update s.count b (c - 1) }
    if c = 1 then { s with destroyed := Function.update s.destroyed b true }
    else if c.toInt ≤ 0 then { s with aborted := true }
    else s

/-- `iob_ = b` of a handle. -/
def point (s : SharedBuffers ι) (h : ι) (b : Option Nat) : SharedBuffers ι :=
  { s with iob := Function.update s.iob h b }

omit [DecidableEq ι] in
/-- Someone has a reference with a plain pointer; there is nothing to have
    with a null pointer. -/
def Owned (s : SharedBuffers ι) (b : Option Nat) : Prop := ∀ c, b = some c → 0 < s.raw c

instance (s : SharedBuffers ι) : (b : Option Nat) → Decidable (s.Owned b)
  | none => isTrue nofun
  | some c => decidable_of_iff (0 < s.raw c) (by simp [Owned])

/-- The body of both `operator=`, after the comparison with `this`. -/
def assign_to (s : SharedBuffers ι) (h : ι) (b : Option Nat) : SharedBuffers ι :=
  if s.iob h = b then s
  else
    let s := s.unrefer (s.iob h)
    let s := s.point h b
    s.refer b

/-- One operation. -/
def step (s : SharedBuffers ι) : SharedBufferLabel ι → Option (SharedBuffers ι)
  | .create =>
    some
      { s with
        created := s.created + 1
        count := Function.update s.count s.created 1
        raw := Function.update s.raw s.created 1 }
  | .refer b =>
    if 0 < s.raw b then
      some { s.refer (some b) with raw := Function.update s.raw b (s.raw b + 1) }
    else none
  | .unrefer b =>
    if 0 < s.raw b then
      some { s.unrefer (some b) with raw := Function.update s.raw b (s.raw b - 1) }
    else none
  | .adopt h b =>
    if h ∉ s.live ∧ s.Owned b then
      some
        { s.point h b with
          live := insert h s.live
          raw := fun c => s.raw c - points b c }
    else none
  | .copy h from_ =>
    if h ∉ s.live ∧ from_ ∈ s.live then
      some ({ s.point h (s.iob from_) with live := insert h s.live }.refer (s.iob from_))
    else none
  | .assign h from_ =>
    if h ∈ s.live ∧ from_ ∈ s.live then
      some (if h = from_ then s else s.assign_to h (s.iob from_))
    else none
  | .assign_raw h b => if h ∈ s.live ∧ s.Owned b then some (s.assign_to h b) else none
  | .destroy h =>
    if h ∈ s.live then some { s.unrefer (s.iob h) with live := s.live.erase h } else none

omit [DecidableEq ι] in
/-- The references to a buffer: those of plain pointers, and one for each
    handle that points to it. -/
def refs (s : SharedBuffers ι) (b : Nat) : Nat := s.raw b + held s.live s.iob b

/-- The references to each buffer fit into an `int` after the step. -/
def Counted (s : SharedBuffers ι) (l : SharedBufferLabel ι) : Prop :=
  ∀ s', s.step l = some s' → ∀ b, s'.refs b < 2 ^ 31

/-! ## Section 2: Counting -/

variable {s : SharedBuffers ι} {R : Nat → Nat} {h : ι}

omit [DecidableEq ι] in
/-- `count_` is `R`, and what has no reference is destroyed. -/
def Counts (s : SharedBuffers ι) (R : Nat → Nat) : Prop :=
  ∀ b, b < s.created → (s.count b).toInt = R b ∧ (s.destroyed b = true ↔ R b = 0)

omit [DecidableEq ι] in
/-- Neither function touches anything else. -/
theorem refer_frame (s : SharedBuffers ι) (o : Option Nat) :
    (s.refer o).created = s.created ∧ (s.refer o).raw = s.raw ∧ (s.refer o).live = s.live ∧
      (s.refer o).iob = s.iob ∧ (s.refer o).aborted = s.aborted ∧
      (s.refer o).destroyed = s.destroyed := by
  rcases o with _ | b
  · exact ⟨rfl, rfl, rfl, rfl, rfl, rfl⟩
  · exact ⟨rfl, rfl, rfl, rfl, rfl, rfl⟩

omit [DecidableEq ι] in
theorem unrefer_frame (s : SharedBuffers ι) (o : Option Nat) :
    (s.unrefer o).created = s.created ∧ (s.unrefer o).raw = s.raw ∧
      (s.unrefer o).live = s.live ∧ (s.unrefer o).iob = s.iob := by
  rcases o with _ | b
  · exact ⟨rfl, rfl, rfl, rfl⟩
  · unfold unrefer
    dsimp only
    split
    · exact ⟨rfl, rfl, rfl, rfl⟩
    · split
      · exact ⟨rfl, rfl, rfl, rfl⟩
      · exact ⟨rfl, rfl, rfl, rfl⟩

omit [DecidableEq ι] in
/-- One reference more, of a buffer that has one. -/
theorem Counts.refer (hs : s.Counts R) {o : Option Nat}
    (ho : ∀ b, o = some b → 0 < R b ∧ R b + 1 < 2 ^ 31) :
    (s.refer o).Counts fun b => R b + points o b := by
  rcases o with _ | b
  · exact hs
  obtain ⟨hpos, hfits⟩ := ho b rfl
  intro c hc
  by_cases hcb : c = b
  · subst hcb
    obtain ⟨hcount, hgone⟩ := hs c hc
    have hone : points (some c) c = 1 := if_pos rfl
    dsimp only
    rw [hone]
    refine ⟨?_, ?_⟩
    · show (Function.update s.count c (s.count c + 1) c).toInt = _
      rw [Function.update_self, BitVec.toInt_add, hcount]
      -- the count does not wrap around: the references fit into an `int`
      have hsmall : ((R c : Int) + 1).bmod (2 ^ 32) = R c + 1 := by
        apply Int.bmod_eq_of_le
        · omega
        · omega
      exact_mod_cast hsmall
    · show s.destroyed c = true ↔ _
      rw [hgone]
      omega
  · have hzero : points (some b) c = 0 := if_neg fun heq => hcb (Option.some.inj heq).symm
    dsimp only
    rw [hzero, Nat.add_zero]
    show (Function.update s.count b (s.count b + 1) c).toInt = _ ∧ _
    rw [Function.update_of_ne hcb]
    exact hs c hc

omit [DecidableEq ι] in
/-- One reference less. The last one destroys the buffer. -/
theorem Counts.unrefer (hs : s.Counts R) {o : Option Nat}
    (ho : ∀ b, o = some b → b < s.created ∧ 0 < R b) :
    ((s.unrefer o).Counts fun b => R b - points o b) ∧ (s.unrefer o).aborted = s.aborted ∧
      ∀ b, o ≠ some b → (s.unrefer o).destroyed b = s.destroyed b := by
  rcases o with _ | b
  · exact ⟨hs, rfl, fun _ _ => rfl⟩
  obtain ⟨hb, hpos⟩ := ho b rfl
  obtain ⟨hcount, hgone⟩ := hs b hb
  have hone : points (some b) b = 1 := if_pos rfl
  have hzero : ∀ c, c ≠ b → points (some b) c = 0 :=
    fun c hc => if_neg fun heq => hc (Option.some.inj heq).symm
  have hlast : s.count b = 1 ↔ R b = 1 := by
    rw [← BitVec.toInt_inj, hcount]
    exact Nat.cast_eq_one
  have hdown : (s.count b - 1).toInt = (R b - 1 : Nat) := by
    have hrange := BitVec.toInt_lt (x := s.count b)
    rw [BitVec.toInt_sub, hcount]
    have hsmall : ((R b : Int) - 1).bmod (2 ^ 32) = R b - 1 := by
      apply Int.bmod_eq_of_le
      · omega
      · omega
    rw [Nat.cast_sub (by omega)]
    exact_mod_cast hsmall
  unfold SharedBuffers.unrefer
  dsimp only
  by_cases hc : s.count b = 1
  · rw [if_pos hc]
    refine ⟨?_, rfl, ?_⟩
    · intro c hcreated
      by_cases hcb : c = b
      · subst hcb
        dsimp only
        rw [hone, Function.update_self, Function.update_self]
        have := hlast.mp hc
        exact ⟨hdown, by simp [this]⟩
      · dsimp only
        rw [hzero c hcb, Nat.sub_zero, Function.update_of_ne hcb, Function.update_of_ne hcb]
        exact hs c hcreated
    · intro c hne
      exact Function.update_of_ne (fun heq => hne (by rw [heq])) _ _
  · have hmore : R b ≠ 1 := fun heq => hc (hlast.mpr heq)
    -- the count is positive, so this is no abort
    rw [if_neg hc, if_neg (by rw [hcount]; omega)]
    refine ⟨?_, rfl, fun _ _ => rfl⟩
    intro c hcreated
    by_cases hcb : c = b
    · subst hcb
      dsimp only
      rw [hone, Function.update_self, hgone]
      exact ⟨hdown, by omega⟩
    · dsimp only
      rw [hzero c hcb, Nat.sub_zero, Function.update_of_ne hcb]
      exact hs c hcreated

/-! ## Section 3: The invariant -/

omit [DecidableEq ι] in
/-- `count_` counts the references, handles point to buffers that were
    created, and nothing has been done with the others. -/
structure Inv (s : SharedBuffers ι) : Prop where
  counts : s.Counts s.refs
  known : ∀ h ∈ s.live, ∀ b, s.iob h = some b → b < s.created
  unused : ∀ b, s.created ≤ b → s.raw b = 0 ∧ s.destroyed b = false
  safe : s.aborted = false

omit [DecidableEq ι] in
theorem inv_new : Inv (new : SharedBuffers ι) where
  counts := fun b hb => absurd hb (Nat.not_lt_zero b)
  known := nofun
  unused := fun _ _ => ⟨rfl, rfl⟩
  safe := rfl

omit [DecidableEq ι] in
theorem Inv.raw_lt (hs : s.Inv) {b : Nat} (hb : 0 < s.raw b) : b < s.created := by
  by_contra hge
  have := (hs.unused b (not_lt.mp hge)).1
  omega

omit [DecidableEq ι] in
/-- What a handle points to has a reference. -/
theorem Inv.handle (hs : s.Inv) (hh : h ∈ s.live) {b : Nat} (hb : s.iob h = some b) :
    b < s.created ∧ 0 < s.refs b := by
  have := held_pos hh hb
  exact ⟨hs.known h hh b hb, by unfold refs; omega⟩

omit [DecidableEq ι] in
/-- So has what an owner has a plain pointer to. -/
theorem Inv.owned (hs : s.Inv) {o : Option Nat} (ho : s.Owned o) {b : Nat} (hb : o = some b) :
    b < s.created ∧ 0 < s.refs b := by
  have hpos := ho b hb
  exact ⟨hs.raw_lt hpos, by unfold refs; omega⟩

omit [DecidableEq ι] in
theorem Inv.create (hs : s.Inv) :
    Inv
      { s with
        created := s.created + 1
        count := Function.update s.count s.created 1
        raw := Function.update s.raw s.created 1 } := by
  -- no handle can point to a buffer that did not exist
  have hnone : held s.live s.iob s.created = 0 :=
    held_eq_zero fun h hh heq => absurd (hs.known h hh _ heq) (lt_irrefl _)
  constructor
  case counts =>
    intro b hb
    by_cases hbc : b = s.created
    · rw [hbc]
      have hold := hs.unused s.created (le_refl _)
      simp [refs, hnone, hold.2]
    · have hlt : b < s.created := by
        have hb : b < s.created + 1 := hb
        omega
      have hold := hs.counts b hlt
      simpa only [refs, Function.update_of_ne hbc] using hold
  case known => exact fun h hh b hb => Nat.lt_succ_of_lt (hs.known h hh b hb)
  case unused =>
    intro b hb
    have hb : s.created + 1 ≤ b := hb
    have hold := hs.unused b (by omega)
    refine ⟨?_, hold.2⟩
    dsimp only
    rw [Function.update_of_ne (by omega)]
    exact hold.1
  case safe => exact hs.safe

omit [DecidableEq ι] in
theorem points_some (b c : Nat) : points (some b) c = if c = b then 1 else 0 := by
  unfold points
  simp only [Option.some.injEq, eq_comm]

omit [DecidableEq ι] in
theorem Inv.raw_refer (hs : s.Inv) {b : Nat} (hb : 0 < s.raw b) (hfits : s.refs b + 1 < 2 ^ 31) :
    Inv { s.refer (some b) with raw := Function.update s.raw b (s.raw b + 1) } := by
  obtain ⟨hcreated, -, hlive, hiob, haborted, hdestroyed⟩ := s.refer_frame (some b)
  have hcounts := hs.counts.refer (o := some b) fun c hc => by
    cases hc
    exact ⟨by unfold refs; omega, hfits⟩
  have hlt := hs.raw_lt hb
  constructor
  case counts =>
    have hrefs : ∀ c, refs { s.refer (some b) with raw := Function.update s.raw b (s.raw b + 1) } c =
        s.refs c + points (some b) c := by
      intro c
      rw [points_some]
      unfold refs
      dsimp only
      rw [hlive, hiob]
      by_cases hc : c = b
      · rw [hc, Function.update_self, if_pos rfl]
        omega
      · rw [Function.update_of_ne hc, if_neg hc, Nat.add_zero]
    rw [funext hrefs]
    exact hcounts
  case known =>
    dsimp only
    rw [hlive, hiob, hcreated]
    exact hs.known
  case unused =>
    intro c hc
    have hne : c ≠ b := by
      rintro rfl
      exact absurd hlt (not_lt.mpr hc)
    have hold := hs.unused c hc
    dsimp only
    rw [Function.update_of_ne hne, hdestroyed]
    exact hold
  case safe => exact haborted.trans hs.safe

omit [DecidableEq ι] in
theorem Inv.raw_unrefer (hs : s.Inv) {b : Nat} (hb : 0 < s.raw b) :
    Inv { s.unrefer (some b) with raw := Function.update s.raw b (s.raw b - 1) } := by
  obtain ⟨hcreated, -, hlive, hiob⟩ := s.unrefer_frame (some b)
  have hlt := hs.raw_lt hb
  obtain ⟨hcounts, haborted, hdestroyed⟩ := hs.counts.unrefer (o := some b) fun c hc => by
    cases hc
    exact ⟨hlt, by unfold refs; omega⟩
  constructor
  case counts =>
    have hrefs : ∀ c,
        refs { s.unrefer (some b) with raw := Function.update s.raw b (s.raw b - 1) } c =
          s.refs c - points (some b) c := by
      intro c
      rw [points_some]
      unfold refs
      dsimp only
      rw [hlive, hiob]
      by_cases hc : c = b
      · rw [hc, Function.update_self, if_pos rfl]
        omega
      · rw [Function.update_of_ne hc, if_neg hc, Nat.sub_zero]
    rw [funext hrefs]
    exact hcounts
  case known =>
    dsimp only
    rw [hlive, hiob, hcreated]
    exact hs.known
  case unused =>
    intro c hc
    have hle : s.created ≤ c := hcreated ▸ hc
    have hne : c ≠ b := by
      intro heq
      rw [heq] at hle
      exact absurd hlt (not_lt.mpr hle)
    have hold := hs.unused c hle
    dsimp only
    rw [Function.update_of_ne hne, hdestroyed c fun heq => hne (Option.some.inj heq).symm]
    exact hold
  case safe => exact haborted.trans hs.safe

/-- Handles still point to buffers that were created when one of them, or a new
    one, is set to such a buffer. -/
theorem Inv.known_update (hs : s.Inv) {b : Option Nat} (hb : ∀ c, b = some c → c < s.created)
    {h' : ι} (hh' : h' ∈ insert h s.live) {c : Nat} (hc : Function.update s.iob h b h' = some c) :
    c < s.created := by
  by_cases heq : h' = h
  · rw [heq, Function.update_self] at hc
    exact hb c hc
  · rw [Function.update_of_ne heq] at hc
    exact hs.known h' ((Finset.mem_insert.mp hh').resolve_left heq) c hc

/-- The reference goes from the owner to the handle. -/
theorem Inv.adopt (hs : s.Inv) (hh : h ∉ s.live) {b : Option Nat} (hb : s.Owned b) :
    Inv
      { s.point h b with
        live := insert h s.live
        raw := fun c => s.raw c - points b c } := by
  constructor
  case counts =>
    have hrefs : ∀ c,
        refs { s.point h b with live := insert h s.live, raw := fun c => s.raw c - points b c } c =
          s.refs c := by
      intro c
      have hheld := held_insert (f := s.iob) hh b c
      -- the owner has the reference that it gives away
      have hle : points b c ≤ s.raw c := by
        unfold points
        split
        · rename_i heq
          exact hb c heq
        · exact Nat.zero_le _
      show s.raw c - points b c + held (insert h s.live) (Function.update s.iob h b) c = _
      unfold refs
      omega
    rw [funext hrefs]
    exact hs.counts
  case known =>
    intro h' hh' c hc
    exact hs.known_update (fun c hc => (hs.owned hb hc).1) hh' hc
  case unused =>
    intro c hc
    have hold := hs.unused c hc
    refine ⟨?_, hold.2⟩
    dsimp only
    omega
  case safe => exact hs.safe

/-- A handle that points to the same as another one. -/
theorem Inv.copy (hs : s.Inv) (hh : h ∉ s.live) {from_ : ι} (hfrom : from_ ∈ s.live)
    (hfits : ∀ b, s.iob from_ = some b → s.refs b + 1 < 2 ^ 31) :
    Inv ({ s.point h (s.iob from_) with live := insert h s.live }.refer (s.iob from_)) := by
  obtain ⟨t, ht⟩ : ∃ t, t = { s.point h (s.iob from_) with live := insert h s.live } := ⟨_, rfl⟩
  obtain ⟨hcreated, hraw, hlive, hiob, haborted, hdestroyed⟩ := t.refer_frame (s.iob from_)
  have hsame : t.Counts s.refs := by
    rw [ht]
    exact hs.counts
  have hcounts := hsame.refer (o := s.iob from_) fun b hb => ⟨(hs.handle hfrom hb).2, hfits b hb⟩
  rw [← ht]
  constructor
  case counts =>
    have hrefs : ∀ c, (t.refer (s.iob from_)).refs c = s.refs c + points (s.iob from_) c := by
      intro c
      have hheld := held_insert (f := s.iob) hh (s.iob from_) c
      unfold refs
      rw [hraw, hlive, hiob, ht]
      show s.raw c + held (insert h s.live) (Function.update s.iob h (s.iob from_)) c = _
      omega
    rw [funext hrefs]
    exact hcounts
  case known =>
    rw [hlive, hiob, hcreated, ht]
    intro h' hh' c hc
    exact hs.known_update (hs.known from_ hfrom) hh' hc
  case unused =>
    rw [hcreated, hraw, hdestroyed, ht]
    exact hs.unused
  case safe =>
    rw [haborted, ht]
    exact hs.safe

/-- The handle gives up its reference, and it is gone. -/
theorem Inv.destroy (hs : s.Inv) (hh : h ∈ s.live) :
    Inv { s.unrefer (s.iob h) with live := s.live.erase h } := by
  obtain ⟨hcreated, hraw, hlive, hiob⟩ := s.unrefer_frame (s.iob h)
  obtain ⟨hcounts, haborted, hdestroyed⟩ := hs.counts.unrefer (o := s.iob h) fun b hb =>
    hs.handle hh hb
  constructor
  case counts =>
    have hrefs : ∀ c, refs { s.unrefer (s.iob h) with live := s.live.erase h } c =
        s.refs c - points (s.iob h) c := by
      intro c
      have hheld := held_erase hh s.iob c
      unfold refs
      dsimp only
      rw [hraw, hiob]
      omega
    rw [funext hrefs]
    exact hcounts
  case known =>
    dsimp only
    rw [hiob, hcreated]
    exact fun h' hh' => hs.known h' (Finset.mem_of_mem_erase hh')
  case unused =>
    intro c hc
    have hc : s.created ≤ c := hcreated ▸ hc
    dsimp only
    rw [hraw, hdestroyed c fun heq => absurd (hs.known h hh c heq) (not_lt.mpr hc)]
    exact hs.unused c hc
  case safe => exact haborted.trans hs.safe

/-- Both assignments: the old reference is given up, and one is taken to what
    the handle points to then. -/
theorem Inv.assign_to (hs : s.Inv) (hh : h ∈ s.live) {b : Option Nat}
    (hb : ∀ c, b = some c → c < s.created ∧ 0 < s.refs c)
    (hfits : ∀ c, (s.assign_to h b).refs c < 2 ^ 31) : (s.assign_to h b).Inv := by
  unfold SharedBuffers.assign_to at hfits ⊢
  by_cases hsame : s.iob h = b
  · rw [if_pos hsame]
    exact hs
  rw [if_neg hsame] at hfits ⊢
  obtain ⟨hcreated, hraw, hlive, hiob⟩ := s.unrefer_frame (s.iob h)
  obtain ⟨hdown, haborted, hdestroyed⟩ := hs.counts.unrefer (o := s.iob h) fun c hc =>
    hs.handle hh hc
  dsimp only at hfits ⊢
  obtain ⟨t, ht⟩ : ∃ t, t = (s.unrefer (s.iob h)).point h b := ⟨_, rfl⟩
  obtain ⟨hcreated', hraw', hlive', hiob', haborted', hdestroyed'⟩ := t.refer_frame b
  rw [← ht] at hfits ⊢
  have hrefs : ∀ c, (t.refer b).refs c = s.refs c - points (s.iob h) c + points b c := by
    intro c
    have hheld := held_update (f := s.iob) hh b c
    have hle := held_erase hh s.iob c
    unfold refs
    rw [hraw', hlive', hiob', ht]
    show (s.unrefer (s.iob h)).raw c +
      held (s.unrefer (s.iob h)).live (Function.update (s.unrefer (s.iob h)).iob h b) c = _
    rw [hraw, hlive, hiob]
    omega
  have hcounts : t.Counts fun c => s.refs c - points (s.iob h) c := by
    rw [ht]
    exact hdown
  have hup := hcounts.refer (o := b) fun c hc => by
    -- the new buffer is another one than the old one
    have hzero : points (s.iob h) c = 0 := if_neg fun heq => hsame (heq.trans hc.symm)
    have hone : points b c = 1 := if_pos hc
    have hbound := hfits c
    rw [hrefs c, hzero, hone] at hbound
    have hpos := (hb c hc).2
    exact ⟨by omega, by omega⟩
  constructor
  case counts =>
    rw [funext hrefs]
    exact hup
  case known =>
    rw [hlive', hiob', hcreated', ht]
    intro h' hh' c hc
    have hc : Function.update (s.unrefer (s.iob h)).iob h b h' = some c := hc
    have hh' : h' ∈ s.live := hlive ▸ hh'
    show c < (s.unrefer (s.iob h)).created
    rw [hcreated]
    rw [hiob] at hc
    exact hs.known_update (fun c hc => (hb c hc).1) (Finset.mem_insert_of_mem hh') hc
  case unused =>
    intro c hc
    rw [hcreated', ht] at hc
    have hc : s.created ≤ c := hcreated ▸ hc
    rw [hraw', hdestroyed', ht]
    show (s.unrefer (s.iob h)).raw c = 0 ∧ (s.unrefer (s.iob h)).destroyed c = false
    rw [hraw, hdestroyed c fun heq => absurd (hs.known h hh c heq) (not_lt.mpr hc)]
    exact hs.unused c hc
  case safe =>
    rw [haborted', ht]
    exact haborted.trans hs.safe

theorem step_inv {s' : SharedBuffers ι} {l : SharedBufferLabel ι} (hs : s.Inv)
    (hcounted : s.Counted l) (hstep : s.step l = some s') : s'.Inv := by
  have hfits := hcounted s' hstep
  cases l with
  | create =>
    cases hstep
    exact hs.create
  | refer b =>
    simp only [step] at hstep
    split at hstep
    · rename_i hb
      cases hstep
      refine hs.raw_refer hb ?_
      -- the bound is on the references after the step
      have hbound := hfits b
      simp only [refs, SharedBuffers.refer, Function.update_self] at hbound ⊢
      omega
    · cases hstep
  | unrefer b =>
    simp only [step] at hstep
    split at hstep
    · rename_i hb
      cases hstep
      exact hs.raw_unrefer hb
    · cases hstep
  | adopt h b =>
    simp only [step] at hstep
    split at hstep
    · rename_i hok
      cases hstep
      exact hs.adopt hok.1 hok.2
    · cases hstep
  | copy h from_ =>
    simp only [step] at hstep
    split at hstep
    · rename_i hok
      cases hstep
      refine hs.copy hok.1 hok.2 fun b hb => ?_
      have hbound := hfits b
      have hheld := held_insert (f := s.iob) hok.1 (s.iob from_) b
      have hone : points (s.iob from_) b = 1 := if_pos hb
      obtain ⟨-, hraw, hlive, hiob, -, -⟩ :=
        refer_frame { s.point h (s.iob from_) with live := insert h s.live } (s.iob from_)
      unfold refs at hbound ⊢
      rw [hraw, hlive, hiob] at hbound
      simp only [point] at hbound
      omega
    · cases hstep
  | assign h from_ =>
    simp only [step] at hstep
    split at hstep
    · rename_i hok
      split at hstep
      · cases hstep
        exact hs
      · cases hstep
        exact hs.assign_to hok.1 (fun c hc => hs.handle hok.2 hc) hfits
    · cases hstep
  | assign_raw h b =>
    simp only [step] at hstep
    split at hstep
    · rename_i hok
      cases hstep
      exact hs.assign_to hok.1 (fun c hc => hs.owned hok.2 hc) hfits
    · cases hstep
  | destroy h =>
    simp only [step] at hstep
    split at hstep
    · rename_i hok
      cases hstep
      exact hs.destroy hok
    · cases hstep

end SharedBuffers

end Pump
