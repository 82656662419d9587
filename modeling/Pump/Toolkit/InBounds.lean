import Pump.Toolkit.ByteQueue

/-! # Arithmetic of io_buffer

    Every operation of an `io_buffer` at every argument of its type. Where
    no `uint32_t` sum exceeds its type the buffer is a byte queue; here the
    sums may wrap, in `write` and where `shift` negates its argument. -/

namespace Pump

/-- Whether an operation has been refused. -/
def QueueReply.refused : QueueReply → Bool
  | .done ok => !ok
  | .bytes b => b.isNone
  | .shifted size => size = -1
  | .cleared => false

/-- An operation on a buffer with memory of its own or of another. -/
inductive BufferOp where
  | queue (op : QueueOp)
  | reset_by_reference (b : List UInt8)
  deriving DecidableEq, Repr

namespace IoBuffer

/-! ## Section 1: Model -/

/-- `io_buffer::reset_by_reference`; `[]` also stands for the null pointer. -/
def reset_by_reference (iob : IoBuffer) (b : List UInt8) : Option (Bool × IoBuffer) :=
  if iob.alloced then none
  else if b = [] then some (false, iob)
  else some (true, { iob.clear with raw := some b, raw_size := b.length, size := b.length })

/-- With allocations succeeding; `none` is `abort()` or an access outside the
    memory block. -/
def call (iob : IoBuffer) : BufferOp → Option (QueueReply × IoBuffer)
  | .queue op => iob.apply op
  | .reset_by_reference b => (reset_by_reference iob b).map fun r => (.done r.1, r.2)

def step (iob : IoBuffer) (op : BufferOp) : Option IoBuffer := (iob.call op).map Prod.snd

/-- The operation calls `abort()`, which it does before anything else. -/
def aborts (iob : IoBuffer) : BufferOp → Bool
  | .queue (.write _) | .queue (.write_fill _ _) | .queue (.reset_by_copy _) => !iob.alloced
  | .reset_by_reference _ => iob.alloced
  | _ => false

/-- The buffers that the functions `create` give. -/
def New (iob : IoBuffer) : Prop :=
  (∃ q, Created iob q) ∨ ∃ b : List UInt8, b.length < 2 ^ 32 ∧ iob = create_by_reference b

end IoBuffer

/-- The arguments are of their types. -/
def BufferOp.Typed : BufferOp → Prop
  | .queue (.write b) | .queue (.reset_by_copy b) | .reset_by_reference b => b.length < 2 ^ 32
  | .queue (.write_fill _ n) | .queue (.read n) => n < 2 ^ 32
  | .queue (.shift k) => -2 ^ 31 ≤ k ∧ k < 2 ^ 31
  | .queue .read_one | .queue .clear => True

instance : (op : BufferOp) → Decidable op.Typed
  | .queue (.write _) | .queue (.reset_by_copy _) | .reset_by_reference _ =>
    inferInstanceAs (Decidable (_ < _))
  | .queue (.write_fill _ _) | .queue (.read _) => inferInstanceAs (Decidable (_ < _))
  | .queue (.shift _) => inferInstanceAs (Decidable (_ ∧ _))
  | .queue .read_one | .queue .clear => isTrue trivial

namespace IoBuffer

/-- The operation aborts, or is refused and moves nothing, or is completed
    with the window inside the block, which has `raw_size` bytes. What it has
    copied was inside the block. -/
def Safe (iob : IoBuffer) (op : BufferOp) : Prop :=
  iob.aborts op = true ∨ ∃ reply iob', iob.call op = some (reply, iob') ∧
    (iob'.raw.getD []).length = iob'.raw_size ∧
    (reply.refused = true ∧ iob'.size = iob.size ∧ iob'.rpos = iob.rpos ∨
      iob'.rpos + iob'.size ≤ iob'.raw_size)

/-- There is room for `n` bytes: behind the readable ones, or with these at
    the front of the block, or in a block of `3/2` of the sum of its size and
    `n`. That sum may wrap once, and then must leave a block that is large
    enough. -/
def WriteFits (iob : IoBuffer) (n : Nat) : Prop :=
  iob.raw.isSome = true →
    let rpos := if iob.rpos = iob.raw_size then 0 else iob.rpos
    n ≤ iob.raw_size - rpos - iob.size ∨
    n + iob.size < iob.raw_size ∨
    (iob.raw_size + n) / 2 * 3 < 2 ^ 32 ∨
    (2 ^ 32 ≤ iob.raw_size + n ∧ (iob.raw_size + n - 2 ^ 32) / 2 * 3 < 2 ^ 32 ∧
      rpos + iob.size + n ≤ (iob.raw_size + n - 2 ^ 32) / 2 * 3)

instance (iob : IoBuffer) (n : Nat) : Decidable (WriteFits iob n) :=
  inferInstanceAs (Decidable (_ → _ ∨ _ ∨ _ ∨ _))

/-- A write that is not refused has room, and `-2^31`, which has no negative,
    shifts only a window that has `2^31` bytes before it or in it. -/
def Permitted (iob : IoBuffer) : BufferOp → Prop
  | .queue (.write b) => iob.alloced = true → b ≠ [] → WriteFits iob b.length
  | .queue (.write_fill _ n) => iob.alloced = true → n ≠ 0 → WriteFits iob n
  | .queue (.reset_by_copy b) => iob.alloced = true → b ≠ [] → WriteFits iob.clear b.length
  | .queue (.shift k) => k = -2 ^ 31 → 2 ^ 31 ≤ iob.rpos ∨ 2 ^ 31 ≤ iob.size
  | _ => True

instance (iob : IoBuffer) : (op : BufferOp) → Decidable (Permitted iob op)
  | .queue (.write _) => inferInstanceAs (Decidable (_ → _ → _))
  | .queue (.write_fill _ _) => inferInstanceAs (Decidable (_ → _ → _))
  | .queue (.reset_by_copy _) => inferInstanceAs (Decidable (_ → _ → _))
  | .queue (.shift _) => inferInstanceAs (Decidable (_ → _))
  | .queue (.read _) | .queue .read_one | .queue .clear | .reset_by_reference _ => isTrue trivial

/-! ## Section 2: Making room -/

/-- Read position and size of the block after `make_room`. -/
def layout (iob : IoBuffer) (n : Nat) : Nat × Nat :=
  let rpos := if iob.rpos = iob.raw_size then 0 else iob.rpos
  if n ≤ iob.raw_size - rpos - iob.size then (rpos, iob.raw_size)
  else if add32 n iob.size < iob.raw_size then (0, iob.raw_size)
  else (rpos, add32 iob.raw_size n / 2 * 3 % 2 ^ 32)

/-- `make_room` itself stays in the block, whatever its sums are. -/
theorem make_room_layout {iob : IoBuffer} (h : Fits iob) (hraw : iob.raw.isSome = true) (n : Nat) :
    ∃ iob', make_room .succeeding iob n = some (true, iob') ∧ iob'.size = iob.size ∧
      iob'.rpos = (iob.layout n).1 ∧ iob'.raw_size = (iob.layout n).2 := by
  obtain ⟨r, hr, hstart, hclear, hcontent, -⟩ := unwound h
  obtain ⟨block, hblock⟩ := Option.isSome_iff_exists.mp hraw
  have hlen := h.block_length
  have hcap := h.capacity_lt
  rw [hblock, Option.getD_some] at hlen hcontent
  have hfree : sub32 (sub32 iob.raw_size r) iob.size = iob.raw_size - r - iob.size := by
    have h₁ : sub32 iob.raw_size r = iob.raw_size - r := sub32_eq (by omega)
    rw [h₁, sub32_eq (by omega)]
  unfold make_room layout
  rw [hclear]
  simp only [hfree, hstart]
  by_cases hroom : n ≤ iob.raw_size - r - iob.size
  · rw [if_neg (by omega), if_pos hroom]
    exact ⟨_, rfl, rfl, rfl, rfl⟩
  · rw [if_pos (by omega), if_neg hroom]
    by_cases hmove : add32 n iob.size < iob.raw_size
    · -- memmove to the front
      have hl : load block r iob.size = some iob.content := by
        unfold load
        rw [if_pos (by omega), hcontent]
      have hs : ∃ block', store block 0 iob.content = some block' := by
        unfold store
        have := h.content_length
        rw [if_pos (by omega)]
        exact ⟨_, rfl⟩
      obtain ⟨block', hs⟩ := hs
      rw [if_pos hmove, if_pos hmove]
      simp only [hblock, hl, hs, Option.bind_eq_bind, Option.bind_some]
      exact ⟨_, rfl, rfl, rfl, rfl⟩
    · rw [if_neg hmove, if_neg hmove]
      simp only [Alloc.succeeding, if_true]
      exact ⟨_, rfl, rfl, rfl, rfl⟩

/-- The bytes fit behind the readable ones exactly if there was room. -/
theorem writeFits_iff_layout {iob : IoBuffer} {n : Nat} (h : Fits iob) (hraw : iob.raw.isSome = true)
    (hn : n < 2 ^ 32) :
    WriteFits iob n ↔ (iob.layout n).1 + iob.size + n ≤ (iob.layout n).2 := by
  have hwin := h.window
  have hcap := h.capacity_lt
  have hpos := h.block_pos hraw
  obtain ⟨r, hr, hstart, -⟩ := unwound h
  unfold WriteFits layout
  simp only [hraw, forall_const, hstart]
  by_cases hroom : n ≤ iob.raw_size - r - iob.size
  · rw [if_pos hroom]
    exact iff_of_true (Or.inl hroom) (by show r + iob.size + n ≤ iob.raw_size; omega)
  · rw [if_neg hroom]
    by_cases hmove : add32 n iob.size < iob.raw_size
    · -- the sum has wrapped unless it is the sum
      rw [if_pos hmove]
      unfold add32 at hmove
      show _ ↔ 0 + iob.size + n ≤ iob.raw_size
      constructor
      · rintro (hfree | hsum | hgrow | ⟨hwrap, hlt, hle⟩)
        · omega
        · omega
        · omega
        · omega
      · intro hle
        right; left
        omega
    · rw [if_neg hmove]
      unfold add32 at hmove ⊢
      show _ ↔ r + iob.size + n ≤ (iob.raw_size + n) % 2 ^ 32 / 2 * 3 % 2 ^ 32
      obtain ⟨k, hk⟩ : ∃ k, k = (iob.raw_size + n) % 2 ^ 32 := ⟨_, rfl⟩
      rw [← hk]
      constructor
      · rintro (hfree | hsum | hgrow | ⟨hwrap, hlt, hle⟩)
        · omega
        · omega
        · have hsum : k = iob.raw_size + n := by omega
          rw [← hsum] at hgrow
          rw [Nat.mod_eq_of_lt hgrow]
          omega
        · have hsum : k = iob.raw_size + n - 2 ^ 32 := by omega
          rw [← hsum] at hlt hle
          rwa [Nat.mod_eq_of_lt hlt]
      · intro hle
        by_cases hlt : k / 2 * 3 < 2 ^ 32
        · rw [Nat.mod_eq_of_lt hlt] at hle
          by_cases hwrap : iob.raw_size + n < 2 ^ 32
          · have hsum : k = iob.raw_size + n := by omega
            rw [← hsum]
            exact Or.inr (Or.inr (Or.inl hlt))
          · have hsum : k = iob.raw_size + n - 2 ^ 32 := by omega
            rw [← hsum]
            exact Or.inr (Or.inr (Or.inr ⟨by omega, hlt, hle⟩))
        · -- a product that wraps is too small for both blocks
          exfalso
          have hmod : k / 2 * 3 % 2 ^ 32 = k / 2 * 3 - 2 ^ 32 := by omega
          omega

/-! ## Section 3: Each operation -/

/-- `append` stores its bytes if there is a place for them. -/
theorem append_none {iob : IoBuffer} {bytes : List UInt8}
    (hlen : (iob.raw.getD []).length = iob.raw_size)
    (hroom : ¬ iob.rpos + iob.size + bytes.length ≤ iob.raw_size) : append iob bytes = none := by
  unfold append
  rcases hblock : iob.raw with _ | block
  · rfl
  · rw [hblock, Option.getD_some] at hlen
    have hs : store block (iob.rpos + iob.size) bytes = none := by
      unfold store
      rw [if_neg (by omega)]
    simp [hs]

/-- A block of its own, if there was none. -/
theorem write_init {iob : IoBuffer} {n : Nat} (h : Fits iob) (ha : iob.alloced = true)
    (hpos : 0 < n) (hn : n < 2 ^ 32) :
    ∃ iob₁, (if iob.raw.isNone then init_by_alloc .succeeding iob n else some (true, iob)) =
        some (true, iob₁) ∧ Fits iob₁ ∧ iob₁.raw.isSome = true ∧
      (WriteFits iob₁ n ↔ WriteFits iob n) := by
  by_cases hraw : iob.raw.isNone = true
  · obtain ⟨iob₁, h₁, hf₁, -, hraw₁, hroom₁, -, -⟩ := init_by_alloc_fits h ha hraw hpos hn
    refine ⟨iob₁, by rw [if_pos hraw, h₁], hf₁, hraw₁, iff_of_true ?_ ?_⟩
    · intro _
      left
      have hne : iob₁.rpos ≠ iob₁.raw_size := by omega
      rw [if_neg hne]
      omega
    · intro hsome
      rw [Option.isNone_iff_eq_none.mp hraw] at hsome
      cases hsome
  · refine ⟨iob, if_neg hraw, h, ?_, Iff.rfl⟩
    rwa [← Option.not_isSome, Bool.not_eq_true, Bool.not_eq_false'] at hraw

/-- **Write.** It is completed, or it leaves the block. -/
theorem write_outcome {iob : IoBuffer} {b : List UInt8} (h : Fits iob) (ha : iob.alloced = true)
    (hb : b ≠ []) (hlen : b.length < 2 ^ 32) :
    (WriteFits iob b.length → ∃ iob', write .succeeding iob b = some (true, iob') ∧ Fits iob') ∧
    (¬WriteFits iob b.length → write .succeeding iob b = none) := by
  have hpos : 0 < b.length := List.length_pos_iff.mpr hb
  obtain ⟨iob₁, h₁, hf₁, hraw₁, hiff⟩ := write_init h ha hpos hlen
  obtain ⟨iob₂, h₂, hsize₂, hrpos₂, hcap₂⟩ := make_room_layout hf₁ hraw₁ b.length
  obtain ⟨-, hraw₂, hlen₂, hlt₂, -⟩ := make_room_sound hf₁ hraw₁ h₂
  have hwrite : write .succeeding iob b = append iob₂ b := by
    unfold write
    simp only [ha, hb, h₁, h₂, Option.bind_eq_bind, Option.bind_some, Bool.not_true,
      Bool.false_eq_true, if_false]
  rw [← hiff, writeFits_iff_layout hf₁ hraw₁ hlen, ← hsize₂, ← hrpos₂, ← hcap₂, hwrite]
  constructor
  · intro hroom
    have hf₂ : Fits iob₂ := ⟨hlen₂, fun _ => by omega, by omega, hlt₂⟩
    obtain ⟨iob₃, h₃, hf₃, -⟩ := append_fits b hf₂ hraw₂ hroom
    exact ⟨iob₃, h₃, hf₃⟩
  · exact append_none hlen₂

/-- `-2^31` is its own negative, and is never refused. -/
theorem shift_min {iob : IoBuffer} {k : Int} (hk : k = -2 ^ 31) :
    (shift iob k).2 =
      { iob with rpos := ofI32 (iob.rpos + k), size := ofI32 (iob.size - k) } := by
  have hneg : (-k).bmod (2 ^ 32) = k := by
    rw [Int.bmod_def]
    omega
  have hlow : ¬ toI32 iob.rpos < k := by
    unfold toI32
    rw [Int.bmod_def]
    split <;> omega
  unfold shift
  rw [if_neg (by omega), hneg, if_neg hlow]

/-- A shift by another number is refused or moves the window inside the block. -/
theorem shift_moves {iob : IoBuffer} {k : Int} (h : Fits iob) (hlo : -2 ^ 31 < k) (hhi : k < 2 ^ 31) :
    Fits (shift iob k).2 := by
  by_cases ha : iob.alloced = true
  · obtain ⟨q', -, hq⟩ := shift_fits (q := ⟨iob.behind, iob.content⟩)
      ⟨ha, h, rfl, List.suffix_rfl⟩ hlo hhi
    exact hq.fits
  · -- who owns the memory makes no difference
    have howned : Fits { iob with alloced := true } :=
      ⟨h.block_length, h.block_pos, h.window, h.capacity_lt⟩
    obtain ⟨q', -, hq⟩ := shift_fits (q := ⟨iob.behind, iob.content⟩)
      ⟨rfl, howned, rfl, List.suffix_rfl⟩ hlo hhi
    have hf := hq.fits
    have heq : (shift { iob with alloced := true } k).2 =
        { (shift iob k).2 with alloced := true } := by
      unfold shift
      simp only []
      split <;> split <;> rfl
    rw [heq] at hf
    exact ⟨hf.block_length, hf.block_pos, hf.window, hf.capacity_lt⟩

theorem fits_clear {iob : IoBuffer} (h : Fits iob) : Fits iob.clear :=
  ⟨h.block_length, h.block_pos, Nat.zero_le _, h.capacity_lt⟩

theorem write_fill_outcome {iob : IoBuffer} {b : UInt8} {n : Nat} (h : Fits iob)
    (ha : iob.alloced = true) (hn : n ≠ 0) (hlen : n < 2 ^ 32) :
    (WriteFits iob n → ∃ iob', write_fill .succeeding iob b n = some (true, iob') ∧ Fits iob') ∧
    (¬WriteFits iob n → write_fill .succeeding iob b n = none) := by
  have hne : List.replicate n b ≠ [] := by
    rwa [ne_eq, List.replicate_eq_nil_iff]
  have hout := write_outcome (b := List.replicate n b) h ha hne (by rwa [List.length_replicate])
  rw [List.length_replicate, ← write_fill_eq h ha (by omega) hlen] at hout
  exact hout

theorem read_moves {iob : IoBuffer} (h : Fits iob) (n : Nat) :
    ∃ b iob', read iob n = some (b, iob') ∧ Fits iob' := by
  by_cases hn : iob.size < n
  · exact ⟨none, iob, read_short hn, h⟩
  · exact ⟨_, _, read_fits h (by omega), fits_advance h (by omega)⟩

theorem read_one_moves {iob : IoBuffer} (h : Fits iob) :
    ∃ b iob', read_one iob = some (b, iob') ∧ Fits iob' := by
  rcases hc : iob.content with _ | ⟨c, rest⟩
  · have h0 : iob.size = 0 := by rw [← h.content_length, hc]; rfl
    exact ⟨none, iob, read_one_empty h0, h⟩
  · have h1 : 1 ≤ iob.size := by
      rw [← h.content_length, hc, List.length_cons]
      omega
    exact ⟨some c, iob.advance 1, read_one_fits h hc, fits_advance h h1⟩

theorem shift_min_fits {iob : IoBuffer} {k : Int} (h : Fits iob) (hk : k = -2 ^ 31)
    (hfar : 2 ^ 31 ≤ iob.rpos ∨ 2 ^ 31 ≤ iob.size) : Fits (shift iob k).2 := by
  have hwin := h.window
  have hcap := h.capacity_lt
  rw [shift_min hk]
  refine ⟨h.block_length, h.block_pos, ?_, h.capacity_lt⟩
  show ofI32 (iob.rpos + k) + ofI32 (iob.size - k) ≤ iob.raw_size
  unfold ofI32
  rcases hfar with hfar | hfar
  · omega
  · omega

/-! ## Section 4: Any operation -/

/-- What is permitted aborts or keeps the window in the block. -/
theorem call_fits {iob : IoBuffer} {op : BufferOp} (h : Fits iob) (ht : op.Typed)
    (hp : iob.Permitted op) :
    iob.aborts op = true ∨ ∃ reply iob', iob.call op = some (reply, iob') ∧ Fits iob' := by
  rcases ha : iob.aborts op with _ | _
  swap
  · exact Or.inl rfl
  right
  rcases op with (b | ⟨b, n⟩ | n | _ | k | _ | b) | b
  · -- write
    have ha : iob.alloced = true := by simpa [aborts] using ha
    by_cases hb : b = []
    · exact ⟨.done false, iob, by simp [call, apply, write, ha, hb], h⟩
    · obtain ⟨iob', h', hf⟩ := (write_outcome h ha hb ht).1 (hp ha hb)
      exact ⟨.done true, iob', by simp [call, apply, h'], hf⟩
  · -- write_fill
    have ha : iob.alloced = true := by simpa [aborts] using ha
    by_cases hn : n = 0
    · exact ⟨.done false, iob, by simp [call, apply, write_fill, ha, hn], h⟩
    · obtain ⟨iob', h', hf⟩ := (write_fill_outcome (b := b) h ha hn ht).1 (hp ha hn)
      exact ⟨.done true, iob', by simp [call, apply, h'], hf⟩
  · obtain ⟨b, iob', h', hf⟩ := read_moves h n
    exact ⟨.bytes b, iob', by simp [call, apply, h'], hf⟩
  · obtain ⟨b, iob', h', hf⟩ := read_one_moves h
    exact ⟨.bytes (b.map fun c => [c]), iob', by simp [call, apply, h'], hf⟩
  · -- shift
    refine ⟨_, _, rfl, ?_⟩
    by_cases hk : k = -2 ^ 31
    · exact shift_min_fits h hk (hp hk)
    · have hlo : -2 ^ 31 ≤ k := ht.1
      exact shift_moves h (by omega) ht.2
  · exact ⟨.cleared, iob.clear, rfl, fits_clear h⟩
  · -- reset_by_copy
    have ha : iob.alloced = true := by simpa [aborts] using ha
    by_cases hb : b = []
    · exact ⟨.done false, iob, by simp [call, apply, reset_by_copy, ha, hb], h⟩
    · obtain ⟨iob', h', hf⟩ := (write_outcome (fits_clear h) ha hb ht).1 (hp ha hb)
      exact ⟨.done true, iob', by simp [call, apply, reset_by_copy, ha, hb, h'], hf⟩
  · -- reset_by_reference
    have ha : iob.alloced = false := ha
    by_cases hb : b = []
    · exact ⟨.done false, iob, by simp [call, reset_by_reference, ha, hb], h⟩
    · refine ⟨.done true, { iob.clear with raw := some b, raw_size := b.length, size := b.length },
        by simp [call, reset_by_reference, ha, hb], rfl, fun _ => List.length_pos_iff.mpr hb, ?_, ht⟩
      show 0 + b.length ≤ b.length
      omega

/-- What is not permitted leaves the block, or moves the window out of it. -/
theorem not_safe {iob : IoBuffer} {op : BufferOp} (h : Fits iob) (ht : op.Typed)
    (hp : ¬ iob.Permitted op) : ¬ Safe iob op := by
  have hwin := h.window
  have hcap := h.capacity_lt
  rintro (ha | ⟨reply, iob', hcall, -, hend⟩)
  · rcases op with (b | ⟨b, n⟩ | n | _ | k | _ | b) | b
    all_goals simp_all [aborts, Permitted]
  · rcases op with (b | ⟨b, n⟩ | n | _ | k | _ | b) | b
    · simp only [Permitted, Classical.not_imp] at hp
      obtain ⟨ha, hb, hn⟩ := hp
      simp [call, apply, (write_outcome h ha hb ht).2 hn] at hcall
    · simp only [Permitted, Classical.not_imp] at hp
      obtain ⟨ha, hn, hfit⟩ := hp
      simp [call, apply, (write_fill_outcome h ha hn ht).2 hfit] at hcall
    · exact hp trivial
    · exact hp trivial
    · simp only [Permitted, Classical.not_imp, not_or, not_le] at hp
      obtain ⟨hk, hrpos, hsize⟩ := hp
      -- both halves of the window go up by 2^31
      have hiob' : iob' = (shift iob k).2 := by
        cases hcall
        rfl
      rw [shift_min hk] at hiob'
      subst hiob'
      simp only [ofI32] at hend
      omega
    · exact hp trivial
    · simp only [Permitted, Classical.not_imp] at hp
      obtain ⟨ha, hb, hn⟩ := hp
      have hout := (write_outcome (fits_clear h) ha hb ht).2 hn
      simp [call, apply, reset_by_copy, ha, hb, hout] at hcall
    · exact hp trivial

theorem new_fits {iob : IoBuffer} (h : New iob) : Fits iob := by
  rcases h with ⟨q, h⟩ | ⟨b, hb, rfl⟩
  · exact (represents_created h).fits
  · unfold create_by_reference
    split
    · next hpos => exact ⟨rfl, fun _ => hpos, by simp [construct], hb⟩
    · exact (wf_construct false).fits

/-- The calls of a run whose arguments are permitted. -/
def Careful (iob : IoBuffer) (op : BufferOp) : Prop := op.Typed ∧ iob.Permitted op

instance (iob : IoBuffer) (op : BufferOp) : Decidable (Careful iob op) :=
  inferInstanceAs (Decidable (_ ∧ _))

/-- There is no state after `abort()`. -/
theorem call_of_aborts {iob : IoBuffer} {op : BufferOp} (h : aborts iob op = true) :
    iob.call op = none := by
  cases op with
  | reset_by_reference b =>
    replace h : iob.alloced = true := h
    show (reset_by_reference iob b).map _ = none
    rw [reset_by_reference, if_pos h]
    rfl
  | queue op =>
    cases op with
    | read | read_one | shift | clear => cases h
    | write b =>
      replace h : (!iob.alloced) = true := h
      show (write .succeeding iob b).map _ = none
      rw [write, if_pos h]
      rfl
    | write_fill b count =>
      replace h : (!iob.alloced) = true := h
      show (write_fill .succeeding iob b count).map _ = none
      rw [write_fill, if_pos h]
      rfl
    | reset_by_copy b =>
      replace h : (!iob.alloced) = true := h
      show (reset_by_copy .succeeding iob b).map _ = none
      rw [reset_by_copy, if_pos h]
      rfl

/-- The invariant of such runs. -/
theorem run_fits {new iob : IoBuffer} (hnew : New new) (h : Reachable step Careful new iob) :
    Fits iob := by
  refine h.invariant (I := Fits) (new_fits hnew) ?_
  intro iob op iob' hf hok hs
  obtain ⟨r, hcall, hr⟩ := Option.map_eq_some_iff.mp hs
  rcases call_fits hf hok.1 hok.2 with habort | ⟨reply, iob₁, hcall₁, hf₁⟩
  · rw [call_of_aborts habort] at hcall
    cases hcall
  · rw [hcall₁] at hcall
    cases hcall
    exact hr ▸ hf₁

/-- **Arithmetic of io_buffer.** In every run of permitted calls, a call at
    arguments of its types is safe exactly if it is permitted. -/
theorem run_safe_iff {new iob : IoBuffer} {op : BufferOp} (hnew : New new)
    (h : Reachable step Careful new iob) (ht : op.Typed) : Safe iob op ↔ iob.Permitted op := by
  have hf := run_fits hnew h
  constructor
  · intro hsafe
    by_contra hp
    exact not_safe hf ht hp hsafe
  · intro hp
    rcases call_fits hf ht hp with habort | ⟨reply, iob', hcall, hf'⟩
    · exact Or.inl habort
    · exact Or.inr ⟨reply, iob', hcall, hf'.block_length, Or.inr hf'.window⟩

theorem new_empty : New (construct true) := Or.inl ⟨⟨[], []⟩, Or.inl ⟨0, by decide, rfl, rfl⟩⟩

/-- Four bytes written, one read and put back, and a fifth, which has room in
    a larger block. -/
theorem run_safe_five :
    ∃ iob, Reachable step Careful (construct true) iob ∧
      (Safe iob (.queue (.write [5])) ↔ iob.Permitted (.queue (.write [5]))) := by
  have hrun : exec step (construct true)
      [.queue (.write [1, 2, 3, 4]), .queue (.read 1), .queue (.shift (-1))] =
      some ⟨true, some [1, 2, 3, 4], 4, 4, 0⟩ := by decide
  have h : Reachable step Careful (construct true) _ := Reachable.of_exec hrun (by decide)
  exact ⟨_, h, run_safe_iff new_empty h (by decide)⟩

/-- `shift` by `-2^31` takes the window of a buffer of four bytes to the offset
    `2^31`. A write of `2^32 - 1` bytes behind one byte finds the sum of the
    sizes to be `0`, and copies them behind the byte in the block of one. -/
theorem not_run_safe :
    New (construct true) ∧
    (∃ iob, Reachable step (fun _ op => op.Typed) (construct true) iob ∧
      ¬ Safe iob (.queue (.shift (-2 ^ 31)))) ∧
    ∃ iob b, Reachable step (fun _ op => op.Typed) (construct true) iob ∧
      b.length = 2 ^ 32 - 1 ∧ ¬ Safe iob (.queue (.write b)) := by
  refine ⟨new_empty, ?_, ?_⟩
  · have hrun : exec step (construct true) [.queue (.write [1, 2, 3, 4])] =
        some ⟨true, some [1, 2, 3, 4], 4, 4, 0⟩ := by decide
    refine ⟨_, Reachable.of_exec hrun (by decide), ?_⟩
    exact not_safe ⟨rfl, fun _ => by decide, by decide, by decide⟩ (by decide) (by decide)
  · have hrun : exec step (construct true) [.queue (.write [1])] =
        some ⟨true, some [1], 1, 1, 0⟩ := by decide
    obtain ⟨b, hb⟩ : ∃ b : List UInt8, b.length = 2 ^ 32 - 1 :=
      ⟨List.replicate (2 ^ 32 - 1) 0, List.length_replicate⟩
    refine ⟨_, b, Reachable.of_exec hrun (by decide), hb, ?_⟩
    apply not_safe ⟨rfl, fun _ => by decide, by decide, by decide⟩
    · show b.length < 2 ^ 32
      omega
    · intro hp
      have hne : b ≠ [] := by
        rintro rfl
        cases hb
      have hfit := hp rfl hne rfl
      simp only [hb] at hfit
      omega

end IoBuffer

end Pump
