import Pump.Toolkit.InBounds

/-! # io_buffer when memory runs out

    Each allocation of each call may give the null pointer. A write then has
    to be refused with the readable bytes as they were, or to find room
    without the new memory.

    The allocators are functions of C: they throw nothing, and the handlers
    around them in the source are never entered. -/

namespace Pump

/-- Nothing is allocated but the object. -/
def Alloc.starved : Alloc := ⟨true, false, false⟩

namespace IoBuffer

/-! ## Section 1: Model -/

/-- An operation, with the outcome of the allocations it makes. -/
def call_with (a : Alloc) (iob : IoBuffer) : BufferOp → Option (QueueReply × IoBuffer)
  | .queue (.write b) => (write a iob b).map fun r => (.done r.1, r.2)
  | .queue (.write_fill b count) => (write_fill a iob b count).map fun r => (.done r.1, r.2)
  | .queue (.reset_by_copy b) => (reset_by_copy a iob b).map fun r => (.done r.1, r.2)
  | op => iob.call op

def step_with (iob : IoBuffer) (l : Alloc × BufferOp) : Option IoBuffer :=
  (iob.call_with l.1 l.2).map Prod.snd

/-- What the functions `create` give, whatever their allocations did. -/
def Made (iob : IoBuffer) : Prop :=
  (∃ a, ∃ size < 2 ^ 32, create a size = some (some iob)) ∨
  (∃ a, ∃ b : List UInt8, b.length < 2 ^ 32 ∧ create_by_copy a b = some (some iob)) ∨
  ∃ b : List UInt8, b.length < 2 ^ 32 ∧ iob = create_by_reference b

/-- A write of `bytes` has returned: `true`, and they are behind the readable
    bytes, or `false`, and these are what they were. -/
def Extends (iob : IoBuffer) (bytes : List UInt8) (r : Option (Bool × IoBuffer)) : Prop :=
  ∃ ok iob', r = some (ok, iob') ∧
    (ok = true ∧ iob'.content = iob.content ++ bytes ∧ iob'.rpos + iob'.size ≤ iob'.raw_size ∨
      ok = false ∧ iob'.content = iob.content)

/-- The write an operation makes, if any and if it does not abort.
    `reset_by_copy` writes to the cleared buffer. -/
def Intact (a : Alloc) (iob : IoBuffer) (op : BufferOp) : Prop :=
  iob.aborts op = true ∨
  match op with
  | .queue (.write b) => Extends iob b (write a iob b)
  | .queue (.write_fill b n) => Extends iob (List.replicate n b) (write_fill a iob b n)
  | .queue (.reset_by_copy b) => Extends iob.clear b (write a iob.clear b)
  | _ => True

/-- `create` gives null or a buffer of the capacity asked for. -/
def Capable (a : Alloc) (size : Nat) : Prop :=
  create a size = some none ∨ ∃ iob, create a size = some (some iob) ∧ iob.raw_size = size

/-- A write of `n` bytes to a buffer with a block asks for a larger one. -/
def Grows (iob : IoBuffer) (n : Nat) : Prop :=
  let rpos := if iob.rpos = iob.raw_size then 0 else iob.rpos
  ¬ n ≤ iob.raw_size - rpos - iob.size ∧ ¬ add32 n iob.size < iob.raw_size

instance (iob : IoBuffer) (n : Nat) : Decidable (Grows iob n) :=
  inferInstanceAs (Decidable (_ ∧ _))

/-- With a block, a larger one is asked for and refused, or there is room. -/
def BlockServes (a : Alloc) (iob : IoBuffer) (n : Nat) : Prop :=
  iob.Grows n ∧ a.realloc = false ∨ iob.WriteFits n

instance (a : Alloc) (iob : IoBuffer) (n : Nat) : Decidable (BlockServes a iob n) :=
  inferInstanceAs (Decidable (_ ∨ _))

/-- `write` of `n` bytes. Without a block, it goes on when `pump_malloc` gives
    null, and `pump_realloc` gives null too or enough. -/
def WriteServes (a : Alloc) (iob : IoBuffer) (n : Nat) : Prop :=
  if iob.raw.isSome = true then BlockServes a iob n
  else a.malloc = true ∨ a.realloc = false ∨ 2 ≤ n ∧ n / 2 * 3 < 2 ^ 32

instance (a : Alloc) (iob : IoBuffer) (n : Nat) : Decidable (WriteServes a iob n) :=
  inferInstanceAs (Decidable (ite _ _ _))

/-- `write` of one byte `n` times. Without a block, it needs `pump_malloc`. -/
def FillServes (a : Alloc) (iob : IoBuffer) (n : Nat) : Prop :=
  if iob.raw.isSome = true then BlockServes a iob n else a.malloc = true

instance (a : Alloc) (iob : IoBuffer) (n : Nat) : Decidable (FillServes a iob n) :=
  inferInstanceAs (Decidable (ite _ _ _))

/-- Where a null pointer does no harm. -/
def Spared (a : Alloc) (iob : IoBuffer) : BufferOp → Prop
  | .queue (.write b) => iob.alloced = true → b ≠ [] → WriteServes a iob b.length
  | .queue (.write_fill _ n) => iob.alloced = true → n ≠ 0 → FillServes a iob n
  | .queue (.reset_by_copy b) => iob.alloced = true → b ≠ [] → WriteServes a iob.clear b.length
  | _ => True

instance (a : Alloc) (iob : IoBuffer) : (op : BufferOp) → Decidable (Spared a iob op)
  | .queue (.write _) => inferInstanceAs (Decidable (_ → _ → _))
  | .queue (.write_fill _ _) => inferInstanceAs (Decidable (_ → _ → _))
  | .queue (.reset_by_copy _) => inferInstanceAs (Decidable (_ → _ → _))
  | .queue (.shift _) | .queue (.read _) | .queue .read_one | .queue .clear
  | .reset_by_reference _ => isTrue trivial

/-- A shift keeps to what is permitted of it. -/
def ShiftPermitted (iob : IoBuffer) : BufferOp → Prop
  | .queue (.shift k) => iob.Permitted (.queue (.shift k))
  | _ => True

instance (iob : IoBuffer) : (op : BufferOp) → Decidable (ShiftPermitted iob op)
  | .queue (.shift k) => inferInstanceAs (Decidable (iob.Permitted (.queue (.shift k))))
  | .queue (.write _) | .queue (.write_fill _ _) | .queue (.reset_by_copy _) | .queue (.read _)
  | .queue .read_one | .queue .clear | .reset_by_reference _ => isTrue trivial

/-- The calls of a run. -/
def Prudent (iob : IoBuffer) (l : Alloc × BufferOp) : Prop :=
  l.2.Typed ∧ Spared l.1 iob l.2 ∧ ShiftPermitted iob l.2

instance (iob : IoBuffer) (l : Alloc × BufferOp) : Decidable (Prudent iob l) :=
  inferInstanceAs (Decidable (_ ∧ _ ∧ _))

/-! ## Section 2: Making room without memory -/

/-- A refused reallocation leaves the block, and everything else is as if
    memory were there. -/
theorem make_room_with {iob : IoBuffer} (a : Alloc) (h : Fits iob) (n : Nat) :
    make_room a iob n = if iob.Grows n ∧ a.realloc = false
      then some (false, if iob.rpos = iob.raw_size then iob.clear else iob)
      else make_room .succeeding iob n := by
  obtain ⟨r, hr, hstart, hclear, -⟩ := unwound h
  have hcap := h.capacity_lt
  have hfree : sub32 (sub32 iob.raw_size r) iob.size = iob.raw_size - r - iob.size := by
    have h₁ : sub32 iob.raw_size r = iob.raw_size - r := sub32_eq (by omega)
    rw [h₁, sub32_eq (by omega)]
  unfold make_room Grows
  rw [hclear]
  simp only [hfree, hstart]
  by_cases hroom : n ≤ iob.raw_size - r - iob.size
  · -- nothing to do
    have hno : ¬ n > iob.raw_size - r - iob.size := by omega
    simp only [hroom, hno, not_true_eq_false, false_and, if_false]
  · have hyes : n > iob.raw_size - r - iob.size := by omega
    -- what is readable is moved to the front, or the block grows
    by_cases hmove : add32 n iob.size < iob.raw_size
    · simp only [hroom, hyes, hmove, not_true_eq_false, and_false, false_and, if_false, if_true]
    · simp only [hroom, hyes, hmove, not_false_eq_true, true_and, if_false, if_true]
      rcases ha : a.realloc with _ | _
      · rfl
      · simp only [Alloc.succeeding, Bool.true_eq_false, if_false]

/-! ## Section 3: Writes -/

/-- The block a write has to do with after a null pointer from `pump_malloc`. -/
def regrown (iob : IoBuffer) (n : Nat) : IoBuffer :=
  { iob with
    raw := some (List.replicate (n / 2 * 3 % 2 ^ 32) 0)
    raw_size := n / 2 * 3 % 2 ^ 32 }

/-- Without a block there is nothing in the buffer. -/
theorem blank {iob : IoBuffer} (h : Fits iob) (hraw : iob.raw = none) :
    iob.raw_size = 0 ∧ iob.size = 0 ∧ iob.rpos = 0 ∧ iob.content = [] := by
  have hlen := h.block_length
  have hwin := h.window
  rw [hraw, Option.getD_none, List.length_nil] at hlen
  exact ⟨by omega, by omega, by omega, content_of_size_zero (by omega)⟩

theorem init_by_alloc_null {a : Alloc} {iob : IoBuffer} (hm : a.malloc = false)
    (ha : iob.alloced = true) (hraw : iob.raw = none) (n : Nat) :
    init_by_alloc a iob n = some (true, iob) := by
  simp [init_by_alloc, ha, hraw, hm]

/-- `pump_malloc` has given null, which nobody notices. -/
theorem make_room_blank {a : Alloc} {iob : IoBuffer} (h : Fits iob) (hraw : iob.raw = none) {n : Nat}
    (hpos : 0 < n) (hn : n < 2 ^ 32) :
    make_room a iob n =
      if a.realloc = true then some (true, iob.regrown n) else some (false, iob) := by
  obtain ⟨hcap, hsize, hrpos, -⟩ := blank h hraw
  obtain ⟨alloced, raw, raw_size, size, rpos⟩ := iob
  simp only at hraw hcap hsize hrpos
  subst hraw hcap hsize hrpos
  have hadd : add32 0 n = n := by
    rw [add32_eq (by omega)]
    omega
  have hmove : ¬ add32 n 0 < 0 := Nat.not_lt_zero _
  unfold make_room
  simp only [clear, if_true, show sub32 (sub32 0 0) 0 = 0 from rfl, gt_iff_lt, hpos, hmove, if_false,
    Option.getD_none, hadd, List.take_nil, List.nil_append, List.length_nil, Nat.sub_zero]
  rfl

/-- What `write` does with a block, the memory it asks for granted or not. -/
theorem write_of_block {a : Alloc} {iob : IoBuffer} {b : List UInt8} (h : Fits iob)
    (ha : iob.alloced = true) (hraw : iob.raw.isSome = true) (hb : b ≠ []) :
    write a iob b = if iob.Grows b.length ∧ a.realloc = false
      then some (false, if iob.rpos = iob.raw_size then iob.clear else iob)
      else write .succeeding iob b := by
  have hsome : iob.raw.isNone = false := by simpa using hraw
  unfold write
  simp only [ha, hb, hsome, Bool.not_true, Bool.false_eq_true, if_false, Option.bind_eq_bind,
    Option.bind_some]
  rw [make_room_with a h]
  split
  · rfl
  · rfl

/-- Without a block, `pump_malloc` granted. -/
theorem write_of_malloc {a : Alloc} {iob : IoBuffer} {b : List UInt8} (h : Fits iob)
    (ha : iob.alloced = true) (hraw : iob.raw = none) (hm : a.malloc = true) (hb : b ≠ [])
    (hlen : b.length < 2 ^ 32) : write a iob b = write .succeeding iob b := by
  have hpos : 0 < b.length := List.length_pos_iff.mpr hb
  have hnone : iob.raw.isNone = true := by rw [hraw]; rfl
  -- the new block has the room, so that no other is asked for
  obtain ⟨iob₁, h₁, -, -, -, hroom₁, -, -⟩ := init_by_alloc_fits h ha hnone hpos hlen
  have hinit : init_by_alloc a iob b.length = init_by_alloc .succeeding iob b.length := by
    simp only [init_by_alloc, hm, Alloc.succeeding]
  unfold write
  simp only [ha, hb, hnone, if_true, hinit, h₁, Bool.not_true, Bool.false_eq_true, if_false,
    Option.bind_eq_bind, Option.bind_some, make_room_free _ hroom₁ hpos]

/-- Without a block, `pump_malloc` refused. -/
theorem write_of_null {a : Alloc} {iob : IoBuffer} {b : List UInt8} (h : Fits iob)
    (ha : iob.alloced = true) (hraw : iob.raw = none) (hm : a.malloc = false) (hb : b ≠ [])
    (hlen : b.length < 2 ^ 32) :
    write a iob b =
      if a.realloc = true then append (iob.regrown b.length) b else some (false, iob) := by
  have hpos : 0 < b.length := List.length_pos_iff.mpr hb
  have hnone : iob.raw.isNone = true := by rw [hraw]; rfl
  unfold write
  simp only [ha, hb, hnone, if_true, init_by_alloc_null hm ha hraw, Bool.not_true,
    Bool.false_eq_true, if_false, Option.bind_eq_bind, Option.bind_some,
    make_room_blank h hraw hpos hlen]
  split
  · rfl
  · rfl

/-- The block of the reallocation is large enough for two bytes or more,
    unless its size wraps. -/
theorem regrown_room {n : Nat} (hpos : 0 < n) (hn : n < 2 ^ 32) :
    n ≤ n / 2 * 3 % 2 ^ 32 ↔ 2 ≤ n ∧ n / 2 * 3 < 2 ^ 32 := by
  constructor
  · intro hle
    by_cases hlt : n / 2 * 3 < 2 ^ 32
    · rw [Nat.mod_eq_of_lt hlt] at hle
      omega
    · -- it wraps once at most
      have hmod : n / 2 * 3 % 2 ^ 32 = n / 2 * 3 - 2 ^ 32 := by omega
      omega
  · rintro ⟨htwo, hlt⟩
    rw [Nat.mod_eq_of_lt hlt]
    omega

/-- That block holds the bytes written, or too few of them. -/
theorem append_regrown {iob : IoBuffer} {b : List UInt8} (h : Fits iob) (hraw : iob.raw = none)
    (hpos : 0 < b.length) (hlen : b.length < 2 ^ 32) :
    (2 ≤ b.length ∧ b.length / 2 * 3 < 2 ^ 32 → ∃ iob',
      append (iob.regrown b.length) b = some (true, iob') ∧ Fits iob' ∧
        iob'.content = iob.content ++ b) ∧
    (¬ (2 ≤ b.length ∧ b.length / 2 * 3 < 2 ^ 32) → append (iob.regrown b.length) b = none) := by
  obtain ⟨hcap, hsize, hrpos, hc⟩ := blank h hraw
  obtain ⟨k, hk⟩ : ∃ k, k = b.length / 2 * 3 % 2 ^ 32 := ⟨_, rfl⟩
  have hlt : k < 2 ^ 32 := by
    rw [hk]
    exact Nat.mod_lt _ (by omega)
  have hnew : iob.regrown b.length = ⟨iob.alloced, some (List.replicate k 0), k, 0, 0⟩ := by
    rw [regrown, ← hk, hsize, hrpos]
  rw [← regrown_room hpos hlen, ← hk, hnew]
  constructor
  · intro hroom
    have hk0 : 0 < k := Nat.lt_of_lt_of_le hpos hroom
    have hf : Fits ⟨iob.alloced, some (List.replicate k 0), k, 0, 0⟩ :=
      ⟨List.length_replicate, fun _ => hk0, Nat.zero_le k, hlt⟩
    have hend : 0 + 0 + b.length ≤ k := by omega
    obtain ⟨iob', h', hf', -, -, -, -, -, hc', -⟩ := append_fits b hf rfl hend
    refine ⟨iob', h', hf', ?_⟩
    rw [hc', hc, content_of_size_zero rfl]
  · intro hno
    apply append_none
    · show (List.replicate k (0 : UInt8)).length = k
      exact List.length_replicate
    · show ¬ 0 + 0 + b.length ≤ k
      omega

theorem refused_unwound {iob : IoBuffer} (h : Fits iob) (bytes : List UInt8) :
    let iob' := if iob.rpos = iob.raw_size then iob.clear else iob
    Fits iob' ∧ Extends iob bytes (some (false, iob')) := by
  have hwin := h.window
  split
  · have h0 : iob.size = 0 := by omega
    refine ⟨fits_clear h, _, _, rfl, Or.inr ⟨rfl, ?_⟩⟩
    rw [content_of_size_zero h0, content_of_size_zero rfl]
  · exact ⟨h, _, _, rfl, Or.inr ⟨rfl, rfl⟩⟩

/-- **Write.** It returns as it should where memory serves, and leaves the
    block elsewhere. -/
theorem write_with {a : Alloc} {iob : IoBuffer} {b : List UInt8} (h : Fits iob)
    (ha : iob.alloced = true) (hb : b ≠ []) (hlen : b.length < 2 ^ 32) :
    (WriteServes a iob b.length → ∃ ok iob', write a iob b = some (ok, iob') ∧ Fits iob' ∧
      Extends iob b (write a iob b)) ∧
    (¬ WriteServes a iob b.length → write a iob b = none) := by
  have hpos : 0 < b.length := List.length_pos_iff.mpr hb
  have hgranted : WriteFits iob b.length → ∃ ok iob', write .succeeding iob b = some (ok, iob') ∧
      Fits iob' ∧ Extends iob b (write .succeeding iob b) := by
    intro hfit
    obtain ⟨iob', h', hf⟩ := (write_outcome h ha hb hlen).1 hfit
    obtain ⟨-, -, hc⟩ := write_sound h hlen h'
    exact ⟨true, iob', h', hf, true, iob', h', Or.inl ⟨rfl, hc, hf.window⟩⟩
  unfold WriteServes
  rcases hraw : iob.raw with _ | block
  · simp only [Option.isSome_none, Bool.false_eq_true, if_false]
    rcases hm : a.malloc with _ | _
    · -- the null pointer is passed on to pump_realloc
      rw [write_of_null h ha hraw hm hb hlen]
      rcases hr : a.realloc with _ | _
      · refine ⟨fun _ => ⟨false, iob, rfl, h, false, iob, rfl, Or.inr ⟨rfl, rfl⟩⟩, ?_⟩
        intro hno
        exact absurd (Or.inr (Or.inl rfl)) hno
      · obtain ⟨hroom, hno⟩ := append_regrown h hraw hpos hlen
        simp only [if_true, Bool.false_eq_true, Bool.true_eq_false, false_or]
        refine ⟨fun hserves => ?_, hno⟩
        obtain ⟨iob', h', hf', hc'⟩ := hroom hserves
        exact ⟨true, iob', h', hf', true, iob', h', Or.inl ⟨rfl, hc', hf'.window⟩⟩
    · -- a new block of the right size
      have hfit : WriteFits iob b.length := by
        intro hsome
        rw [hraw] at hsome
        cases hsome
      rw [write_of_malloc h ha hraw hm hb hlen]
      exact ⟨fun _ => hgranted hfit, fun hno => absurd (Or.inl rfl) hno⟩
  · simp only [Option.isSome_some, if_true, BlockServes]
    rw [write_of_block h ha (by rw [hraw]; rfl) hb]
    -- a refused `pump_realloc` leaves the old block
    by_cases hgrows : iob.Grows b.length ∧ a.realloc = false
    · rw [if_pos hgrows]
      obtain ⟨hf, hext⟩ := refused_unwound h b
      exact ⟨fun _ => ⟨false, _, rfl, hf, hext⟩, fun hno => absurd (Or.inl hgrows) hno⟩
    · rw [if_neg hgrows]
      constructor
      · intro hserves
        exact hgranted (hserves.resolve_left hgrows)
      · intro hno
        exact (write_outcome h ha hb hlen).2 fun hfit => hno (Or.inr hfit)

theorem write_fill_of_block {a : Alloc} {iob : IoBuffer} {b : UInt8} {n : Nat}
    (ha : iob.alloced = true) (hraw : iob.raw.isSome = true) (hn : n ≠ 0) :
    write_fill a iob b n = write a iob (List.replicate n b) := by
  have hsome : iob.raw.isNone = false := by simpa using hraw
  have hne : List.replicate n b ≠ [] := by rwa [ne_eq, List.replicate_eq_nil_iff]
  unfold write_fill write
  simp only [ha, hn, hne, hsome, Bool.not_true, Bool.false_eq_true, if_false, Option.bind_eq_bind,
    Option.bind_some, List.length_replicate]

theorem write_fill_of_malloc {a : Alloc} {iob : IoBuffer} {b : UInt8} {n : Nat} (h : Fits iob)
    (ha : iob.alloced = true) (hraw : iob.raw = none) (hm : a.malloc = true) (hn : n ≠ 0)
    (hlen : n < 2 ^ 32) : write_fill a iob b n = write .succeeding iob (List.replicate n b) := by
  have hinit : init_by_alloc a iob n = init_by_alloc .succeeding iob n := by
    simp only [init_by_alloc, hm, Alloc.succeeding]
  rw [← write_fill_eq h ha (by omega) hlen]
  unfold write_fill
  simp only [hraw, Option.isNone_none, if_true, hinit]

/-- `memset` writes through the null pointer. -/
theorem write_fill_of_null {a : Alloc} {iob : IoBuffer} {b : UInt8} {n : Nat}
    (ha : iob.alloced = true) (hraw : iob.raw = none) (hm : a.malloc = false) (hn : n ≠ 0) :
    write_fill a iob b n = none := by
  unfold write_fill
  simp [ha, hraw, hn, init_by_alloc_null hm ha hraw, append]

theorem write_fill_with {a : Alloc} {iob : IoBuffer} {b : UInt8} {n : Nat} (h : Fits iob)
    (ha : iob.alloced = true) (hn : n ≠ 0) (hlen : n < 2 ^ 32) :
    (FillServes a iob n → ∃ ok iob', write_fill a iob b n = some (ok, iob') ∧ Fits iob' ∧
      Extends iob (List.replicate n b) (write_fill a iob b n)) ∧
    (¬ FillServes a iob n → write_fill a iob b n = none) := by
  have hne : List.replicate n b ≠ [] := by rwa [ne_eq, List.replicate_eq_nil_iff]
  have hwrite := fun a' => write_with (a := a') (b := List.replicate n b) h ha hne
    (by rwa [List.length_replicate])
  simp only [List.length_replicate] at hwrite
  unfold FillServes
  rcases hraw : iob.raw with _ | block
  · simp only [Option.isSome_none, Bool.false_eq_true, if_false]
    rcases hm : a.malloc with _ | _
    · rw [write_fill_of_null ha hraw hm hn]
      exact ⟨nofun, fun _ => rfl⟩
    · have hserves : WriteServes .succeeding iob n := by
        simp [WriteServes, hraw, Alloc.succeeding]
      rw [write_fill_of_malloc h ha hraw hm hn hlen]
      exact ⟨fun _ => (hwrite .succeeding).1 hserves, fun hno => absurd rfl hno⟩
  · have hsome : iob.raw.isSome = true := by rw [hraw]; rfl
    have hiff : WriteServes a iob n ↔ BlockServes a iob n := by
      unfold WriteServes
      rw [if_pos hsome]
    simp only [Option.isSome_some, if_true]
    rw [write_fill_of_block ha hsome hn, ← hiff]
    exact hwrite a

/-! ## Section 4: Any operation -/

/-- A write of nothing is refused. -/
theorem extends_nil {iob : IoBuffer} (bytes : List UInt8) :
    Extends iob bytes (some (false, iob)) :=
  ⟨false, iob, rfl, Or.inr ⟨rfl, rfl⟩⟩

theorem not_extends_none {iob : IoBuffer} {bytes : List UInt8} : ¬ Extends iob bytes none := by
  rintro ⟨ok, iob', h, -⟩
  cases h

/-- A call that is spared returns from its writes as it should. -/
theorem intact_of_spared {a : Alloc} {iob : IoBuffer} {op : BufferOp} (h : Fits iob)
    (ht : op.Typed) (hs : Spared a iob op) : Intact a iob op := by
  rcases habort : iob.aborts op with _ | _
  swap
  · exact Or.inl habort
  right
  -- one case for each operation, those of the queue first
  rcases op with (b | ⟨b, n⟩ | n | _ | k | _ | b) | b
  · have ha : iob.alloced = true := by simpa [aborts] using habort
    show Extends iob b (write a iob b)
    by_cases hb : b = []
    · have hw : write a iob b = some (false, iob) := by simp [write, ha, hb]
      rw [hw]
      exact extends_nil b
    · obtain ⟨ok, iob', -, -, hext⟩ := (write_with h ha hb ht).1 (hs ha hb)
      exact hext
  · have ha : iob.alloced = true := by simpa [aborts] using habort
    show Extends iob (List.replicate n b) (write_fill a iob b n)
    by_cases hn : n = 0
    · have hw : write_fill a iob b n = some (false, iob) := by simp [write_fill, ha, hn]
      rw [hw]
      exact extends_nil _
    · obtain ⟨ok, iob', -, -, hext⟩ := (write_fill_with (b := b) h ha hn ht).1 (hs ha hn)
      exact hext
  · trivial
  · trivial
  · trivial
  · trivial
  · have ha : iob.alloced = true := by simpa [aborts] using habort
    show Extends iob.clear b (write a iob.clear b)
    by_cases hb : b = []
    · have hw : write a iob.clear b = some (false, iob.clear) := by simp [write, clear, ha, hb]
      rw [hw]
      exact extends_nil b
    · obtain ⟨ok, iob', -, -, hext⟩ := (write_with (fits_clear h) ha hb ht).1 (hs ha hb)
      exact hext
  · trivial

/-- One that is not writes outside the block. -/
theorem spared_of_intact {a : Alloc} {iob : IoBuffer} {op : BufferOp} (h : Fits iob)
    (ht : op.Typed) (hi : Intact a iob op) : Spared a iob op := by
  rcases op with (b | ⟨b, n⟩ | n | _ | k | _ | b) | b
  · intro ha hb
    by_contra hno
    rcases hi with habort | hext
    · simp [aborts, ha] at habort
    · replace hext : Extends iob b (write a iob b) := hext
      rw [(write_with h ha hb ht).2 hno] at hext
      exact not_extends_none hext
  · intro ha hn
    by_contra hno
    rcases hi with habort | hext
    · simp [aborts, ha] at habort
    · replace hext : Extends iob (List.replicate n b) (write_fill a iob b n) := hext
      rw [(write_fill_with h ha hn ht).2 hno] at hext
      exact not_extends_none hext
  · trivial
  · trivial
  · trivial
  · trivial
  · intro ha hb
    by_contra hno
    rcases hi with habort | hext
    · simp [aborts, ha] at habort
    · replace hext : Extends iob.clear b (write a iob.clear b) := hext
      rw [(write_with (fits_clear h) ha hb ht).2 hno] at hext
      exact not_extends_none hext
  · trivial

/-! ## Section 5: Runs -/

theorem made_fits {iob : IoBuffer} (h : Made iob) : Fits iob := by
  have hblank : Fits (construct true) := (wf_construct true).fits
  rcases h with ⟨a, size, hsize, hc⟩ | ⟨a, b, hb, hc⟩ | ⟨b, hb, rfl⟩
  · unfold create at hc
    split at hc
    · cases hc
    · split at hc
      · next hpos =>
        -- without its memory the buffer is made nevertheless, and is blank
        rcases hm : a.malloc with _ | _
        · simp only [init_by_alloc, construct, hm, Bool.not_true, Option.isSome_none, Bool.or_self,
            Bool.false_eq_true, if_false, Option.map_some, if_true, Option.some.injEq] at hc
          exact hc ▸ hblank
        · simp only [init_by_alloc, construct, hm, Bool.not_true, Option.isSome_none, Bool.or_self,
            Bool.false_eq_true, if_false, Option.map_some, if_true, Option.some.injEq] at hc
          exact hc ▸ ⟨List.length_replicate, fun _ => hpos, Nat.zero_le _, hsize⟩
      · cases hc
        exact hblank
  · unfold create_by_copy at hc
    split at hc
    · cases hc
    · split at hc
      · next hpos =>
        rcases hm : a.malloc with _ | _
        · simp [init_by_copy, construct, hm] at hc
        · simp only [init_by_copy, construct, hm, Bool.not_true, Option.isSome_none, Bool.or_self,
            Bool.false_eq_true, if_false, Option.map_some, if_true, Option.some.injEq] at hc
          exact hc ▸ ⟨rfl, fun _ => hpos, (Nat.zero_add _).le, hb⟩
      · cases hc
        exact hblank
  · exact new_fits (Or.inr ⟨b, hb, rfl⟩)

theorem write_keeps {a : Alloc} {iob iob' : IoBuffer} {b : List UInt8} {ok : Bool} (h : Fits iob)
    (hlen : b.length < 2 ^ 32)
    (hs : iob.alloced = true → b ≠ [] → WriteServes a iob b.length)
    (hw : write a iob b = some (ok, iob')) : Fits iob' := by
  by_cases ha : iob.alloced = true
  · by_cases hb : b = []
    · have hsame : write a iob b = some (false, iob) := by simp [write, ha, hb]
      rw [hsame] at hw
      cases hw
      exact h
    · obtain ⟨ok₁, iob₁, h₁, hf, -⟩ := (write_with h ha hb hlen).1 (hs ha hb)
      rw [h₁] at hw
      cases hw
      exact hf
  · have habort : write a iob b = none := by simp [write, ha]
    rw [habort] at hw
    cases hw

theorem write_fill_keeps {a : Alloc} {iob iob' : IoBuffer} {b : UInt8} {n : Nat} {ok : Bool}
    (h : Fits iob) (hlen : n < 2 ^ 32) (hs : iob.alloced = true → n ≠ 0 → FillServes a iob n)
    (hw : write_fill a iob b n = some (ok, iob')) : Fits iob' := by
  by_cases ha : iob.alloced = true
  · by_cases hn : n = 0
    · have hsame : write_fill a iob b n = some (false, iob) := by simp [write_fill, ha, hn]
      rw [hsame] at hw
      cases hw
      exact h
    · obtain ⟨ok₁, iob₁, h₁, hf, -⟩ := (write_fill_with (b := b) h ha hn hlen).1 (hs ha hn)
      rw [h₁] at hw
      cases hw
      exact hf
  · have habort : write_fill a iob b n = none := by simp [write_fill, ha]
    rw [habort] at hw
    cases hw

/-- What allocates nothing is called as before. -/
theorem call_keeps {iob iob' : IoBuffer} {op : BufferOp} {reply : QueueReply} (h : Fits iob)
    (ht : op.Typed) (hp : iob.Permitted op) (hc : iob.call op = some (reply, iob')) : Fits iob' := by
  rcases call_fits h ht hp with habort | ⟨reply₁, iob₁, h₁, hf⟩
  · rw [call_of_aborts habort] at hc
    cases hc
  · rw [h₁] at hc
    cases hc
    exact hf

/-- Whatever memory it gets, a spared call keeps the window in the block. -/
theorem call_with_keeps {a : Alloc} {iob iob' : IoBuffer} {op : BufferOp} {reply : QueueReply}
    (h : Fits iob) (hok : Prudent iob (a, op)) (hc : iob.call_with a op = some (reply, iob')) :
    Fits iob' := by
  obtain ⟨ht, hs, hshift⟩ := hok
  rcases op with (b | ⟨b, n⟩ | n | _ | k | _ | b) | b
  · obtain ⟨⟨ok, iob₁⟩, hw, hr⟩ := Option.map_eq_some_iff.mp hc
    cases hr
    exact write_keeps h ht hs hw
  · obtain ⟨⟨ok, iob₁⟩, hw, hr⟩ := Option.map_eq_some_iff.mp hc
    cases hr
    exact write_fill_keeps h ht hs hw
  · exact call_keeps h ht trivial hc
  · exact call_keeps h ht trivial hc
  · exact call_keeps h ht hshift hc
  · exact call_keeps h ht trivial hc
  · -- reset_by_copy
    obtain ⟨⟨ok, iob₁⟩, hw, hr⟩ := Option.map_eq_some_iff.mp hc
    cases hr
    unfold reset_by_copy at hw
    split at hw
    · cases hw
    · split at hw
      · cases hw
        exact h
      · exact write_keeps (fits_clear h) ht hs hw
  · exact call_keeps h ht trivial hc

/-- The window stays in the block along the run. -/
theorem run_with_fits {new iob : IoBuffer} (hnew : Made new)
    (h : Reachable step_with Prudent new iob) : Fits iob := by
  refine h.invariant (I := Fits) (made_fits hnew) ?_
  intro iob l iob' hf hok hs
  obtain ⟨⟨reply, iob₁⟩, hcall, hr⟩ := Option.map_eq_some_iff.mp hs
  exact hr ▸ call_with_keeps hf hok hcall

theorem capable_iff (a : Alloc) (size : Nat) :
    Capable a size ↔ (a.object = true → size ≠ 0 → a.malloc = true) := by
  unfold Capable create
  rcases ho : a.object with _ | _
  · simp
  · by_cases hsize : size = 0
    · subst hsize
      simp [construct]
    · have hpos : size > 0 := by omega
      rcases hm : a.malloc with _ | _
      · have hne : ¬ 0 = size := by omega
        simp [hpos, hsize, hm, init_by_alloc, construct, hne]
      · simp [hpos, hm, init_by_alloc, construct]

/-- **Allocation failure.** In every run of spared calls, a write returns as
    it should exactly if it is spared, whatever its allocations give. `create`
    keeps its promise exactly if the block asked for is allocated. -/
theorem run_intact_iff {new iob : IoBuffer} (hnew : Made new)
    (hrun : Reachable step_with Prudent new iob) (a : Alloc) {op : BufferOp} (ht : op.Typed)
    {size : Nat} (_ : size < 2 ^ 32) :
    (Intact a iob op ↔ Spared a iob op) ∧
      (Capable a size ↔ (a.object = true → size ≠ 0 → a.malloc = true)) := by
  have hf := run_with_fits hnew hrun
  refine ⟨⟨?_, ?_⟩, capable_iff a size⟩
  · exact spared_of_intact hf ht
  · exact intact_of_spared hf ht

/-- Four bytes, a fifth refused for want of memory, one read, and a sixth,
    for which the others are moved. -/
theorem run_intact_six :
    ∃ iob, Reachable step_with Prudent (construct true) iob ∧
      (Intact .starved iob (.queue (.write [6])) ↔ Spared .starved iob (.queue (.write [6]))) ∧
      (Capable .starved 0 ↔ (Alloc.starved.object = true → 0 ≠ 0 → Alloc.starved.malloc = true)) := by
  have hnew : Made (construct true) := Or.inl ⟨.succeeding, 0, by decide, rfl⟩
  have hrun : exec step_with (construct true)
      [(.succeeding, .queue (.write [1, 2, 3, 4])), (.starved, .queue (.write [5])),
        (.starved, .queue (.read 2))] = some ⟨true, some [1, 2, 3, 4], 4, 2, 2⟩ := by decide
  have h : Reachable step_with Prudent (construct true) _ := Reachable.of_exec hrun (by decide)
  exact ⟨_, h, run_intact_iff hnew h .starved (by decide) (by decide)⟩

/-- `create(4)` without memory gives a buffer of capacity 0. `write('a')` to a
    new buffer then writes through the null pointer, and `write("a", 1)`, when
    `pump_realloc` is granted, into a block of no bytes. -/
theorem not_run_intact :
    ¬ Capable .starved 4 ∧ Made (construct true) ∧
    ¬ Intact .starved (construct true) (.queue (.write_fill 97 1)) ∧
    ¬ Intact ⟨true, false, true⟩ (construct true) (.queue (.write [97])) := by
  have hf : Fits (construct true) := (wf_construct true).fits
  refine ⟨?_, Or.inl ⟨.succeeding, 0, by decide, rfl⟩, ?_, ?_⟩
  · rw [capable_iff]
    decide
  · intro hi
    exact absurd (spared_of_intact hf (by decide) hi) (by decide)
  · intro hi
    exact absurd (spared_of_intact hf (by decide) hi) (by decide)

end IoBuffer

end Pump
