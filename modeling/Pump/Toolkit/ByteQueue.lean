import Pump.Lts
import Pump.Toolkit.IoBuffer

/-! # io_buffer is a byte queue

    Bytes go in at the back and come out at the front, and the bytes that
    came out last can be put back by `shift` with a negative argument. The
    queue says nothing of blocks, of positions in them or of the ways in
    which a write makes room. -/

namespace Pump

/-! ## Section 1: The queue -/

/-- An operation on an `io_buffer` and its arguments. -/
inductive QueueOp where
  | write (b : List UInt8)
  | write_fill (b : UInt8) (count : Nat)
  | read (size : Nat)
  | read_one
  | shift (size : Int)
  | clear
  | reset_by_copy (b : List UInt8)
  deriving DecidableEq, Repr

/-- What an operation gives back. -/
inductive QueueReply where
  | done (ok : Bool)
  | bytes (b : Option (List UInt8))
  | shifted (size : Int)
  | cleared
  deriving DecidableEq, Repr

/-- The bytes consumed, and those to come. -/
structure ByteQueue where
  consumed : List UInt8
  content : List UInt8
  deriving DecidableEq, Repr

namespace ByteQueue

def append (q : ByteQueue) (b : List UInt8) : ByteQueue := { q with content := q.content ++ b }

def consume (q : ByteQueue) (n : Nat) : ByteQueue :=
  ⟨q.consumed ++ q.content.take n, q.content.drop n⟩

/-- The last `n` bytes consumed are to come again. -/
def restore (q : ByteQueue) (n : Nat) : ByteQueue :=
  ⟨q.consumed.take (q.consumed.length - n), q.consumed.drop (q.consumed.length - n) ++ q.content⟩

/-- `op` takes `q` to `q'` and gives `reply`. A write of no bytes and a read
    of more than there are is refused. `shift` is refused by more than there
    are, or than an `int32_t` can count; backwards it may be refused. -/
def Does (q : ByteQueue) : QueueOp → QueueReply → ByteQueue → Prop
  | .write b, reply, q' =>
    if b = [] then reply = .done false ∧ q' = q else reply = .done true ∧ q' = q.append b
  | .write_fill b count, reply, q' =>
    if count = 0 then reply = .done false ∧ q' = q
    else reply = .done true ∧ q' = q.append (List.replicate count b)
  | .read n, reply, q' =>
    if q.content.length < n then reply = .bytes none ∧ q' = q
    else reply = .bytes (some (q.content.take n)) ∧ q' = q.consume n
  | .read_one, reply, q' =>
    if q.content = [] then reply = .bytes none ∧ q' = q
    else reply = .bytes (some (q.content.take 1)) ∧ q' = q.consume 1
  | .shift k, reply, q' =>
    (reply = .shifted (-1) ∧ q' = q ∧
      (k > 0 → q.content.length < k ∨ 2 ^ 31 ≤ q.content.length)) ∨
    (reply = .shifted (toI32 q'.content.length) ∧
      ((∃ n : Nat, k = n ∧ n ≤ q.content.length ∧ q' = q.consume n) ∨
       ∃ n : Nat, k = -n ∧ n ≤ q.consumed.length ∧ q' = q.restore n))
  | .clear, reply, q' => reply = .cleared ∧ q' = ⟨[], []⟩
  | .reset_by_copy b, reply, q' =>
    if b = [] then reply = .done false ∧ q' = q else reply = .done true ∧ q' = ⟨[], b⟩

/-- The operations one after the other. -/
inductive Serves : ByteQueue → List QueueOp → List QueueReply → ByteQueue → Prop
  | nil (q : ByteQueue) : Serves q [] [] q
  | cons {q q₁ q' : ByteQueue} {op : QueueOp} {reply : QueueReply} {ops : List QueueOp}
      {replies : List QueueReply} : q.Does op reply q₁ → Serves q₁ ops replies q' →
      Serves q (op :: ops) (reply :: replies) q'

end ByteQueue

namespace IoBuffer

/-! ## Section 2: The operations of the buffer -/

/-- With allocations succeeding; `none` is `abort()` or an access outside the
    memory block. -/
def apply (iob : IoBuffer) : QueueOp → Option (QueueReply × IoBuffer)
  | .write b => (write .succeeding iob b).map fun r => (.done r.1, r.2)
  | .write_fill b count => (write_fill .succeeding iob b count).map fun r => (.done r.1, r.2)
  | .read n => (read iob n).map fun r => (.bytes r.1, r.2)
  | .read_one => (read_one iob).map fun r => (.bytes (r.1.map fun c => [c]), r.2)
  | .shift k => some (.shifted (shift iob k).1, (shift iob k).2)
  | .clear => some (.cleared, iob.clear)
  | .reset_by_copy b => (reset_by_copy .succeeding iob b).map fun r => (.done r.1, r.2)

/-- The buffer after an operation. -/
def after (iob : IoBuffer) (op : QueueOp) : Option IoBuffer := (iob.apply op).map Prod.snd

def serve (iob : IoBuffer) : List QueueOp → Option (List QueueReply × IoBuffer)
  | [] => some ([], iob)
  | op :: ops => do
    let r ← iob.apply op
    let r' ← serve r.2 ops
    some (r.1 :: r'.1, r'.2)

/-- The arguments are of their types, `shift` is not asked for `-2^31`, and no
    sum computed exceeds `uint32_t`. -/
def InRange (iob : IoBuffer) : QueueOp → Prop
  | .write b => b.length < 2 ^ 32 ∧ RoomFits iob b.length
  | .write_fill _ count => count < 2 ^ 32 ∧ RoomFits iob count
  | .read n => n < 2 ^ 32
  | .shift k => -2 ^ 31 < k ∧ k < 2 ^ 31
  | .reset_by_copy b => b.length < 2 ^ 32 ∧ RoomFits iob.clear b.length
  | _ => True

instance (iob : IoBuffer) : (op : QueueOp) → Decidable (InRange iob op)
  | .write _ => inferInstanceAs (Decidable (_ ∧ _))
  | .write_fill _ _ => inferInstanceAs (Decidable (_ ∧ _))
  | .read _ => inferInstanceAs (Decidable (_ < _))
  | .read_one => isTrue trivial
  | .shift _ => inferInstanceAs (Decidable (_ ∧ _))
  | .clear => isTrue trivial
  | .reset_by_copy _ => inferInstanceAs (Decidable (_ ∧ _))

/-- The buffer holds the bytes to come in its window, and before it some of
    those consumed last. -/
structure Represents (iob : IoBuffer) (q : ByteQueue) : Prop where
  alloced : iob.alloced = true
  fits : Fits iob
  content : iob.content = q.content
  behind : iob.behind <:+ q.consumed

/-- `create(size)`, or `create_by_copy` of `b`. -/
def Created (iob : IoBuffer) (q : ByteQueue) : Prop :=
  (∃ size < 2 ^ 32, create .succeeding size = some (some iob) ∧ q = ⟨[], []⟩) ∨
  ∃ b : List UInt8, b.length < 2 ^ 32 ∧ create_by_copy .succeeding b = some (some iob) ∧ q = ⟨[], b⟩

theorem represents_created {iob : IoBuffer} {q : ByteQueue} (h : Created iob q) :
    Represents iob q := by
  have hempty : Represents (construct true) ⟨[], []⟩ :=
    ⟨rfl, ⟨rfl, nofun, Nat.le_refl 0, by show 0 < 2 ^ 32; omega⟩, rfl, List.suffix_rfl⟩
  rcases h with ⟨size, hsize, hcreate, rfl⟩ | ⟨b, hb, hcreate, rfl⟩
  · by_cases hpos : size > 0
    · have heq : create .succeeding size =
          some (some ⟨true, some (List.replicate size 0), size, 0, 0⟩) := by
        simp [create, init_by_alloc, construct, Alloc.succeeding, hpos]
      rw [heq] at hcreate
      cases hcreate
      exact ⟨rfl, ⟨List.length_replicate, fun _ => hpos, Nat.zero_le _, hsize⟩, List.take_zero,
        List.suffix_rfl⟩
    · have heq : create .succeeding size = some (some (construct true)) := by
        simp [create, Alloc.succeeding, hpos]
      rw [heq] at hcreate
      cases hcreate
      exact hempty
  · by_cases hpos : b.length > 0
    · have heq : create_by_copy .succeeding b =
          some (some ⟨true, some b, b.length, b.length, 0⟩) := by
        simp [create_by_copy, init_by_copy, construct, Alloc.succeeding, hpos]
      rw [heq] at hcreate
      cases hcreate
      exact ⟨rfl, ⟨rfl, fun _ => hpos, (Nat.zero_add _).le, hb⟩, List.take_length, List.suffix_rfl⟩
    · have heq : create_by_copy .succeeding b = some (some (construct true)) := by
        simp [create_by_copy, Alloc.succeeding, hpos]
      rw [heq] at hcreate
      cases hcreate
      rw [List.eq_nil_of_length_eq_zero (by omega : b.length = 0)]
      exact hempty

/-! ## Section 3: Each operation -/

theorem nil_of_rpos {iob : IoBuffer} (h : iob.rpos = 0) : iob.behind = [] := by
  rw [behind, h, List.take_zero]

/-- **Write.** Whatever it does to make room, the bytes come behind those
    that were there. -/
theorem write_fits {iob : IoBuffer} {q : ByteQueue} {b : List UInt8} (h : Represents iob q)
    (hb : b ≠ []) (hlen : b.length < 2 ^ 32) (hn : RoomFits iob b.length) :
    ∃ iob', write .succeeding iob b = some (true, iob') ∧ Represents iob' (q.append b) := by
  have hpos : 0 < b.length := List.length_pos_iff.mpr hb
  -- a block of its own, and nothing more before the window
  obtain ⟨iob₁, h₁, hf₁, ha₁, hraw₁, hn₁, hc₁, hbehind₁⟩ : ∃ iob₁,
      (if iob.raw.isNone then init_by_alloc .succeeding iob b.length else some (true, iob)) =
        some (true, iob₁) ∧ Fits iob₁ ∧ iob₁.alloced = true ∧ iob₁.raw.isSome = true ∧
        RoomFits iob₁ b.length ∧ iob₁.content = iob.content ∧ iob₁.behind <:+ iob.behind := by
    by_cases hraw : iob.raw.isNone = true
    · obtain ⟨iob₁, h₁, hf₁, ha₁, hraw₁, hroom₁, hr₁, hc₁⟩ :=
        init_by_alloc_fits h.fits h.alloced hraw hpos hlen
      refine ⟨iob₁, by rw [if_pos hraw, h₁], hf₁, ha₁, hraw₁, ?_, hc₁, ?_⟩
      · intro _ rpos hgt
        exfalso
        have hne : iob₁.rpos ≠ iob₁.raw_size := by omega
        simp only [rpos, if_neg hne] at hgt
        omega
      · rw [nil_of_rpos hr₁]
        exact List.nil_suffix
    · refine ⟨iob, if_neg hraw, h.fits, h.alloced, ?_, hn, rfl, List.suffix_rfl⟩
      rwa [← Option.not_isSome, Bool.not_eq_true, Bool.not_eq_false'] at hraw
  obtain ⟨iob₂, h₂, hf₂, ha₂, hraw₂, hroom₂, hc₂, hbehind₂, -⟩ := make_room_fits hf₁ hraw₁ hn₁
  obtain ⟨iob₃, h₃, hf₃, ha₃, -, -, -, -, hc₃, hbehind₃⟩ := append_fits b hf₂ hraw₂ hroom₂
  refine ⟨iob₃, ?_, by rw [ha₃, ha₂, ha₁], hf₃, ?_, ?_⟩
  · unfold write
    simp only [h.alloced, hb, h₁, h₂, h₃, Option.bind_eq_bind, Option.bind_some, Bool.not_true,
      Bool.false_eq_true, if_false]
  · show iob₃.content = q.content ++ b
    rw [hc₃, hc₂, hc₁, h.content]
  · rw [hbehind₃]
    exact (hbehind₂.trans hbehind₁).trans h.behind

/-- The other overload does the same. -/
theorem write_fill_eq {iob : IoBuffer} {b : UInt8} {count : Nat} (h : Fits iob)
    (ha : iob.alloced = true) (hpos : 0 < count) (hlen : count < 2 ^ 32) :
    write_fill .succeeding iob b count = write .succeeding iob (List.replicate count b) := by
  have hne : List.replicate count b ≠ [] := by
    intro hnil
    rw [List.replicate_eq_nil_iff] at hnil
    omega
  have hzero : count ≠ 0 := by omega
  unfold write_fill write
  simp only [ha, hzero, hne, Bool.not_true, Bool.false_eq_true, if_false, List.length_replicate]
  by_cases hraw : iob.raw.isNone = true
  · -- there is room in a new block
    obtain ⟨iob₁, h₁, -, -, -, hroom₁, -, -⟩ := init_by_alloc_fits h ha hraw hpos hlen
    simp only [hraw, if_true, h₁, make_room_free _ hroom₁ hpos, Option.bind_eq_bind,
      Option.bind_some, Bool.not_true, Bool.false_eq_true, if_false]
  · simp only [hraw, if_false, Option.bind_eq_bind, Option.bind_some, Bool.not_true,
      Bool.false_eq_true]

/-! ## Section 4: Shift -/

/-- The buffer after the last `n` bytes before the window are put back. -/
def retreat (iob : IoBuffer) (n : Nat) : IoBuffer :=
  { iob with rpos := iob.rpos - n, size := iob.size + n }

theorem fits_retreat {iob : IoBuffer} (h : Fits iob) {n : Nat} (hn : n ≤ iob.rpos) :
    Fits (iob.retreat n) := by
  have := h.window
  refine ⟨h.block_length, h.block_pos, ?_, h.capacity_lt⟩
  show iob.rpos - n + (iob.size + n) ≤ iob.raw_size
  omega

theorem behind_length {iob : IoBuffer} (h : Fits iob) : iob.behind.length = iob.rpos := by
  have := h.block_length
  have := h.window
  unfold behind
  rw [List.length_take]
  omega

theorem behind_retreat (iob : IoBuffer) {n : Nat} (hn : n ≤ iob.rpos) :
    (iob.retreat n).behind = iob.behind.take (iob.rpos - n) := by
  show (iob.raw.getD []).take (iob.rpos - n) = ((iob.raw.getD []).take iob.rpos).take (iob.rpos - n)
  rw [List.take_take, Nat.min_eq_left (by omega)]

theorem content_retreat (iob : IoBuffer) {n : Nat} (hn : n ≤ iob.rpos) :
    (iob.retreat n).content = iob.behind.drop (iob.rpos - n) ++ iob.content := by
  show ((iob.raw.getD []).drop (iob.rpos - n)).take (iob.size + n) =
    ((iob.raw.getD []).take iob.rpos).drop (iob.rpos - n) ++
      ((iob.raw.getD []).drop iob.rpos).take iob.size
  rw [List.drop_take, Nat.sub_sub_self hn, Nat.add_comm, List.take_add, List.drop_drop,
    Nat.sub_add_cancel hn]

theorem represents_consume {iob : IoBuffer} {q : ByteQueue} (h : Represents iob q) {n : Nat}
    (hn : n ≤ iob.size) : Represents (iob.advance n) (q.consume n) := by
  refine ⟨h.alloced, fits_advance h.fits hn, ?_, ?_⟩
  · rw [content_advance, h.content]
    rfl
  · rw [behind_advance iob hn, h.content]
    obtain ⟨front, hfront⟩ := h.behind
    refine ⟨front, ?_⟩
    rw [← List.append_assoc, hfront]
    rfl

/-- The bytes before the window are the last ones consumed. -/
theorem represents_restore {iob : IoBuffer} {q : ByteQueue} (h : Represents iob q) {n : Nat}
    (hn : n ≤ iob.rpos) : n ≤ q.consumed.length ∧ Represents (iob.retreat n) (q.restore n) := by
  obtain ⟨front, hfront⟩ := h.behind
  have hlen := behind_length h.fits
  have hcut : q.consumed.length - n = front.length + (iob.rpos - n) := by
    rw [← hfront, List.length_append, hlen]
    omega
  refine ⟨?_, h.alloced, fits_retreat h.fits hn, ?_, ?_⟩
  · rw [← hfront, List.length_append]
    omega
  · rw [content_retreat iob hn, h.content]
    show _ = q.consumed.drop (q.consumed.length - n) ++ q.content
    rw [hcut, ← hfront, List.drop_length_add_append]
  · rw [behind_retreat iob hn]
    show _ <:+ q.consumed.take (q.consumed.length - n)
    rw [hcut, ← hfront]
    exact ⟨front, by rw [List.take_length_add_append]⟩

/-- **Shift.** Forward it consumes, backward it restores. What it refuses is
    more than there is, or than an `int32_t` counts. -/
theorem shift_fits {iob : IoBuffer} {q : ByteQueue} {k : Int} (h : Represents iob q)
    (hlo : -2 ^ 31 < k) (hhi : k < 2 ^ 31) :
    ∃ q', q.Does (.shift k) (.shifted (shift iob k).1) q' ∧ Represents (shift iob k).2 q' := by
  have hwin := h.fits.window
  have hcap := h.fits.capacity_lt
  have hsize : q.content.length = iob.size := by rw [← h.content, h.fits.content_length]
  unfold shift
  by_cases hpos : k > 0
  · rw [if_pos hpos]
    by_cases hmore : toI32 iob.size < k
    · -- refused
      rw [if_pos hmore]
      refine ⟨q, Or.inl ⟨rfl, rfl, fun _ => ?_⟩, h⟩
      rw [hsize]
      by_cases hsmall : iob.size < 2 ^ 31
      · rw [toI32_eq hsmall] at hmore
        exact Or.inl hmore
      · exact Or.inr (by omega)
    · rw [if_neg hmore]
      obtain ⟨n, rfl⟩ : ∃ n : Nat, k = n := ⟨k.toNat, by omega⟩
      -- a size that looks negative was refused
      have hn : n ≤ iob.size := by
        unfold toI32 at hmore
        rw [Int.bmod_def] at hmore
        split at hmore <;> omega
      have hmoved : ({ iob with
          rpos := ofI32 (iob.rpos + n)
          size := ofI32 (iob.size - n) } : IoBuffer) = iob.advance n := by
        have h₁ : ofI32 (iob.rpos + n) = iob.rpos + n := by unfold ofI32; omega
        have h₂ : ofI32 (iob.size - n) = iob.size - n := by unfold ofI32; omega
        rw [h₁, h₂]
        rfl
      rw [hmoved]
      have hq := represents_consume h hn
      refine ⟨q.consume n, Or.inr ⟨?_, Or.inl ⟨n, rfl, hsize ▸ hn, rfl⟩⟩, hq⟩
      rw [← hq.content, hq.fits.content_length]
  · rw [if_neg hpos]
    obtain ⟨n, rfl⟩ : ∃ n : Nat, k = -n := ⟨(-k).toNat, by omega⟩
    have hneg : (-(-(n : Int))).bmod (2 ^ 32) = n := by
      rw [Int.bmod_def]
      omega
    rw [hneg]
    by_cases hmore : toI32 iob.rpos < n
    · -- refused
      rw [if_pos hmore]
      exact ⟨q, Or.inl ⟨rfl, rfl, fun hk => absurd hk hpos⟩, h⟩
    · rw [if_neg hmore]
      have hn : n ≤ iob.rpos := by
        unfold toI32 at hmore
        rw [Int.bmod_def] at hmore
        split at hmore <;> omega
      have hmoved : ({ iob with
          rpos := ofI32 (iob.rpos + -n)
          size := ofI32 (iob.size - -n) } : IoBuffer) = iob.retreat n := by
        have h₁ : ofI32 (iob.rpos + -n) = iob.rpos - n := by unfold ofI32; omega
        have h₂ : ofI32 (iob.size - -n) = iob.size + n := by unfold ofI32; omega
        rw [h₁, h₂]
        rfl
      rw [hmoved]
      obtain ⟨hle, hq⟩ := represents_restore h hn
      refine ⟨q.restore n, Or.inr ⟨?_, Or.inr ⟨n, rfl, hle, rfl⟩⟩, hq⟩
      rw [← hq.content, hq.fits.content_length]

/-! ## Section 5: Any sequence of operations -/

theorem represents_clear {iob : IoBuffer} {q : ByteQueue} (h : Represents iob q) :
    Represents iob.clear ⟨[], []⟩ :=
  ⟨h.alloced, ⟨h.fits.block_length, h.fits.block_pos, Nat.zero_le _, h.fits.capacity_lt⟩, rfl,
    List.suffix_rfl⟩

/-- **One operation.** -/
theorem apply_does {iob : IoBuffer} {q : ByteQueue} {op : QueueOp} (h : Represents iob q)
    (hok : InRange iob op) : ∃ reply iob' q', iob.apply op = some (reply, iob') ∧
      q.Does op reply q' ∧ Represents iob' q' := by
  have hsize : q.content.length = iob.size := by rw [← h.content, h.fits.content_length]
  cases op with
  | write b =>
    by_cases hb : b = []
    · refine ⟨.done false, iob, q, ?_, ?_, h⟩
      · simp [apply, write, h.alloced, hb]
      · exact (if_pos hb).mpr ⟨rfl, rfl⟩
    · obtain ⟨iob', h', hq⟩ := write_fits h hb hok.1 hok.2
      refine ⟨.done true, iob', q.append b, ?_, ?_, hq⟩
      · simp [apply, h']
      · exact (if_neg hb).mpr ⟨rfl, rfl⟩
  | write_fill b count =>
    -- like a write of the repeated byte
    by_cases hc : count = 0
    · refine ⟨.done false, iob, q, ?_, ?_, h⟩
      · simp [apply, write_fill, h.alloced, hc]
      · exact (if_pos hc).mpr ⟨rfl, rfl⟩
    · have hpos : 0 < count := by omega
      have hne : List.replicate count b ≠ [] := by
        rwa [ne_eq, List.replicate_eq_nil_iff]
      obtain ⟨iob', h', hq⟩ := write_fits (b := List.replicate count b) h hne
        (by rw [List.length_replicate]; exact hok.1) (by rw [List.length_replicate]; exact hok.2)
      refine ⟨.done true, iob', q.append (List.replicate count b), ?_, ?_, hq⟩
      · simp [apply, write_fill_eq h.fits h.alloced hpos hok.1, h']
      · exact (if_neg hc).mpr ⟨rfl, rfl⟩
  | read n =>
    by_cases hn : iob.size < n
    · refine ⟨.bytes none, iob, q, ?_, ?_, h⟩
      · simp [apply, read_short hn]
      · exact (if_pos (by omega)).mpr ⟨rfl, rfl⟩
    · refine ⟨.bytes (some (iob.content.take n)), iob.advance n, q.consume n, ?_, ?_,
        represents_consume h (by omega)⟩
      · simp [apply, read_fits h.fits (by omega : n ≤ iob.size)]
      · rw [h.content]
        exact (if_neg (by omega)).mpr ⟨rfl, rfl⟩
  | read_one =>
    rcases hcontent : iob.content with _ | ⟨c, rest⟩
    · have h0 : iob.size = 0 := by rw [← h.fits.content_length, hcontent]; rfl
      refine ⟨.bytes none, iob, q, ?_, ?_, h⟩
      · simp [apply, read_one_empty h0]
      · exact (if_pos (h.content ▸ hcontent)).mpr ⟨rfl, rfl⟩
    · have h1 : 1 ≤ iob.size := by
        rw [← h.fits.content_length, hcontent, List.length_cons]
        omega
      have hq : q.content = c :: rest := h.content ▸ hcontent
      refine ⟨.bytes (some [c]), iob.advance 1, q.consume 1, ?_, ?_, represents_consume h h1⟩
      · simp [apply, read_one_fits h.fits hcontent]
      · refine (if_neg ?_).mpr ⟨?_, rfl⟩
        · rw [hq]
          exact List.cons_ne_nil c rest
        · rw [hq]
          rfl
  | shift k =>
    obtain ⟨q', hdoes, hq⟩ := shift_fits h hok.1 hok.2
    exact ⟨_, _, q', rfl, hdoes, hq⟩
  | clear => exact ⟨.cleared, iob.clear, ⟨[], []⟩, rfl, ⟨rfl, rfl⟩, represents_clear h⟩
  | reset_by_copy b =>
    -- a write to the cleared buffer
    by_cases hb : b = []
    · refine ⟨.done false, iob, q, ?_, ?_, h⟩
      · simp [apply, reset_by_copy, h.alloced, hb]
      · exact (if_pos hb).mpr ⟨rfl, rfl⟩
    · obtain ⟨iob', h', hq⟩ := write_fits (represents_clear h) hb hok.1 hok.2
      refine ⟨.done true, iob', ⟨[], b⟩, ?_, ?_, hq⟩
      · simp [apply, reset_by_copy, h.alloced, hb, h']
      · exact (if_neg hb).mpr ⟨rfl, rfl⟩

theorem serve_represents {iob : IoBuffer} {q : ByteQueue} {ops : List QueueOp}
    (h : Represents iob q) (hok : Meets after InRange iob ops) :
    ∃ replies iob' q', iob.serve ops = some (replies, iob') ∧ q.Serves ops replies q' ∧
      Represents iob' q' := by
  induction ops generalizing iob q with
  | nil => exact ⟨[], iob, q, rfl, .nil q, h⟩
  | cons op ops ih =>
    obtain ⟨hop, hrest⟩ := hok
    obtain ⟨reply, iob₁, q₁, h₁, hdoes, hq₁⟩ := apply_does h hop
    rw [after, h₁] at hrest
    obtain ⟨replies, iob', q', h', hserves, hq'⟩ := ih hq₁ hrest
    refine ⟨reply :: replies, iob', q', ?_, .cons hdoes hserves, hq'⟩
    simp [serve, h₁, h']

/-- **A byte queue.** Every sequence of operations in range is carried out, as
    the queue does it, and the window stays in the block. -/
theorem serves_queue {iob : IoBuffer} {q : ByteQueue} {ops : List QueueOp} (hnew : Created iob q)
    (hok : Meets after InRange iob ops) :
    ∃ replies iob' q', iob.serve ops = some (replies, iob') ∧ q.Serves ops replies q' ∧
      iob'.content = q'.content ∧ iob'.rpos + iob'.size ≤ iob'.raw_size := by
  obtain ⟨replies, iob', q', h', hserves, hq'⟩ := serve_represents (represents_created hnew) hok
  exact ⟨replies, iob', q', h', hserves, hq'.content, hq'.fits.window⟩

/-- Three bytes, one read and put back, and a write that reallocates. -/
def written : List QueueOp :=
  [.write [1, 2, 3], .read 2, .shift (-1), .write_fill 7 4, .shift (-2), .read_one, .clear,
    .reset_by_copy [9]]

theorem serves_queue_written : ∃ replies iob' q',
    serve ⟨true, some [0, 0, 0], 3, 0, 0⟩ written = some (replies, iob') ∧
    ByteQueue.Serves ⟨[], []⟩ written replies q' ∧ iob'.content = q'.content ∧
    iob'.rpos + iob'.size ≤ iob'.raw_size :=
  serves_queue (Or.inl ⟨3, by decide, rfl, rfl⟩) (by decide)

example : (serve ⟨true, some [0, 0, 0], 3, 0, 0⟩ written).map Prod.fst =
    some [.done true, .bytes (some [1, 2]), .shifted 2, .done true, .shifted (-1),
      .bytes (some [2]), .cleared, .done true] := by decide

end IoBuffer

end Pump
