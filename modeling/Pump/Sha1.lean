import Pump.Codec
import Pump.SecureHash

/-! # sha1

    `codec/sha1.cpp` keeps 16 words of the message schedule, each of which
    takes the place of the one 16 rounds before it, and takes data in pieces of
    any size. What it computes is the digest of the Secure Hash Standard. -/

namespace Pump

open SecureHash

/-! ## Section 1: Words -/

theorem rol_toBitVec (x : UInt32) :
    (rol x 1).toBitVec = x.toBitVec.rotateLeft 1 ∧ (rol x 5).toBitVec = x.toBitVec.rotateLeft 5 ∧
      (rol x 30).toBitVec = x.toBitVec.rotateLeft 30 := ⟨rfl, rfl, rfl⟩

/-- `R0` and `R1` take two operations less than Ch, and `R3` one less than Maj. -/
theorem sha1_mix_toBitVec (i : Nat) (r : Sha1Vars) :
    (sha1_mix i r).toBitVec = f i r.w.toBitVec r.x.toBitVec r.y.toBitVec + K i := by
  have hch : ∀ w x y : Word, (w &&& (x ^^^ y)) ^^^ y = (w &&& x) ^^^ (~~~w &&& y) := by
    intro w x y
    ext k hk
    simp only [BitVec.getElem_xor, BitVec.getElem_and, BitVec.getElem_not]
    cases w[k] <;> simp
  have hmaj : ∀ w x y : Word, ((w ||| x) &&& y) ||| (w &&& x) =
      (w &&& x) ^^^ (w &&& y) ^^^ (x &&& y) := by
    intro w x y
    ext k hk
    simp only [BitVec.getElem_xor, BitVec.getElem_and, BitVec.getElem_or]
    cases w[k] <;> cases x[k] <;> simp
  unfold sha1_mix f K
  split
  · exact congrArg (· + 0x5a827999) (hch _ _ _)
  · split
    · rfl
    · split
      · exact congrArg (· + 0x8f1bbcdc) (hmaj _ _ _)
      · rfl

/-- The bytes are put together in the order of the message. -/
theorem blk0_toBitVec (block : Bytes) (i : Nat) : (blk0 block i).toBitVec = word block i := by
  have hword : ∀ a b c d : UInt8,
      ((a.toUInt32 <<< 24) ||| (b.toUInt32 <<< 16) ||| (c.toUInt32 <<< 8) ||| d.toUInt32).toBitVec =
        a.toBitVec ++ b.toBitVec ++ c.toBitVec ++ d.toBitVec := by
    intro a b c d
    have ha : a.toNat <<< 24 % 2 ^ 32 = a.toNat <<< 24 := by
      have := a.toNat_lt
      rw [Nat.shiftLeft_eq]
      omega
    have hb : b.toNat <<< 16 % 2 ^ 32 = b.toNat <<< 16 := by
      have := b.toNat_lt
      rw [Nat.shiftLeft_eq]
      omega
    have hc : c.toNat <<< 8 % 2 ^ 32 = c.toNat <<< 8 := by
      have := c.toNat_lt
      rw [Nat.shiftLeft_eq]
      omega
    apply BitVec.eq_of_toNat_eq
    rw [BitVec.toNat_append, BitVec.toNat_append, BitVec.toNat_append, Nat.shiftLeft_or_distrib,
      Nat.shiftLeft_or_distrib, Nat.shiftLeft_or_distrib, ← Nat.shiftLeft_add, ← Nat.shiftLeft_add,
      ← Nat.shiftLeft_add]
    show (a.toUInt32 <<< 24 ||| b.toUInt32 <<< 16 ||| c.toUInt32 <<< 8 ||| d.toUInt32).toNat = _
    simp only [UInt32.toNat_or, UInt32.toNat_shiftLeft, UInt8.toNat_toUInt32]
    show a.toNat <<< 24 % 2 ^ 32 ||| b.toNat <<< 16 % 2 ^ 32 ||| c.toNat <<< 8 % 2 ^ 32 ||| d.toNat = _
    rw [ha, hb, hc]
    rfl
  exact hword _ _ _ _

/-- `sha1_byte` in arithmetic. -/
theorem sha1_byte_toNat (w : UInt32) (i : Nat) :
    (sha1_byte w i).toNat = w.toNat / 2 ^ (8 * (3 - i % 4)) % 256 := by
  have hshift : (UInt32.ofNat ((3 - i % 4) * 8)).toNat % 32 = 8 * (3 - i % 4) := by
    rw [UInt32.toNat_ofNat_of_lt' (show (3 - i % 4) * 8 < 2 ^ 32 by omega)]
    omega
  unfold sha1_byte
  rw [UInt32.toNat_toUInt8, UInt32.toNat_and, UInt32.toNat_shiftRight, hshift,
    Nat.shiftRight_eq_div_pow]
  show (_ &&& (2 ^ 8 - 1)) % 2 ^ 8 = _
  rw [Nat.and_two_pow_sub_one_eq_mod]
  omega

theorem bytes_getElem (n : Nat) (w : BitVec (8 * n)) {i : Nat} (h : i < (bytes n w).length) :
    ((bytes n w)[i]).toNat = w.toNat / 2 ^ (8 * (n - 1 - i)) % 256 := by
  have hget : (bytes n w)[i] = ⟨w.extractLsb' (8 * (n - 1 - i)) 8⟩ := by simp [bytes]
  rw [hget, ← Nat.shiftRight_eq_div_pow]
  exact BitVec.extractLsb'_toNat _ _ _

theorem sha1_byte_bytes (w : UInt32) :
    [sha1_byte w 0, sha1_byte w 1, sha1_byte w 2, sha1_byte w 3] = bytes 4 w.toBitVec := by
  apply List.ext_getElem
  · rw [length_bytes]
    rfl
  · intro i hi hi'
    have hlt : i < 4 := hi
    apply UInt8.toNat_inj.mp
    rw [bytes_getElem]
    have hbyte : [sha1_byte w 0, sha1_byte w 1, sha1_byte w 2, sha1_byte w 3][i] = sha1_byte w i := by
      interval_cases i <;> rfl
    rw [hbyte, sha1_byte_toNat, Nat.mod_eq_of_lt hlt]
    rfl

/-! ## Section 2: A block -/

/-- The working variables as the state of the standard. -/
def Sha1Vars.state (r : Sha1Vars) : SecureHash.State :=
  ⟨r.v.toBitVec, r.w.toBitVec, r.x.toBitVec, r.y.toBitVec, r.z.toBitVec⟩

/-- Before round `i` the 16 words are those of the schedule that the next
    rounds need, each at the remainder of its number. -/
structure Window (M : Nat → Word) (i : Nat) (l : List UInt32) : Prop where
  length : l.length = 16
  words : ∀ t, t < max 16 i → max 16 i ≤ t + 16 → (l.getD (t % 16) 0).toBitVec = W M t

theorem window_start (block : Bytes) : Window (word block) 0 ((List.range 16).map (blk0 block)) := by
  refine ⟨by rw [List.length_map, List.length_range], ?_⟩
  intro t ht _
  have hlt : t < 16 := ht
  rw [Nat.mod_eq_of_lt hlt, W_early _ hlt, ← blk0_toBitVec]
  simp [hlt]

/-- A round that uses word `i`. -/
theorem Window.round {M : Nat → Word} {i : Nat} {l : List UInt32} (h : Window M i l) :
    let l' := if i < 16 then l else l.set (i % 16) (blk l i)
    Window M (i + 1) l' ∧ (l'.getD (i % 16) 0).toBitVec = W M i := by
  obtain ⟨hlen, hwords⟩ := h
  dsimp only
  split
  · next hi =>
    rw [Nat.max_eq_left (by omega)] at hwords
    refine ⟨⟨hlen, ?_⟩, hwords i hi (by omega)⟩
    rw [Nat.max_eq_left (by omega)]
    exact hwords
  · next hi =>
    rw [Nat.max_eq_right (by omega)] at hwords
    have hnew : (blk l i).toBitVec = W M i := by
      obtain ⟨k, rfl⟩ : ∃ k, i = k + 16 := ⟨i - 16, by omega⟩
      have h3 := hwords (k + 13) (by omega) (by omega)
      have h8 := hwords (k + 8) (by omega) (by omega)
      have h14 := hwords (k + 2) (by omega) (by omega)
      have h16 := hwords k (by omega) (by omega)
      rw [show (k + 13) % 16 = (k + 16 + 13) % 16 by omega] at h3
      rw [show (k + 8) % 16 = (k + 16 + 8) % 16 by omega] at h8
      rw [show (k + 2) % 16 = (k + 16 + 2) % 16 by omega] at h14
      rw [show k % 16 = (k + 16) % 16 by omega] at h16
      rw [W_late, ← h3, ← h8, ← h14, ← h16, blk, (rol_toBitVec _).1]
      rfl
    have hself : (l.set (i % 16) (blk l i)).getD (i % 16) 0 = blk l i := by
      rw [List.getD_eq_getElem?_getD, List.getElem?_set_self (by omega), Option.getD_some]
    refine ⟨⟨by rw [List.length_set, hlen], ?_⟩, by rw [hself, hnew]⟩
    intro t ht ht'
    rw [Nat.max_eq_right (by omega)] at ht ht'
    by_cases hti : t = i
    · rw [hti, hself, hnew]
    · -- no other word in the window has this remainder
      rw [List.getD_eq_getElem?_getD, List.getElem?_set_ne (by omega), ← List.getD_eq_getElem?_getD]
      exact hwords t (by omega) (by omega)

/-- The rounds are those of the standard. -/
theorem sha1_rounds (state : Sha1Vars) (block : Bytes) (n : Nat) :
    let r := (List.range n).foldl sha1_round ((List.range 16).map (blk0 block), state)
    Window (word block) n r.1 ∧
      r.2.state = (List.range n).foldl (SecureHash.round (word block)) state.state := by
  induction n with
  | zero => exact ⟨window_start block, rfl⟩
  | succ n ih =>
    dsimp only
    rw [show List.range (n + 1) = List.range n ++ [n] from List.range_succ, List.foldl_append,
      List.foldl_append, List.foldl_cons, List.foldl_nil, List.foldl_cons, List.foldl_nil]
    obtain ⟨hwindow, hstate⟩ := ih
    rw [← hstate]
    generalize (List.range n).foldl sha1_round _ = p at *
    obtain ⟨l, r⟩ := p
    obtain ⟨hnext, hword⟩ := hwindow.round
    refine ⟨hnext, ?_⟩
    have hmix := sha1_mix_toBitVec n r
    obtain ⟨-, h5, h30⟩ := rol_toBitVec r.v
    have hz : (r.z + (sha1_mix n r + (if n < 16 then l else l.set (n % 16) (blk l n)).getD (n % 16) 0 +
        rol r.v 5)).toBitVec = r.v.toBitVec.rotateLeft 5 +
          f n r.w.toBitVec r.x.toBitVec r.y.toBitVec + r.z.toBitVec + K n + W (word block) n := by
      rw [← hword, ← h5]
      show r.z.toBitVec + ((sha1_mix n r).toBitVec + _ + _) = _
      rw [hmix]
      ac_rfl
    unfold sha1_round Sha1Vars.state SecureHash.round
    dsimp only
    rw [hz, (rol_toBitVec r.w).2.2]

/-- **A block** is compressed as the standard says. -/
theorem sha1_transform_state (state : Sha1Vars) (block : Bytes) :
    (sha1_transform state block).state = compress state.state block := by
  obtain ⟨-, hstate⟩ := sha1_rounds state block 80
  unfold compress
  rw [← hstate]
  rfl

/-! ## Section 3: Data in pieces -/

/-- The context after the data `m`: the number of its bits, the state after
    its whole blocks, and what is left over. -/
structure Absorbed (m : Bytes) (ctx : Sha1Context) : Prop where
  state : ctx.state.state = BlockHash.chain compress 64 initial m
  low : ctx.count.1.toNat = 8 * m.length % 2 ^ 32
  high : ctx.count.2.toNat = 8 * m.length / 2 ^ 32 % 2 ^ 32
  length : ctx.buffer.length = 64
  held : ctx.buffer.take (m.length % 64) = BlockHash.rest 64 m

theorem absorbed_init : Absorbed [] sha1_init := by
  constructor
  case state => rfl
  case low => rfl
  case high => rfl
  case length => rfl
  case held => rfl

theorem length_sha1_put {buffer data : Bytes} {j : Nat} (h : j + data.length ≤ buffer.length) :
    (sha1_put buffer j data).length = buffer.length := by
  unfold sha1_put
  rw [List.length_append, List.length_append, List.length_take, List.length_drop]
  omega

theorem take_sha1_put (data : Bytes) {buffer : Bytes} {j : Nat} (h : j ≤ buffer.length) :
    (sha1_put buffer j data).take (j + data.length) = buffer.take j ++ data := by
  unfold sha1_put
  apply List.take_left'
  rw [List.length_append, List.length_take, Nat.min_eq_left h]

/-- The whole blocks that are not copied into the buffer. -/
theorem sha1_blocks_spec (fuel : Nat) (state : Sha1Vars) (data : Bytes) (h : data.length ≤ fuel) :
    (sha1_blocks fuel state data).1.state = BlockHash.chain compress 64 state.state data ∧
      (sha1_blocks fuel state data).2 = BlockHash.rest 64 data := by
  induction fuel generalizing state data with
  | zero =>
    obtain rfl : data = [] := List.length_eq_zero_iff.mp (by omega)
    exact ⟨rfl, rfl⟩
  | succ fuel ih =>
    rw [sha1_blocks]
    split
    · next hlong =>
      have htake : (data.take 64).length = 64 := by
        rw [List.length_take]
        omega
      have hdvd : 64 ∣ (data.take 64).length := by rw [htake]
      obtain ⟨hstate, hrest⟩ := ih (sha1_transform state (data.take 64)) (data.drop 64)
        (by rw [List.length_drop]; omega)
      rw [hstate, hrest, sha1_transform_state,
        ← BlockHash.chain_self compress (by decide) state.state htake,
        ← BlockHash.chain_append compress (by decide) _ hdvd,
        ← BlockHash.rest_append (by decide) hdvd, List.take_append_drop]
      exact ⟨rfl, rfl⟩
    · next hshort =>
      rw [BlockHash.chain_short _ _ (by omega), BlockHash.rest_short (by omega)]
      exact ⟨rfl, rfl⟩

theorem count_position (count : UInt32) : ((count >>> 3) &&& 63).toNat = count.toNat / 8 % 64 := by
  rw [UInt32.toNat_and, UInt32.toNat_shiftRight]
  show count.toNat >>> 3 &&& (2 ^ 6 - 1) = _
  rw [Nat.shiftRight_eq_div_pow, Nat.and_two_pow_sub_one_eq_mod]

/-- The two words of the counter, with the carry. -/
theorem count_update {n d : Nat} {low high : UInt32} (hd : d < 2 ^ 31)
    (hlow : low.toNat = 8 * n % 2 ^ 32) (hhigh : high.toNat = 8 * n / 2 ^ 32 % 2 ^ 32) :
    (low + (UInt32.ofNat d <<< 3)).toNat = 8 * (n + d) % 2 ^ 32 ∧
      ((if low + (UInt32.ofNat d <<< 3) < low then high + 1 else high) +
        (UInt32.ofNat d >>> 29)).toNat = 8 * (n + d) / 2 ^ 32 % 2 ^ 32 := by
  have hof : (UInt32.ofNat d).toNat = d := UInt32.toNat_ofNat_of_lt' (show d < 2 ^ 32 by omega)
  have hleft : (UInt32.ofNat d <<< 3).toNat = 8 * d % 2 ^ 32 := by
    rw [UInt32.toNat_shiftLeft, hof]
    show d <<< 3 % 2 ^ 32 = _
    rw [Nat.shiftLeft_eq]
    omega
  have hright : (UInt32.ofNat d >>> 29).toNat = 8 * d / 2 ^ 32 := by
    rw [UInt32.toNat_shiftRight, hof]
    show d >>> 29 = _
    rw [Nat.shiftRight_eq_div_pow]
    omega
  have hsum : (low + (UInt32.ofNat d <<< 3)).toNat = 8 * (n + d) % 2 ^ 32 := by
    rw [UInt32.toNat_add, hlow, hleft]
    omega
  refine ⟨hsum, ?_⟩
  rw [UInt32.toNat_add, hright]
  split
  · next hcarry =>
    rw [UInt32.lt_iff_toNat_lt, hsum, hlow] at hcarry
    rw [UInt32.toNat_add, hhigh]
    show ((_ + 1) % 2 ^ 32 + _) % 2 ^ 32 = _
    omega
  · next hcarry =>
    rw [UInt32.lt_iff_toNat_lt, hsum, hlow] at hcarry
    rw [hhigh]
    omega

/-- **Data is added**, of any size that an `int32_t` holds. -/
theorem Absorbed.update {m : Bytes} {ctx : Sha1Context} (h : Absorbed m ctx) {data : Bytes}
    (hsize : data.length < 2 ^ 31) : Absorbed (m ++ data) (sha1_update ctx data) := by
  obtain ⟨hlow, hhigh⟩ := count_update hsize h.low h.high
  have hlen := h.length
  have hj : ((ctx.count.1 >>> 3) &&& 63).toNat = m.length % 64 := by
    rw [count_position, h.low]
    omega
  have hrest : (BlockHash.rest 64 m).length = m.length % 64 := BlockHash.length_rest 64 m
  unfold sha1_update
  dsimp only
  rw [hj]
  split
  · next hfull =>
    -- the buffer is filled up with the first part of the data
    obtain ⟨first, hfirst⟩ : ∃ first, first = data.take (64 - m.length % 64) := ⟨_, rfl⟩
    obtain ⟨later, hlater⟩ : ∃ later, later = data.drop (64 - m.length % 64) := ⟨_, rfl⟩
    rw [← hfirst, ← hlater]
    have hdata : data = first ++ later := by rw [hfirst, hlater, List.take_append_drop]
    have hfl : first.length = 64 - m.length % 64 := by
      rw [hfirst, List.length_take]
      omega
    have hput : sha1_put ctx.buffer (m.length % 64) first = BlockHash.rest 64 m ++ first := by
      rw [sha1_put, h.held, List.drop_eq_nil_of_le (by omega), List.append_nil]
    have hblock : (BlockHash.rest 64 m ++ first).length = 64 := by
      rw [List.length_append]
      omega
    have hdvd : 64 ∣ (BlockHash.rest 64 m ++ first).length := by rw [hblock]
    obtain ⟨hstate, hend⟩ := sha1_blocks_spec data.length
      (sha1_transform ctx.state (BlockHash.rest 64 m ++ first)) later
      (by rw [hlater, List.length_drop]; omega)
    have hendlen : (BlockHash.rest 64 later).length = later.length % 64 := BlockHash.length_rest 64 _
    have htotal : (m ++ data).length % 64 = later.length % 64 := by
      rw [hdata, List.length_append, List.length_append, hfl]
      omega
    have hmore : BlockHash.rest 64 (m ++ data) = BlockHash.rest 64 later := by
      rw [BlockHash.rest_more (by decide), hdata, ← List.append_assoc,
        BlockHash.rest_append (by decide) hdvd]
    rw [hput]
    constructor
    case state =>
      show (sha1_blocks _ _ _).1.state = _
      rw [hstate, sha1_transform_state, h.state, BlockHash.chain_more compress (by decide) initial m,
        hdata, ← List.append_assoc, BlockHash.chain_append compress (by decide) _ hdvd,
        BlockHash.chain_self compress (by decide) _ hblock]
    case low => rwa [List.length_append]
    case high => rwa [List.length_append]
    case length =>
      show (sha1_put _ 0 (sha1_blocks _ _ _).2).length = 64
      rw [hend, length_sha1_put (by omega), hblock]
    case held =>
      show (sha1_put _ 0 (sha1_blocks _ _ _).2).take _ = _
      rw [hend, htotal, hmore, ← hendlen]
      have htake := take_sha1_put (BlockHash.rest 64 later)
        (Nat.zero_le (BlockHash.rest 64 m ++ first).length)
      rwa [Nat.zero_add, List.take_zero, List.nil_append] at htake
  · next hroom =>
    have hshort : (BlockHash.rest 64 m ++ data).length < 64 := by
      rw [List.length_append]
      omega
    have htotal : (m ++ data).length % 64 = m.length % 64 + data.length := by
      rw [List.length_append]
      omega
    constructor
    case state =>
      rw [BlockHash.chain_more compress (by decide), BlockHash.chain_short _ _ hshort]
      exact h.state
    case low => rwa [List.length_append]
    case high => rwa [List.length_append]
    case length =>
      show (sha1_put _ _ _).length = 64
      rw [length_sha1_put (by omega), hlen]
    case held =>
      show (sha1_put _ _ _).take _ = _
      rw [htotal, take_sha1_put _ (by omega), h.held, BlockHash.rest_more (by decide),
        BlockHash.rest_short hshort]

/-! ## Section 4: The digest -/

/-- The three bits of a size in bytes that do not fit a byte's worth of bits. -/
theorem and_504 (n : Nat) : n &&& 504 = n / 8 % 64 * 8 := by
  have hmask : 504 = (2 ^ 6 - 1) <<< 3 := rfl
  have hsplit : n / 8 % 64 * 8 = (n >>> 3 &&& (2 ^ 6 - 1)) <<< 3 := by
    rw [Nat.and_two_pow_sub_one_eq_mod, Nat.shiftRight_eq_div_pow, Nat.shiftLeft_eq]
  rw [hsplit, hmask]
  apply Nat.eq_of_testBit_eq
  intro i
  rw [Nat.testBit_and, Nat.testBit_shiftLeft, Nat.testBit_shiftLeft, Nat.testBit_and,
    Nat.testBit_shiftRight]
  by_cases hi : 3 ≤ i
  · rw [Nat.add_sub_cancel' hi]
    simp [hi]
  · simp [hi]

/-- What the loop of `sha1_final` asks for. -/
theorem Absorbed.room {m : Bytes} {ctx : Sha1Context} (h : Absorbed m ctx) :
    ctx.count.1 &&& 504 ≠ 448 ↔ m.length % 64 ≠ 56 := by
  have hand : (ctx.count.1 &&& 504).toNat = m.length % 64 * 8 := by
    rw [UInt32.toNat_and]
    show ctx.count.1.toNat &&& 504 = _
    rw [and_504, h.low]
    omega
  rw [Ne, ← UInt32.toNat_inj, hand]
  show ¬ _ = 448 ↔ _
  omega

/-- The zeros up to the length. -/
theorem Absorbed.pad (fuel : Nat) {m : Bytes} {ctx : Sha1Context} (h : Absorbed m ctx)
    (hfuel : (120 - m.length % 64) % 64 ≤ fuel) :
    Absorbed (m ++ List.replicate ((120 - m.length % 64) % 64) 0) (sha1_pad fuel ctx) := by
  induction fuel generalizing m ctx with
  | zero =>
    rw [Nat.le_zero.mp hfuel, List.replicate_zero, List.append_nil]
    exact h
  | succ fuel ih =>
    rw [sha1_pad]
    split
    · next hmore =>
      have hroom := h.room.mp hmore
      have hlen : (m ++ [0]).length = m.length + 1 := List.length_append
      have hless : (120 - m.length % 64) % 64 = (120 - (m ++ [0]).length % 64) % 64 + 1 := by
        rw [hlen]
        omega
      have hzero : Absorbed (m ++ [0]) (sha1_update ctx [0]) := h.update (by decide)
      have hpad := ih hzero (by omega)
      rwa [List.append_assoc, List.singleton_append, ← List.replicate_succ, ← hless] at hpad
    · next hdone =>
      have hroom : m.length % 64 = 56 := not_not.mp (mt h.room.mpr hdone)
      rw [hroom]
      show Absorbed (m ++ []) ctx
      rwa [List.append_nil]

/-- `finalcount`. -/
theorem Absorbed.finalcount {m : Bytes} {ctx : Sha1Context} (h : Absorbed m ctx) :
    ((List.range 8).map fun i => sha1_byte (if i ≥ 4 then ctx.count.1 else ctx.count.2) i) =
      bytes 8 (BitVec.ofNat 64 (8 * m.length)) := by
  apply List.ext_getElem
  · rw [length_bytes]
    rfl
  · intro i hi hi'
    rw [length_bytes] at hi'
    apply UInt8.toNat_inj.mp
    rw [bytes_getElem, List.getElem_map, List.getElem_range, sha1_byte_toNat]
    show _ = 8 * m.length % 2 ^ 64 / 2 ^ (8 * (8 - 1 - i)) % 256
    have hword : (if i ≥ 4 then ctx.count.1 else ctx.count.2).toNat =
        if i ≥ 4 then 8 * m.length % 2 ^ 32 else 8 * m.length / 2 ^ 32 % 2 ^ 32 := by
      rw [← h.low, ← h.high]
      split <;> rfl
    rw [hword]
    interval_cases i <;> norm_num <;> omega

/-- **The end**: the digest of what has been taken in. -/
theorem Absorbed.final {m : Bytes} {ctx : Sha1Context} (h : Absorbed m ctx) :
    sha1_final ctx = digest m := by
  have hbit : Absorbed (m ++ [0o200]) (sha1_update ctx [0o200]) := h.update (by decide)
  have hpad := hbit.pad 64 (by omega)
  have hlen : (m ++ [(0o200 : UInt8)]).length = m.length + 1 := List.length_append
  have hzeros : (120 - (m ++ [(0o200 : UInt8)]).length % 64) % 64 = zeros m.length := by
    rw [hlen, zeros]
    omega
  rw [hzeros] at hpad
  have hcount := h.finalcount
  have hfit : (bytes 8 (BitVec.ofNat 64 (8 * m.length))).length < 2 ^ 31 := by
    rw [length_bytes]
    decide
  have hend := hpad.update hfit
  have hall : m ++ [0o200] ++ List.replicate (zeros m.length) 0 ++
      bytes 8 (BitVec.ofNat 64 (8 * m.length)) = SecureHash.pad m := by
    rw [SecureHash.pad, List.append_assoc m]
    rfl
  rw [hall, ← hcount] at hend
  have hstate := hend.state
  rw [digest, ← hstate, Sha1Vars.state, ← sha1_byte_bytes, ← sha1_byte_bytes, ← sha1_byte_bytes,
    ← sha1_byte_bytes, ← sha1_byte_bytes]
  rfl

theorem Absorbed.updates {m : Bytes} {ctx : Sha1Context} (h : Absorbed m ctx) {segs : List Bytes}
    (hsize : ∀ seg ∈ segs, seg.length < 2 ^ 31) :
    Absorbed (m ++ segs.flatten) (segs.foldl sha1_update ctx) := by
  induction segs generalizing m ctx with
  | nil => rwa [List.flatten_nil, List.append_nil]
  | cons seg segs ih =>
    have hseg := h.update (hsize seg List.mem_cons_self)
    have hrest := ih hseg (fun s hs => hsize s (List.mem_cons_of_mem _ hs))
    rwa [List.append_assoc] at hrest

/-- **Data in pieces**: however it is cut up, the digest is that of the whole. -/
theorem sha1_final_updates {segs : List Bytes} (h : ∀ seg ∈ segs, seg.length < 2 ^ 31) :
    sha1_final (segs.foldl sha1_update sha1_init) = digest segs.flatten :=
  (absorbed_init.updates h).final

theorem sha1_final_updates_two :
    sha1_final ([ascii "a", ascii "bc"].foldl sha1_update sha1_init) = digest (ascii "abc") :=
  sha1_final_updates (by decide)

/-- **The function** computes the message digest. -/
theorem sha1_digest (data : Bytes) (size : UInt32) :
    sha1 data size = digest (data.take size.toNat) := by
  have hbytes : (data.take size.toNat).foldl (fun ctx c => sha1_update ctx [c]) sha1_init =
      ((data.take size.toNat).map fun c => [c]).foldl sha1_update sha1_init := List.foldl_map.symm
  have hsize : ∀ seg ∈ (data.take size.toNat).map fun c => [c], seg.length < 2 ^ 31 := by
    intro seg hseg
    obtain ⟨c, -, rfl⟩ := List.mem_map.mp hseg
    show (1 : Nat) < 2 ^ 31
    decide
  rw [sha1, hbytes, (absorbed_init.updates hsize).final, List.nil_append, ← List.flatMap_def,
    List.flatMap_singleton']

end Pump
