import Pump.Loop
import Pump.Http.Chunked
import Pump.Http.Segments

/-! # The counters of a chunked body

    Any calls of `body::parse` on a body in chunk mode, with any buffers,
    also behind a failed call or behind the end of the body. -/

namespace Pump

namespace Body

/-! ## Section 1: Model -/

/-- One turn of the loop of `__parse_by_chunk`: the body, the bytes from
    `pos` on and the number of those before. -/
def chunk_turn : Body × Bytes × Nat → Reply Body ⊕ Body × Bytes × Nat
  | (body, b, size) =>
    if b = [] then .inl (.took size body)
    else
      match body.enter_chunk b with
      | .reply r => .inl (r.after size)
      | .chunk taken body =>
        let (stop, n, body) := body.take_chunk (b.drop taken)
        if stop then .inl (.took (size + taken) body)
        else .inr (body, b.drop (taken + n), size + taken + n)

/-- The chunk size that a turn adds to `expected_size_`. -/
def announced_size (body : Body) (b : Bytes) : Nat :=
  if body.parsing_chunk_size = 0 then
    match parse_chunk_size 0 b with
    | .value chunk_size _ => chunk_size
    | _ => 0
  else 0

/-- The chunk sizes that a call announces, together. -/
def announced (body : Body) (b : Bytes) : Nat :=
  Loop.spent chunk_turn (fun s => announced_size s.1 s.2.1) (b.length + 1) (body, b, 0)

/-- The calls with the buffers `bs`; `none` when one of them aborts. -/
def parse_all : Body → List Bytes → Option Body
  | body, [] => some body
  | body, b :: bs => (body.parse b).state.bind fun body' => parse_all body' bs

/-- The chunk sizes that the calls announce, together. -/
def announced_all : Body → List Bytes → Nat
  | _, [] => 0
  | body, b :: bs =>
    body.announced b + ((body.parse b).state.map fun body' => announced_all body' bs).getD 0

/-- The counters agree. -/
structure Consistent (body : Body) : Prop where
  parsing : body.parsing_chunk_size = 0 ∨ 2 ≤ body.parsing_chunk_size
  expected : (body.data.length + (body.parsing_chunk_size - 2 : Nat) : Int) = body.expected_size

/-- The call ends, with `-1` or a number of the bytes of `b`, no assertion
    fails, and the counters agree behind it. -/
def CallSound (body : Body) (b : Bytes) : Prop :=
  (∃ k, Loop.run chunk_turn k (body, b, 0) = some (body.parse b)) ∧
    ((∃ n body', body.parse b = .took n body' ∧ n ≤ b.length ∧ body'.Consistent) ∨
      ∃ body', body.parse b = .failed body' ∧ body'.Consistent)

/-! ## Section 2: One turn -/

/-- The data that has come and that which is to come. -/
def weight (body : Body) : Nat := body.data.length + (body.parsing_chunk_size - http_crlf_length)

/-- Invariant of a body in chunk mode. -/
structure Counting (body : Body) : Prop where
  mode : body.is_chunk_mode = true
  parsing : body.parsing_chunk_size = 0 ∨ http_crlf_length ≤ body.parsing_chunk_size
  expected : body.expected_size = wrap32 body.weight

theorem parse_chunk_size_pos {acc v taken : Nat} {c : UInt8} {b : Bytes}
    (h : parse_chunk_size acc (c :: b) = .value v taken) : taken ≠ 0 := by
  unfold parse_chunk_size at h
  split at h
  · cases h
  · split at h
    · split at h
      · cases h
      · split at h
        · cases h
        · cases h
          exact nofun
    · rcases hrest : parse_chunk_size (acc * 16 + hex_to_dec c) b with ⟨w, n⟩ | _ | _
      · rw [hrest] at h
        cases h
        exact Nat.succ_ne_zero n
      · rw [hrest] at h
        cases h
      · rw [hrest] at h
        cases h

/-- Behind the size line a chunk is to be taken. -/
theorem enter_chunk_counting {body body' : Body} (h : body.Counting) {b : Bytes} {taken : Nat}
    (hb : b ≠ []) (he : body.enter_chunk b = .chunk taken body') :
    body'.Counting ∧ http_crlf_length ≤ body'.parsing_chunk_size ∧ taken ≤ b.length ∧
      body'.weight = body.weight + announced_size body b ∧ (taken = 0 → body' = body) := by
  have htaken := enter_chunk_taken he
  unfold enter_chunk at he
  unfold announced_size
  by_cases hzero : body.parsing_chunk_size = 0
  · -- a size line
    rw [if_pos hzero] at he ⊢
    rcases hline : parse_chunk_size 0 b with ⟨v, n⟩ | _ | _
    · rw [hline] at he
      simp only at he
      split at he
      · split at he
        · split at he
          · cases he
          · split at he
            · cases he
            · cases he
        · cases he
      · -- a size above 0, which is to come from now on
        cases he
        have hpos : taken ≠ 0 := by
          obtain ⟨c, rest, rfl⟩ := List.exists_cons_of_ne_nil hb
          exact parse_chunk_size_pos hline
        have hweight : (Body.mk body.is_chunk_mode body.data (wrap32 (body.expected_size + v))
            (v + http_crlf_length) body.is_parse_finished).weight = body.weight + v := by
          show body.data.length + (v + http_crlf_length - http_crlf_length) =
            body.data.length + (body.parsing_chunk_size - http_crlf_length) + v
          omega
        have hexp : wrap32 (body.expected_size + v) = wrap32 (body.weight + v : Nat) := by
          rw [h.expected, wrap32_add, Nat.cast_add]
        refine ⟨⟨h.mode, .inr (Nat.le_add_left _ _), ?_⟩, Nat.le_add_left _ _, htaken, hweight,
          fun h0 => absurd h0 hpos⟩
        rw [hweight]
        exact hexp
    · rw [hline] at he
      cases he
    · rw [hline] at he
      cases he
  · rw [if_neg hzero] at he ⊢
    cases he
    exact ⟨h, h.parsing.resolve_left hzero, Nat.zero_le _, rfl, fun _ => rfl⟩

/-- A call that returns from there has announced nothing. -/
theorem enter_chunk_replies {body : Body} (h : body.Counting) {b : Bytes} {r : Reply Body}
    (he : body.enter_chunk b = .reply r) :
    announced_size body b = 0 ∧
      ∃ body', body'.Counting ∧ body'.weight = body.weight ∧
        ((∃ n, r = .took n body' ∧ n ≤ b.length) ∨ r = .failed body') := by
  unfold enter_chunk at he
  unfold announced_size
  by_cases hzero : body.parsing_chunk_size = 0
  · rw [if_pos hzero] at he ⊢
    rcases hline : parse_chunk_size 0 b with ⟨v, n⟩ | _ | _
    · rw [hline] at he
      simp only at he
      split at he
      · next hv =>
        subst hv
        -- a size of 0 leaves the counters as they are
        obtain ⟨body₁, hbody₁⟩ : ∃ body₁, body₁ = { body with
            expected_size := wrap32 (body.expected_size + (0 : Nat)), parsing_chunk_size := 0 } :=
          ⟨_, rfl⟩
        have hweight : body₁.weight = body.weight := by
          unfold weight
          rw [hbody₁, hzero]
        have hcount : body₁.Counting := by
          refine ⟨by rw [hbody₁]; exact h.mode, .inl (by rw [hbody₁]), ?_⟩
          rw [hweight, hbody₁]
          show wrap32 (body.expected_size + 0) = _
          rw [h.expected, wrap32_add, Int.add_zero]
        refine ⟨rfl, ?_⟩
        rw [← hbody₁] at he
        split at he
        · next hrest =>
          split at he
          · cases he
            exact ⟨body₁, hcount, hweight, .inr rfl⟩
          · split at he
            · -- the assertion holds: no data is to come
              next hne =>
              have hexp := hcount.expected
              rw [hbody₁] at hexp
              exact absurd hexp.symm hne
            · cases he
              have hlen := congrArg List.length hrest
              simp only [List.length_drop, List.length_cons] at hlen
              have h2 : http_crlf_length = 2 := rfl
              exact ⟨{ body₁ with is_parse_finished := true }, ⟨hcount.mode, hcount.parsing,
                hcount.expected⟩, hweight, .inl ⟨n + http_crlf_length, by rw [hbody₁], by omega⟩⟩
        · cases he
          exact ⟨body₁, hcount, hweight, .inl ⟨0, rfl, Nat.zero_le _⟩⟩
      · cases he
    · rw [hline] at he
      cases he
      exact ⟨rfl, body, h, rfl, .inl ⟨0, rfl, Nat.zero_le _⟩⟩
    · rw [hline] at he
      cases he
      exact ⟨rfl, body, h, rfl, .inr rfl⟩
  · rw [if_neg hzero] at he
    cases he

/-- Data that has come is no longer to come. -/
theorem take_chunk_counting {body body' : Body} (h : body.Counting)
    (hsize : http_crlf_length ≤ body.parsing_chunk_size) {b : Bytes} {stop : Bool} {n : Nat}
    (ht : body.take_chunk b = (stop, n, body')) :
    body'.Counting ∧ body'.weight = body.weight ∧ (stop = false → b ≠ [] → n ≠ 0) := by
  -- the counters behind the turn
  have hkeep : ∀ body' : Body, body'.is_chunk_mode = body.is_chunk_mode →
      body'.expected_size = body.expected_size → body'.weight = body.weight →
      (body'.parsing_chunk_size = 0 ∨ http_crlf_length ≤ body'.parsing_chunk_size) →
      body'.Counting := by
    intro body' hmode hexp hweight hparsing
    exact ⟨hmode.trans h.mode, hparsing, by rw [hexp, h.expected, hweight]⟩
  unfold take_chunk at ht
  simp only at ht
  split at ht
  · -- the whole chunk and the two bytes behind it
    next hall =>
    cases ht
    have htake : (if body.parsing_chunk_size > http_crlf_length
        then body.data ++ b.take (body.parsing_chunk_size - http_crlf_length)
        else body.data).length = body.data.length + (body.parsing_chunk_size - http_crlf_length) := by
      split
      · rw [List.length_append, List.length_take]
        omega
      · omega
    have hweight : (Body.mk body.is_chunk_mode (if body.parsing_chunk_size > http_crlf_length
        then body.data ++ b.take (body.parsing_chunk_size - http_crlf_length)
        else body.data) body.expected_size 0 body.is_parse_finished).weight = body.weight := by
      unfold weight
      rw [htake, Nat.zero_sub]
      rfl
    refine ⟨hkeep _ rfl rfl hweight (.inl rfl), hweight, fun _ _ => ?_⟩
    have h2 : http_crlf_length = 2 := rfl
    omega
  · next hall =>
    split at ht
    · cases ht
      exact ⟨h, rfl, nofun⟩
    · next hcrlf =>
      split at ht
      · -- data only
        next hmore =>
        cases ht
        have hweight : (Body.mk body.is_chunk_mode (body.data ++ b) body.expected_size
            (body.parsing_chunk_size - b.length) body.is_parse_finished).weight = body.weight := by
          show (body.data ++ b).length + (body.parsing_chunk_size - b.length - http_crlf_length) =
            body.data.length + (body.parsing_chunk_size - http_crlf_length)
          rw [List.length_append]
          omega
        refine ⟨hkeep _ rfl rfl hweight (.inr hmore), hweight, fun _ hb => ?_⟩
        exact fun h0 => hb (List.eq_nil_of_length_eq_zero h0)
      · -- the data and one of the two bytes, which stays
        next hmore =>
        cases ht
        have hweight : (Body.mk body.is_chunk_mode
            (body.data ++ b.take (body.parsing_chunk_size - http_crlf_length)) body.expected_size
            http_crlf_length body.is_parse_finished).weight = body.weight := by
          show (body.data ++ b.take (body.parsing_chunk_size - http_crlf_length)).length +
            (http_crlf_length - http_crlf_length) =
            body.data.length + (body.parsing_chunk_size - http_crlf_length)
          rw [List.length_append, List.length_take]
          omega
        refine ⟨hkeep _ rfl rfl hweight (.inr (Nat.le_refl _)), hweight, fun _ _ => ?_⟩
        omega

/-- A turn that goes on has taken a byte. -/
theorem chunk_turn_next {body body' : Body} (h : body.Counting) {b b' : Bytes} {size size' : Nat}
    (ht : chunk_turn (body, b, size) = .inr (body', b', size')) :
    body'.Counting ∧ body'.weight = body.weight + announced_size body b ∧
      b'.length < b.length ∧ size' + b'.length = size + b.length := by
  unfold chunk_turn at ht
  simp only at ht
  by_cases hb : b = []
  · rw [if_pos hb] at ht
    cases ht
  · rw [if_neg hb] at ht
    rcases he : body.enter_chunk b with r | ⟨taken, body₁⟩
    · rw [he] at ht
      cases ht
    · obtain ⟨hcount, hsize, htaken, hweight, hstay⟩ := enter_chunk_counting h hb he
      rcases htc : body₁.take_chunk (b.drop taken) with ⟨stop, n, body₂⟩
      obtain ⟨hcount', hweight', hmove⟩ := take_chunk_counting hcount hsize htc
      have hn : n ≤ (b.drop taken).length := by
        have := take_chunk_taken body₁ (b.drop taken)
        rwa [htc] at this
      rw [List.length_drop] at hn
      rw [he] at ht
      simp only [htc] at ht
      split at ht
      · cases ht
      · next hstop =>
        cases ht
        -- without a size line, the data is taken
        have hpos : 0 < taken + n := by
          by_cases h0 : taken = 0
          · subst h0
            have := hmove (by simpa using hstop) hb
            omega
          · omega
        have hlen : 0 < b.length := List.length_pos_iff.mpr hb
        rw [List.length_drop]
        exact ⟨hcount', by rw [hweight', hweight], by omega, by omega⟩

theorem chunk_turn_leave {body : Body} (h : body.Counting) {b : Bytes} {size : Nat}
    {r : Reply Body} (ht : chunk_turn (body, b, size) = .inl r) :
    ∃ body', body'.Counting ∧ body'.weight = body.weight + announced_size body b ∧
      ((∃ n, r = .took n body' ∧ n ≤ size + b.length) ∨ r = .failed body') := by
  unfold chunk_turn at ht
  simp only at ht
  by_cases hb : b = []
  · rw [if_pos hb] at ht
    cases ht
    have hnone : announced_size body b = 0 := by
      unfold announced_size
      rw [hb]
      split
      · rfl
      · rfl
    exact ⟨body, h, by rw [hnone]; rfl, .inl ⟨size, rfl, Nat.le_add_right _ _⟩⟩
  · rw [if_neg hb] at ht
    rcases he : body.enter_chunk b with r' | ⟨taken, body₁⟩
    · rw [he] at ht
      cases ht
      obtain ⟨hnone, body', hcount, hweight, hcase⟩ := enter_chunk_replies h he
      refine ⟨body', hcount, by rw [hweight, hnone]; rfl, ?_⟩
      rcases hcase with ⟨n, rfl, hn⟩ | rfl
      · exact .inl ⟨size + n, rfl, by omega⟩
      · exact .inr rfl
    · obtain ⟨hcount, hsize, htaken, hweight, -⟩ := enter_chunk_counting h hb he
      rcases htc : body₁.take_chunk (b.drop taken) with ⟨stop, n, body₂⟩
      obtain ⟨hcount', hweight', -⟩ := take_chunk_counting hcount hsize htc
      rw [he] at ht
      simp only [htc] at ht
      split at ht
      · cases ht
        exact ⟨body₂, hcount', by rw [hweight', hweight], .inl ⟨size + taken, rfl, by omega⟩⟩
      · cases ht

/-! ## Section 3: One call -/

theorem parse_chunk_loop_succ (fuel : Nat) (body : Body) (b : Bytes) (size : Nat) :
    parse_chunk_loop (fuel + 1) body b size =
      match chunk_turn (body, b, size) with
      | .inl r => r
      | .inr (body', b', size') => parse_chunk_loop fuel body' b' size' := by
  conv_lhs => unfold parse_chunk_loop
  unfold chunk_turn
  by_cases hb : b = []
  · simp only [if_pos hb]
  · simp only [if_neg hb]
    rcases body.enter_chunk b with r | ⟨taken, body₁⟩
    · rfl
    · rcases htc : body₁.take_chunk (b.drop taken) with ⟨stop, n, body₂⟩
      simp only [htc]
      rcases stop with _ | _
      · simp only [Bool.false_eq_true, if_false]
      · simp only [if_true]

/-- The fuel of the loop is enough: that many turns leave it. -/
theorem run_chunk_turn {body : Body} (h : body.Counting) {b : Bytes} {fuel : Nat}
    (hfuel : b.length ≤ fuel) (size : Nat) :
    Loop.run chunk_turn (fuel + 1) (body, b, size) = some (parse_chunk_loop fuel body b size) := by
  induction fuel generalizing body b size with
  | zero =>
    obtain rfl : b = [] := List.eq_nil_of_length_eq_zero (by omega)
    rfl
  | succ fuel ih =>
    rw [parse_chunk_loop_succ]
    rcases hturn : chunk_turn (body, b, size) with r | ⟨body', b', size'⟩
    · exact Loop.run_leave hturn (fuel + 1)
    · obtain ⟨hcount, -, hlt, -⟩ := chunk_turn_next h hturn
      rw [Loop.run_next hturn]
      exact ih hcount (by omega) size'

/-- What a call leaves, if it does not abort. -/
theorem parse_counting {body : Body} (h : body.Counting) (b : Bytes) :
    ∃ body', body'.Counting ∧ body'.weight = body.weight + body.announced b ∧
      ((∃ n, body.parse b = .took n body' ∧ n ≤ b.length) ∨ body.parse b = .failed body') := by
  have hparse : body.parse b = parse_chunk_loop b.length body b 0 := by
    unfold parse
    rw [if_pos h.mode]
    rfl
  have hrun := run_chunk_turn h (Nat.le_refl b.length) 0
  rw [hparse]
  -- the sizes announced so far are the weight gained so far
  have hrule := @Loop.run_rule _ _ chunk_turn (fun s => announced_size s.1 s.2.1)
    (fun s m => s.1.Counting ∧ s.1.weight = body.weight + m ∧ s.2.2 + s.2.1.length = b.length)
    (fun r m => ∃ body', body'.Counting ∧ body'.weight = body.weight + m ∧
      ((∃ n, r = .took n body' ∧ n ≤ b.length) ∨ r = .failed body'))
    ?_ ?_ (b.length + 1) 0 (body, b, 0) _ ⟨h, rfl, Nat.zero_add _⟩ hrun
  · rw [Nat.zero_add] at hrule
    exact hrule
  · rintro ⟨body₁, b₁, size₁⟩ ⟨body₂, b₂, size₂⟩ m ⟨hcount, hweight, hlen⟩ hturn
    obtain ⟨hcount', hweight', -, hlen'⟩ := chunk_turn_next hcount hturn
    exact ⟨hcount', by rw [hweight', hweight, Nat.add_assoc], hlen'.trans hlen⟩
  · rintro ⟨body₁, b₁, size₁⟩ r m ⟨hcount, hweight, hlen⟩ hturn
    obtain ⟨body', hcount', hweight', hcase⟩ := chunk_turn_leave hcount hturn
    refine ⟨body', hcount', by rw [hweight', hweight, Nat.add_assoc], ?_⟩
    rw [← hlen]
    exact hcase

/-! ## Section 4: Any calls -/

theorem Counting.consistent {body : Body} (h : body.Counting) (hlt : body.weight < 2 ^ 31) :
    body.Consistent := by
  refine ⟨h.parsing, ?_⟩
  rw [h.expected, wrap32_eq (by omega) (by omega)]
  rfl

theorem parse_all_counting {body : Body} (h : body.Counting) (bs : List Bytes) :
    ∃ body', parse_all body bs = some body' ∧ body'.Counting ∧
      body'.weight = body.weight + announced_all body bs := by
  induction bs generalizing body with
  | nil => exact ⟨body, rfl, h, rfl⟩
  | cons b bs ih =>
    obtain ⟨body₁, hcount, hweight, hcase⟩ := parse_counting h b
    have hstate : (body.parse b).state = some body₁ := by
      rcases hcase with ⟨n, hn, -⟩ | hfail
      · rw [hn]
        rfl
      · rw [hfail]
        rfl
    obtain ⟨body₂, hall, hcount', hweight'⟩ := ih hcount
    refine ⟨body₂, ?_, hcount', ?_⟩
    · rw [parse_all, hstate]
      exact hall
    · rw [hweight', hweight, announced_all, hstate, Nat.add_assoc]
      rfl

theorem announced_all_append {body body' : Body} {bs : List Bytes}
    (h : parse_all body bs = some body') (bs' : List Bytes) :
    announced_all body (bs ++ bs') = announced_all body bs + announced_all body' bs' := by
  induction bs generalizing body with
  | nil =>
    cases h
    exact (Nat.zero_add _).symm
  | cons b bs ih =>
    rw [parse_all] at h
    obtain ⟨body₁, hstate, hall⟩ := Option.bind_eq_some_iff.mp h
    rw [List.cons_append, announced_all, announced_all, hstate, Option.map_some, Option.map_some,
      Option.getD_some, Option.getD_some, ih hall, Nat.add_assoc]

/-- **The counters.** Whatever calls a new body in chunk mode has had, the
    next one is sound, if the chunk sizes announced fit together in an
    `int32_t`. -/
theorem every_call_sound (bs : List Bytes) (b : Bytes)
    (h : announced_all construct.set_chunked (bs ++ [b]) < 2 ^ 31) :
    ∃ body, parse_all construct.set_chunked bs = some body ∧ CallSound body b := by
  have hfresh : construct.set_chunked.Counting := ⟨rfl, .inl rfl, by decide⟩
  obtain ⟨body, hall, hcount, hweight⟩ := parse_all_counting hfresh bs
  obtain ⟨body', hcount', hweight', hcase⟩ := parse_counting hcount b
  have htotal := announced_all_append hall [b]
  have hone : body.announced b ≤ announced_all body [b] := Nat.le_add_right _ _
  have hzero : construct.set_chunked.weight = 0 := rfl
  have hcons := hcount'.consistent (by omega)
  refine ⟨body, hall, ?_, ?_⟩
  · refine ⟨b.length + 1, ?_⟩
    rw [run_chunk_turn hcount (Nat.le_refl _)]
    unfold parse
    rw [if_pos hcount.mode]
    rfl
  · rcases hcase with ⟨n, hn, hle⟩ | hfail
    · exact .inl ⟨n, body', hn, hle, hcons⟩
    · exact .inr ⟨body', hfail, hcons⟩

/-- A chunk of three bytes in two calls. -/
theorem every_call_sound_three :
    ∃ body, parse_all construct.set_chunked [ascii "3\r\nab"] = some body ∧
      CallSound body (ascii "c\r\n0\r\n\r\n") :=
  every_call_sound [ascii "3\r\nab"] (ascii "c\r\n0\r\n\r\n") (by decide)

end Body

end Pump
