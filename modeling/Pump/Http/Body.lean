import Pump.Incremental
import Pump.Http.Utils

/-! # body

    The body of a message, `proto/http/body.cpp`, in its two modes: by
    length and by chunks.

    A failed call is the return value `-1`. An aborted one is a failed
    `pump_assert`, or an `append` of a negative length. -/

namespace Pump

/-! ## Section 1: Model -/

/-- Wrap to the range of an `int32_t`. -/
def wrap32 (x : Int) : Int := x.bmod (2 ^ 32)

/-- `http::body`. -/
structure Body where
  is_chunk_mode : Bool
  data : Bytes
  expected_size : Int
  parsing_chunk_size : Nat
  is_parse_finished : Bool
  deriving DecidableEq, Repr

namespace Body

/-- The constructor. -/
def construct : Body := ⟨false, [], 0, 0, false⟩

def set_chunked (body : Body) : Body := { body with is_chunk_mode := true }

def set_expected_size (body : Body) (size : Int) : Body := { body with expected_size := size }

/-- `snprintf` of a number with the format `%zx`. -/
def format_hex (n : Nat) : Bytes := (Nat.toDigits 16 n).map fun c => c.toNat.toUInt8

/-- Eight digits are enough for an `int`. -/
theorem format_hex_length {n : Nat} (h : n < 2 ^ 31) : (format_hex n).length ≤ 8 :=
  digits_length_le (by omega) (by omega) (by norm_num; omega)

/-- `body::serialize`: the bytes appended and the size returned. -/
def serialize (body : Body) : Bytes × Nat :=
  if body.is_chunk_mode then
    let chunk_len := snprintf 63 (format_hex body.data.length ++ http_crlf)
    (chunk_len.1 ++ body.data ++ http_crlf, chunk_len.2 + body.data.length + http_crlf_length)
  else
    (body.data, body.data.length)

/-- `body::__parse_by_length`. -/
def parse_by_length (body : Body) (b : Bytes) : Reply Body :=
  let parse_size := body.expected_size - wrap32 body.data.length
  let parse_size := if parse_size > b.length then (b.length : Int) else parse_size
  if parse_size < 0 then .aborted
  else
    let body := { body with data := body.data ++ b.take parse_size.toNat }
    let body := if wrap32 body.data.length = body.expected_size
      then { body with is_parse_finished := true } else body
    .took parse_size.toNat body

/-- How the inner loop over a size line ends: with a value and the number of
    bytes taken, at a `\r` that is the last byte, or with an error. -/
inductive SizeLine where
  | value (chunk_size taken : Nat)
  | cut
  | bad
  deriving DecidableEq

def SizeLine.next : SizeLine → SizeLine
  | value chunk_size taken => value chunk_size (taken + 1)
  | cut => cut
  | bad => bad

/-- The loop that parses the current chunk size. It also ends when the bytes
    do. -/
def parse_chunk_size (chunk_size : Nat) : Bytes → SizeLine
  | [] => .value chunk_size 0
  | c :: rest =>
    if chunk_size ≥ 1048576 then .bad
    else if c = 13 then
      match rest with
      | [] => .cut
      | d :: _ => if d ≠ 10 then .bad else .value chunk_size http_crlf_length
    else (parse_chunk_size (chunk_size * 16 + hex_to_dec c) rest).next

/-- The second half of the loop of `__parse_by_chunk`: take bytes of the
    current chunk. The flag is the `break`; the number, what `pos` moved. -/
def take_chunk (body : Body) (b : Bytes) : Bool × Nat × Body :=
  let left_size := b.length
  let size := body.parsing_chunk_size
  if left_size ≥ size then
    let data := if size > http_crlf_length
      then body.data ++ b.take (size - http_crlf_length) else body.data
    (false, size, { body with data := data, parsing_chunk_size := 0 })
  else if size = http_crlf_length then (true, 0, body)
  else if http_crlf_length ≤ size - left_size then
    (false, left_size,
      { body with data := body.data ++ b, parsing_chunk_size := size - left_size })
  else
    (false, size - http_crlf_length,
      { body with
        data := body.data ++ b.take (size - http_crlf_length)
        parsing_chunk_size := http_crlf_length })

/-- How the first half of the loop ends: the call returns, or there is a
    chunk to take and `pos` has moved. -/
inductive Entered where
  | reply (r : Reply Body)
  | chunk (taken : Nat) (body : Body)

/-- The first half of the loop of `__parse_by_chunk`: the size line, and the
    end behind an empty chunk. -/
def enter_chunk (body : Body) (b : Bytes) : Entered :=
  if body.parsing_chunk_size = 0 then
    match parse_chunk_size 0 b with
    | .cut => .reply (.took 0 body)
    | .bad => .reply (.failed body)
    | .value chunk_size taken =>
      let body := { body with
        expected_size := wrap32 (body.expected_size + chunk_size)
        parsing_chunk_size := chunk_size }
      if chunk_size = 0 then
        match b.drop taken with
        | c :: d :: _ =>
          if c ≠ 13 ∨ d ≠ 10 then .reply (.failed body)
          else if wrap32 body.data.length ≠ body.expected_size then .reply .aborted
          else .reply (.took (taken + http_crlf_length) { body with is_parse_finished := true })
        | _ => .reply (.took 0 body)
      else
        .chunk taken { body with parsing_chunk_size := chunk_size + http_crlf_length }
  else
    .chunk 0 body

/-- The loop of `body::__parse_by_chunk`: `b` are the bytes from `pos` on,
    `size` those before. Every turn takes a byte or is the last. -/
def parse_chunk_loop : Nat → Body → Bytes → Nat → Reply Body
  | 0, body, _, size => .took size body
  | fuel + 1, body, b, size =>
    if b = [] then .took size body
    else
      match body.enter_chunk b with
      | .reply r => r.after size
      | .chunk taken body =>
        let (stop, n, body) := body.take_chunk (b.drop taken)
        if stop then .took (size + taken) body
        else parse_chunk_loop fuel body (b.drop (taken + n)) (size + taken + n)

/-- `body::__parse_by_chunk`. -/
def parse_by_chunk (body : Body) (b : Bytes) : Reply Body :=
  parse_chunk_loop b.length body b 0

/-- `body::parse`. -/
def parse (body : Body) (b : Bytes) : Reply Body :=
  if body.is_chunk_mode then body.parse_by_chunk b else body.parse_by_length b

/-! ## Section 2: The mode of a body does not change -/

theorem enter_chunk_reply_mode {body body' : Body} {b : Bytes} {r : Reply Body}
    (he : body.enter_chunk b = .reply r) (hr : r.state = some body') :
    body'.is_chunk_mode = body.is_chunk_mode := by
  unfold enter_chunk at he
  simp only at he
  split at he
  · split at he
    · cases he; cases hr; rfl
    · cases he; cases hr; rfl
    · split at he
      · split at he
        · split at he
          · cases he; cases hr; rfl
          · split at he
            · cases he; cases hr
            · cases he; cases hr; rfl
        · cases he; cases hr; rfl
      · cases he
  · cases he

theorem enter_chunk_chunk_mode {body body' : Body} {b : Bytes} {taken : Nat}
    (he : body.enter_chunk b = .chunk taken body') : body'.is_chunk_mode = body.is_chunk_mode := by
  unfold enter_chunk at he
  simp only at he
  split at he
  · split at he
    · cases he
    · cases he
    · split at he
      · split at he
        · split at he
          · cases he
          · split at he <;> cases he
        · cases he
      · cases he
        rfl
  · cases he
    rfl

theorem take_chunk_mode (body : Body) (b : Bytes) :
    (body.take_chunk b).2.2.is_chunk_mode = body.is_chunk_mode := by
  unfold take_chunk
  simp only
  split
  · rfl
  · split
    · rfl
    · split <;> rfl

theorem parse_chunk_loop_mode (fuel : Nat) {body body' : Body} {b : Bytes} {size : Nat}
    (h : (parse_chunk_loop fuel body b size).state = some body') :
    body'.is_chunk_mode = body.is_chunk_mode := by
  induction fuel generalizing body b size with
  | zero =>
    cases h
    rfl
  | succ fuel ih =>
    unfold parse_chunk_loop at h
    split at h
    · cases h
      rfl
    · cases he : body.enter_chunk b with
      | reply r =>
        rw [he] at h
        exact enter_chunk_reply_mode he (by simpa using h)
      | chunk taken body₁ =>
        have henter := enter_chunk_chunk_mode he
        have htake := take_chunk_mode body₁ (b.drop taken)
        simp only [he] at h
        split at h
        · cases h
          rw [htake, henter]
        · rw [ih h, htake, henter]

theorem parse_by_length_mode {body body' : Body} {b : Bytes}
    (h : (body.parse_by_length b).state = some body') :
    body'.is_chunk_mode = body.is_chunk_mode := by
  unfold parse_by_length at h
  extract_lets size size' body₁ body₂ at h
  have h₂ : body₂.is_chunk_mode = body.is_chunk_mode := by
    simp only [body₂, body₁]
    split <;> rfl
  split at h
  · simp only [Reply.state, reduceCtorEq] at h
  · simp only [Reply.state, Option.some.injEq] at h
    rw [← h]
    exact h₂

theorem parse_mode {body body' : Body} {b : Bytes} (h : (body.parse b).state = some body') :
    body'.is_chunk_mode = body.is_chunk_mode := by
  unfold parse at h
  split at h
  · exact parse_chunk_loop_mode _ h
  · exact parse_by_length_mode h

/-! ## Section 3: The bytes that are taken are there -/

theorem parse_chunk_size_taken {acc v taken : Nat} {b : Bytes}
    (h : parse_chunk_size acc b = .value v taken) : taken ≤ b.length := by
  induction b generalizing acc taken with
  | nil =>
    cases h
    exact Nat.le_refl _
  | cons c b ih =>
    unfold parse_chunk_size at h
    split at h
    · cases h
    · split at h
      · split at h
        · cases h
        · split at h
          · cases h
          · cases h
            simp only [List.length_cons, http_crlf_length]
            omega
      · rcases hrest : parse_chunk_size (acc * 16 + hex_to_dec c) b with ⟨w, n⟩ | _ | _
        · rw [hrest] at h
          cases h
          have := ih hrest
          rw [List.length_cons]
          omega
        · rw [hrest] at h
          cases h
        · rw [hrest] at h
          cases h

theorem enter_chunk_taken {body body' : Body} {b : Bytes} {taken : Nat}
    (h : body.enter_chunk b = .chunk taken body') : taken ≤ b.length := by
  unfold enter_chunk at h
  split at h
  · rcases hline : parse_chunk_size 0 b with ⟨v, n⟩ | _ | _
    · rw [hline] at h
      simp only at h
      split at h
      · split at h
        · split at h
          · cases h
          · split at h
            · cases h
            · cases h
        · cases h
      · cases h
        exact parse_chunk_size_taken hline
    · rw [hline] at h
      cases h
    · rw [hline] at h
      cases h
  · cases h
    exact Nat.zero_le _

theorem take_chunk_taken (body : Body) (b : Bytes) : (body.take_chunk b).2.1 ≤ b.length := by
  unfold take_chunk
  simp only
  split
  · assumption
  · split
    · exact Nat.zero_le _
    · split
      · exact Nat.le_refl _
      · show body.parsing_chunk_size - http_crlf_length ≤ b.length
        omega

end Body

end Pump
