import Pump.Utils

/-! # HTTP lines and url coding

    `proto/http/utils.cpp`: the search for the end of a line, and the
    coding of url parameters. -/

namespace Pump

def http_crlf : Bytes := [13, 10]

def http_crlf_length : Nat := 2

def http_line_max_length : Nat := 2048

/-! ## Section 1: Line ends -/

/-- The loop of `find_http_line_end`: how many bytes the line takes, its
    `\r\n` included. A `\r` without `\n` stops the search. -/
def line_end_loop : Bytes → Option Nat
  | c :: d :: rest =>
    if c = 13 then (if d = 10 then some 2 else none)
    else (line_end_loop (d :: rest)).map (· + 1)
  | _ => none

/-- `find_http_line_end`. -/
def find_http_line_end (src : Bytes) : Option Nat :=
  line_end_loop (src.take http_line_max_length)

/-- Bytes without a `\r` are passed over. -/
theorem line_end_loop_skip {body : Bytes} (h : (13 : UInt8) ∉ body) (rest : Bytes) :
    line_end_loop (body ++ rest) = (line_end_loop rest).map (· + body.length) := by
  induction body with
  | nil => simp
  | cons c body ih =>
    have hc : c ≠ 13 := fun hc => h (hc ▸ List.mem_cons_self)
    have ih := ih fun hm => h (List.mem_cons_of_mem c hm)
    rw [List.cons_append]
    rcases hrest : body ++ rest with _ | ⟨d, tail⟩
    · rw [hrest] at ih
      rcases hloop : line_end_loop rest with _ | n
      · rfl
      · rw [hloop] at ih
        cases ih
    · rw [hrest] at ih
      conv_lhs => unfold line_end_loop
      rw [if_neg hc, ih, Option.map_map]
      rfl

theorem line_end_loop_append {body rest : Bytes} (h : (13 : UInt8) ∉ body) :
    line_end_loop (body ++ 13 :: 10 :: rest) = some (body.length + 2) := by
  rw [line_end_loop_skip h, Nat.add_comm]
  rfl

theorem line_end_loop_some {src : Bytes} {n : Nat} (h : line_end_loop src = some n) :
    ∃ body rest, src = body ++ 13 :: 10 :: rest ∧ (13 : UInt8) ∉ body ∧ n = body.length + 2 := by
  induction src generalizing n with
  | nil => cases h
  | cons c src ih =>
    cases src with
    | nil => cases h
    | cons d src =>
      unfold line_end_loop at h
      split at h
      · next hc =>
        split at h
        · next hd =>
          cases h
          exact ⟨[], src, by rw [hc, hd]; rfl, List.not_mem_nil, rfl⟩
        · cases h
      · next hc =>
        obtain ⟨m, hm, rfl⟩ := Option.map_eq_some_iff.mp h
        obtain ⟨body, rest, hsrc, hbody, rfl⟩ := ih hm
        refine ⟨c :: body, rest, by rw [hsrc]; rfl, ?_, by simp⟩
        rintro (_ | ⟨_, hmem⟩)
        · exact hc rfl
        · exact hbody hmem

/-- A line is found when its `\r\n` is the first `\r` and lies within the
    length limit. -/
theorem find_http_line_end_iff {src : Bytes} {n : Nat} :
    find_http_line_end src = some n ↔
      ∃ body rest, src = body ++ 13 :: 10 :: rest ∧ (13 : UInt8) ∉ body ∧ n = body.length + 2 ∧
        n ≤ http_line_max_length := by
  unfold find_http_line_end
  constructor
  · intro h
    obtain ⟨body, rest, hsrc, hbody, rfl⟩ := line_end_loop_some h
    refine ⟨body, rest ++ src.drop http_line_max_length, ?_, hbody, rfl, ?_⟩
    · have := List.take_append_drop http_line_max_length src
      rw [hsrc] at this
      simpa using this.symm
    · have := congrArg List.length hsrc
      simp only [List.length_take, List.length_append, List.length_cons] at this
      omega
  · rintro ⟨body, rest, rfl, hbody, rfl, hle⟩
    have hcut : (body ++ 13 :: 10 :: rest).take http_line_max_length =
        body ++ 13 :: 10 :: rest.take (http_line_max_length - (body.length + 2)) := by
      rw [List.take_append, List.take_of_length_le (by omega)]
      obtain ⟨k, hk⟩ : ∃ k, http_line_max_length - body.length = k + 2 :=
        ⟨http_line_max_length - body.length - 2, by omega⟩
      rw [hk, List.take_succ_cons, List.take_succ_cons]
      congr 4
      omega
    rw [hcut, line_end_loop_append hbody]

/-- The length limit only hides lines. -/
theorem line_end_loop_of_find {src : Bytes} {n : Nat} (h : find_http_line_end src = some n) :
    line_end_loop src = some n := by
  obtain ⟨body, rest, rfl, hbody, rfl, -⟩ := find_http_line_end_iff.mp h
  exact line_end_loop_append hbody

theorem line_end_loop_none {body rest : Bytes} {c : UInt8} (h : (13 : UInt8) ∉ body)
    (hc : c ≠ 10) : line_end_loop (body ++ 13 :: c :: rest) = none := by
  rw [line_end_loop_skip h]
  simp [line_end_loop, hc]

theorem find_http_line_end_bounds {src : Bytes} {n : Nat} (h : find_http_line_end src = some n) :
    2 ≤ n ∧ n ≤ src.length := by
  obtain ⟨body, rest, rfl, -, rfl, -⟩ := find_http_line_end_iff.mp h
  simp

/-- Behind a byte of the line that is not in its end, the end is to come. -/
theorem line_rest {src rest : Bytes} {c : UInt8} {n : Nat} (h : find_http_line_end src = some n)
    (hs : c :: rest <:+ src.take n) (hcr : c ≠ 13) (hlf : c ≠ 10) :
    ∃ y, rest = y ++ http_crlf := by
  obtain ⟨body, tail, hsrc, -, hn, -⟩ := find_http_line_end_iff.mp h
  have hline : src.take n = body ++ http_crlf := by
    have hsplit : src = (body ++ http_crlf) ++ tail := by
      rw [hsrc]
      simp [http_crlf]
    rw [hsplit]
    exact List.take_left' (by rw [hn]; simp [http_crlf])
  obtain ⟨pre, hpre⟩ := hs
  rw [hline] at hpre
  rcases List.append_eq_append_iff.mp hpre with ⟨m, -, hm⟩ | ⟨m, -, hm⟩
  · rcases m with _ | ⟨x, y⟩
    · exact absurd (List.cons.inj hm).1 hcr
    · exact ⟨y, (List.cons.inj hm).2⟩
  · rcases m with _ | ⟨x, _ | ⟨x', m⟩⟩
    · exact absurd (List.cons.inj hm).1.symm hcr
    · exact absurd (List.cons.inj (List.cons.inj hm).2).1.symm hlf
    · have := congrArg List.length hm
      simp only [http_crlf, List.length_cons, List.length_append, List.length_nil] at this
      omega

/-- A line found stays found when more bytes arrive, -/
theorem find_http_line_end_append {x : Bytes} {n : Nat} (h : find_http_line_end x = some n)
    (y : Bytes) : find_http_line_end (x ++ y) = some n := by
  obtain ⟨body, rest, rfl, hbody, hn, hle⟩ := find_http_line_end_iff.mp h
  exact find_http_line_end_iff.mpr ⟨body, rest ++ y, by simp, hbody, hn, hle⟩

/-- and one found among more bytes was there if it had arrived. -/
theorem find_http_line_end_of_append {x y : Bytes} {n : Nat}
    (h : find_http_line_end (x ++ y) = some n) (hn : n ≤ x.length) :
    find_http_line_end x = some n := by
  obtain ⟨body, rest, hxy, hbody, rfl, hle⟩ := find_http_line_end_iff.mp h
  have hx : x = body ++ 13 :: 10 :: (x.drop (body.length + 2)) := by
    have htake : x.take (body.length + 2) = (x ++ y).take (body.length + 2) := by
      rw [List.take_append_of_le_length hn]
    rw [hxy, show body ++ 13 :: 10 :: rest = (body ++ [13, 10]) ++ rest by simp,
      List.take_left' (by simp)] at htake
    conv_lhs => rw [← List.take_append_drop (body.length + 2) x, htake]
    simp
  exact find_http_line_end_iff.mpr ⟨body, _, hx, hbody, rfl, hle⟩

/-! ## Section 2: Url coding -/

/-- `url_decode`; `none` is `false`. -/
def url_decode : Bytes → Option Bytes
  | [] => some []
  | 37 :: a :: b :: rest =>
    (url_decode rest).map ((UInt8.ofNat (hex_to_dec a) <<< 4 ||| UInt8.ofNat (hex_to_dec b)) :: ·)
  | 37 :: _ => none
  | 43 :: rest => (url_decode rest).map (32 :: ·)
  | ch :: rest => (url_decode rest).map (ch :: ·)

/-- `isalnum`, which no byte of a negative `char` is. -/
def isalnum (c : UInt8) : Bool :=
  (48 ≤ c && c ≤ 57) || (65 ≤ c && c ≤ 90) || (97 ≤ c && c ≤ 122)

/-- What `url_encode` makes of one `char`, which is signed. `strchr` also
    finds the end of the string it searches. -/
def url_encode_char (val : UInt8) : Bytes :=
  if isalnum val || (ascii "_-.").contains val || val = 0 then [val]
  else if val = 32 then [43]
  else [37, dec_to_hex (val.toInt8 >>> 4).toUInt8, dec_to_hex (val &&& 0x0f)]

/-- `url_encode`. -/
def url_encode (src : Bytes) : Bytes := src.flatMap url_encode_char

end Pump
