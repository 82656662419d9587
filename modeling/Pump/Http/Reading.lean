import Pump.Pointer
import Pump.Http.RequestLine

/-! # What request::parse reads

    The parsers with their pointers. A position is one of the buffer that the
    function has been given, and a read outside this buffer gives `none`;
    `memcmp` reads all the bytes it is asked to compare. What they compute is
    what the parsers on lists of bytes compute. -/

namespace Pump

open Pointer

/-! ## Section 1: The end of a line -/

/-- The loop of `find_http_line_end` at the position `src`. -/
def line_end_at (b : Bytes) : Nat → Nat → Option (Option Nat)
  | len + 2, src => do
    let c ← b[src]?
    if c = 13 then do
      let d ← b[src + 1]?
      some (if d = 10 then some (src + http_crlf_length) else none)
    else line_end_at b (len + 1) (src + 1)
  | _, _ => some none

/-- `find_http_line_end`. -/
def find_http_line_end_at (b : Bytes) (src size : Nat) : Option (Option Nat) :=
  line_end_at b (min size http_line_max_length) src

theorem line_end_at_eq {b : Bytes} {len src : Nat} (h : src + len ≤ b.length) :
    line_end_at b len src = some ((line_end_loop ((b.drop src).take len)).map (src + ·)) := by
  induction len generalizing src with
  | zero =>
    rw [List.take_zero]
    rfl
  | succ len ih =>
    have hlt : src < b.length := by omega
    rcases len with _ | len
    · rw [List.drop_eq_getElem_cons hlt, List.take_succ_cons, List.take_zero]
      rfl
    · have hlt' : src + 1 < b.length := by omega
      -- two bytes are looked at, and the induction is one byte further
      have hih := @ih (src + 1) (by omega)
      rw [List.drop_eq_getElem_cons hlt', List.take_succ_cons] at hih
      rw [line_end_at, List.getElem?_eq_getElem hlt, List.getElem?_eq_getElem hlt',
        List.drop_eq_getElem_cons hlt, List.drop_eq_getElem_cons hlt', List.take_succ_cons,
        List.take_succ_cons, line_end_loop]
      show (if b[src] = 13 then some (if b[src + 1] = 10 then _ else _) else _) = _
      by_cases h13 : b[src] = 13
      · rw [if_pos h13, if_pos h13]
        split
        · rfl
        · rfl
      · rw [if_neg h13, if_neg h13, hih, Option.map_map]
        congr 2
        funext n
        show src + 1 + n = src + (n + 1)
        omega

theorem find_http_line_end_at_eq {b : Bytes} {src size : Nat} (h : src + size = b.length) :
    find_http_line_end_at b src size = some ((find_http_line_end (b.drop src)).map (src + ·)) := by
  unfold find_http_line_end_at find_http_line_end
  rw [line_end_at_eq (by omega)]
  congr 3
  -- the longest line cuts both the same way
  rcases Nat.le_total size http_line_max_length with hle | hle
  · have hlen : (b.drop src).length = size := by
      rw [List.length_drop]
      omega
    rw [Nat.min_eq_left hle, List.take_of_length_le (by omega), List.take_of_length_le (by omega)]
  · rw [Nat.min_eq_right hle]

/-! ## Section 2: A line -/

/-- The bytes at the place of a suffix of the line. -/
theorem take_suffix {b s : Bytes} {n : Nat} (hn : n ≤ b.length) (hs : s <:+ b.take n) :
    (b.drop (n - s.length)).take s.length = s := by
  have hlen : (b.take n).length = n := List.length_take_of_le hn
  have hle := hs.length_le
  have hcount : n - (n - s.length) = s.length := by omega
  have h := List.suffix_iff_eq_drop.mp hs
  rw [hlen, List.drop_take, hcount] at h
  exact h.symm

theorem scan_length (p : UInt8 → Bool) (s : Bytes) :
    (s.takeWhile p).length + (s.dropWhile p).length = s.length := by
  rw [← List.length_append, List.takeWhile_append_dropWhile]

/-- A scan from there. -/
theorem scan_suffix {b s : Bytes} {n : Nat} (p : UInt8 → Bool) (hn : n ≤ b.length)
    (hs : s <:+ b.take n) :
    scan b p s.length (n - s.length) = some (n - (s.dropWhile p).length) := by
  have hle := hs.length_le
  rw [List.length_take_of_le hn] at hle
  have hsum := scan_length p s
  rw [scan_eq (by omega), take_suffix hn hs]
  congr 1
  omega

/-- What the scan has passed over. -/
theorem slice_suffix {b s : Bytes} {n : Nat} (p : UInt8 → Bool) (hn : n ≤ b.length)
    (hs : s <:+ b.take n) :
    slice b (n - s.length) (n - (s.dropWhile p).length) = some (s.takeWhile p) := by
  have hle := hs.length_le
  rw [List.length_take_of_le hn] at hle
  have hsum := scan_length p s
  obtain ⟨k, hk⟩ : ∃ k, k = (s.takeWhile p).length := ⟨_, rfl⟩
  have hcount : n - (s.dropWhile p).length - (n - s.length) = k := by omega
  have hpre : s.takeWhile p = s.take k := by
    rw [hk]
    exact List.prefix_iff_eq_take.mp (List.takeWhile_prefix p)
  rw [slice_eq (by omega) (by omega), List.drop_take, hcount, hpre]
  congr 1
  conv_rhs => rw [← take_suffix hn hs]
  rw [List.take_take, Nat.min_eq_left (by omega)]

/-- The byte at the place of a suffix. -/
theorem at_suffix {b s : Bytes} {c : UInt8} {n : Nat} (hn : n ≤ b.length)
    (hs : c :: s <:+ b.take n) : b[n - (c :: s).length]? = some c := by
  have h := congrArg (·[0]?) (take_suffix hn hs)
  simp only [List.length_cons, List.getElem?_take, List.getElem?_drop, Nat.add_zero,
    Nat.zero_lt_succ, if_true, List.getElem?_cons_zero] at h
  exact h

/-! ## Section 3: The start line -/

open HttpMethod HttpVersion ParseStatus

namespace Request

/-- `pos + k < line_end && memcmp(pos, word, k) == 0`. -/
def starts_with_at (b : Bytes) (pos line_end : Nat) (word : Bytes) : Option Bool :=
  if pos + word.length < line_end then memcmp b pos word else some false

/-- The method, and the position behind its space. -/
def parse_method_at (b : Bytes) (line_end : Nat) : Option (Option (HttpMethod × Nat)) := do
  if ← starts_with_at b 0 line_end (ascii "GET ") then some (some (METHOD_GET, 4))
  else if ← starts_with_at b 0 line_end (ascii "POST ") then some (some (METHOD_POST, 5))
  else if ← starts_with_at b 0 line_end (ascii "HEAD ") then some (some (METHOD_HEAD, 5))
  else if ← starts_with_at b 0 line_end (ascii "PUT ") then some (some (METHOD_PUT, 4))
  else if ← starts_with_at b 0 line_end (ascii "DELETE ") then some (some (METHOD_DELETE, 7))
  else some none

/-- The parameters, if there is a `?` at `pos`, and the position behind them. -/
def parse_params_at (u : Uri) (b : Bytes) (pos line_end : Nat) : Option (Option (Uri × Nat)) := do
  let c ← b[pos]?
  if c = 63 then do
    let old_pos := pos + 1
    let pos ← scan b (· ≠ 32) (line_end - old_pos) old_pos
    if pos = old_pos ∨ pos = line_end then some none
    else do
      let raw_params ← slice b old_pos pos
      some ((url_decode raw_params).bind fun params =>
        (u.set_params (split_string params param_sep)).map fun u => (u, pos))
  else some (some (u, pos))

/-- The version at `pos`. -/
def parse_http_version_at (b : Bytes) (pos : Nat) : Option (Option HttpVersion) := do
  if ← memcmp b pos (ascii "HTTP/1.0") then some (some VERSION_10)
  else if ← memcmp b pos (ascii "HTTP/1.1") then some (some VERSION_11)
  else if ← memcmp b pos (ascii "HTTP/2.0") then some (some VERSION_20)
  else some none

/-- `request::__parse_start_line` from the line end on. -/
def parse_line_at (r : RequestFields) (version : HttpVersion) (b : Bytes) (line_end : Nat) :
    Option (Bool × RequestFields × HttpVersion) := do
  match ← parse_method_at b line_end with
  | none => some (false, r, version)
  | some (method, old_pos) =>
    let r := { r with method := method }
    let pos ← scan b (fun c => c ≠ 32 && c ≠ 63) (line_end - old_pos) old_pos
    if pos = old_pos ∨ pos = line_end then some (false, r, version)
    else do
      let path ← slice b old_pos pos
      let r := { r with uri := r.uri.set_path path }
      match ← parse_params_at r.uri b pos line_end with
      | none => some (false, r, version)
      | some (u, pos) =>
        let r := { r with uri := u }
        match ← parse_http_version_at b (pos + 1) with
        | none => some (false, r, version)
        | some version => some (true, r, version)

theorem starts_with_at_eq {b : Bytes} {n : Nat} (hn : n ≤ b.length) (word : Bytes) :
    starts_with_at b 0 n word = some (starts_with (b.take n) word) := by
  unfold starts_with_at starts_with
  rw [List.length_take_of_le hn, Nat.zero_add]
  by_cases hlt : word.length < n
  · rw [if_pos hlt, memcmp_eq (by omega), List.drop_zero]
    have hpre : word.isPrefixOf (b.take n) = word.isPrefixOf b := by
      rw [Bool.eq_iff_iff, List.isPrefixOf_iff_prefix, List.isPrefixOf_iff_prefix]
      constructor
      · exact fun h => h.trans (List.take_prefix n b)
      · intro h
        rw [List.prefix_take_iff]
        exact ⟨h, by omega⟩
    simp [hlt, hpre]
  · rw [if_neg hlt]
    simp [hlt]

/-- The position of what follows the method. -/
theorem parse_method_at_eq {b : Bytes} {n : Nat} (hn : n ≤ b.length) :
    parse_method_at b n =
      some ((parse_method (b.take n)).map fun r => (r.1, n - r.2.length)) := by
  have hlen : (b.take n).length = n := List.length_take_of_le hn
  -- the position behind a word that has been found
  have hpos : ∀ {word : Bytes}, starts_with (b.take n) word = true → ∀ {k}, k = word.length →
      n - ((b.take n).drop k).length = k := by
    intro word hw k hk
    have hle : word.length < (b.take n).length := by
      simp only [starts_with, Bool.and_eq_true, decide_eq_true_eq] at hw
      exact hw.1
    rw [List.length_drop, hlen]
    omega
  unfold parse_method_at parse_method
  simp only [starts_with_at_eq hn, Option.bind_eq_bind, Option.bind_some]
  split
  · next hw => simp only [Option.map_some, hpos hw (show 4 = _ from rfl)]
  · split
    · next hw => simp only [Option.map_some, hpos hw (show 5 = _ from rfl)]
    · split
      · next hw => simp only [Option.map_some, hpos hw (show 5 = _ from rfl)]
      · split
        · next hw => simp only [Option.map_some, hpos hw (show 4 = _ from rfl)]
        · split
          · next hw => simp only [Option.map_some, hpos hw (show 7 = _ from rfl)]
          · rfl

theorem parse_method_suffix {line pos : Bytes} {m : HttpMethod}
    (h : parse_method line = some (m, pos)) : pos <:+ line := by
  obtain ⟨-, hline⟩ := parse_method_some h
  exact ⟨m.string ++ [32], by rw [hline]; simp⟩

/-- The position of what follows the parameters. -/
theorem parse_params_at_eq {b s : Bytes} {n : Nat} (u : Uri) (hn : n ≤ b.length)
    (hs : s <:+ b.take n) (hne : s ≠ []) :
    parse_params_at u b (n - s.length) n =
      some ((parse_params u s).map fun r => (r.1, n - r.2.length)) := by
  obtain ⟨c, rest, rfl⟩ := List.exists_cons_of_ne_nil hne
  have hle := hs.length_le
  rw [List.length_take_of_le hn] at hle
  unfold parse_params_at
  rw [at_suffix hn hs]
  show (if c = 63 then _ else _) = _
  by_cases h63 : c = 63
  · subst h63
    have hrest : rest <:+ b.take n := (List.suffix_cons 63 rest).trans hs
    rw [List.length_cons] at hle ⊢
    have hold : n - (rest.length + 1) + 1 = n - rest.length := by omega
    have hcount : n - (n - rest.length) = rest.length := by omega
    have hsum := scan_length (fun d => decide (d ≠ 32)) rest
    rw [if_pos rfl, hold, hcount, scan_suffix _ hn hrest]
    unfold parse_params
    simp only [Option.bind_eq_bind, Option.bind_some]
    -- the positions are equal where the bytes between them are none
    have hends : (n - (rest.dropWhile fun d => decide (d ≠ 32)).length = n - rest.length ∨
        n - (rest.dropWhile fun d => decide (d ≠ 32)).length = n) ↔
        (rest.takeWhile (fun d => decide (d ≠ 32)) = [] ∨
          rest.dropWhile (fun d => decide (d ≠ 32)) = []) := by
      rw [← List.length_eq_zero_iff, ← List.length_eq_zero_iff]
      omega
    by_cases hraw : rest.takeWhile (fun d => decide (d ≠ 32)) = [] ∨
        rest.dropWhile (fun d => decide (d ≠ 32)) = []
    · rw [if_pos (hends.mpr hraw), if_pos hraw]
      rfl
    · rw [if_neg fun h => hraw (hends.mp h), if_neg hraw, slice_suffix _ hn hrest, Option.bind_some]
      rcases url_decode (rest.takeWhile fun d => decide (d ≠ 32)) with _ | params
      · rfl
      · rcases hset : u.set_params (split_string params param_sep) with _ | u'
        · simp [hset]
        · simp [hset]
  · rw [if_neg h63]
    unfold parse_params
    split
    · next heq =>
      cases heq
      exact absurd rfl h63
    · rfl

/-- A word without a `\r` is not found across one. -/
theorem isPrefixOf_stop {word : Bytes} (h : (13 : UInt8) ∉ word) (y tail : Bytes) :
    word.isPrefixOf (y ++ 13 :: tail) = word.isPrefixOf y := by
  induction word generalizing y with
  | nil => rw [List.isPrefixOf_nil_left, List.isPrefixOf_nil_left]
  | cons c word ih =>
    rw [List.mem_cons, not_or] at h
    rcases y with _ | ⟨d, y⟩
    · have hc : (c == 13) = false := by simpa using fun heq : c = 13 => h.1 heq.symm
      show (c == 13 && _) = false
      rw [hc, Bool.false_and]
    · show (c == d && word.isPrefixOf (y ++ 13 :: tail)) = (c == d && word.isPrefixOf y)
      rw [ih h.2]

theorem parse_http_version_stop (y tail : Bytes) :
    parse_http_version (y ++ 13 :: tail) = parse_http_version y := by
  unfold parse_http_version
  rw [isPrefixOf_stop (by decide), isPrefixOf_stop (by decide),
    isPrefixOf_stop (by decide)]

/-- Each of the comparisons reads eight bytes. -/
theorem parse_http_version_at_eq (b : Bytes) (pos : Nat) :
    parse_http_version_at b pos =
      if pos + 8 ≤ b.length then some (parse_http_version (b.drop pos)) else none := by
  have hlen : ∀ word ∈ [ascii "HTTP/1.0", ascii "HTTP/1.1", ascii "HTTP/2.0"], word.length = 8 := by
    decide
  simp only [List.forall_mem_cons] at hlen
  obtain ⟨h10, h11, h20, -⟩ := hlen
  unfold parse_http_version_at
  by_cases h : pos + 8 ≤ b.length
  · rw [if_pos h, memcmp_eq (by omega), memcmp_eq (by omega), memcmp_eq (by omega)]
    simp only [Option.bind_eq_bind, Option.bind_some]
    unfold parse_http_version
    split
    · rfl
    · split
      · rfl
      · split
        · rfl
        · rfl
  · -- already the first comparison leaves the buffer
    have hnone : memcmp b pos (ascii "HTTP/1.0") = none := by
      rw [memcmp, if_neg (by omega)]
    rw [if_neg h, hnone]
    rfl

/-- Behind a space of the line, the bytes of the buffer begin as those of the
    line do. -/
theorem version_of_line {b rest : Bytes} {n : Nat} (h : find_http_line_end b = some n)
    (hs : 32 :: rest <:+ b.take n) :
    parse_http_version (b.drop (n - rest.length)) = parse_http_version rest := by
  have hle := (find_http_line_end_bounds h).2
  obtain ⟨y, hy⟩ := line_rest h hs (by decide) (by decide)
  have hrest : rest <:+ b.take n := (List.suffix_cons 32 rest).trans hs
  have htake := take_suffix hle hrest
  have hdrop : b.drop (n - rest.length) = rest ++ (b.drop (n - rest.length)).drop rest.length := by
    conv_lhs => rw [← List.take_append_drop rest.length (b.drop (n - rest.length)), htake]
  -- the line ends with a `\r`, and no version has one
  rw [hdrop, hy, List.append_assoc]
  show parse_http_version (y ++ 13 :: 10 :: _) = parse_http_version (y ++ 13 :: [10])
  rw [parse_http_version_stop, parse_http_version_stop]

/-- The version is compared in the buffer. -/
def VersionThere (b : Bytes) (n : Nat) : Prop :=
  ∀ t rest, split_target (b.take n) = some (t, rest) → t.Decodes → t.text.length + 8 ≤ b.length

theorem split_target_length {line rest : Bytes} {t : RequestTarget}
    (h : split_target line = some (t, rest)) : t.text.length = line.length - rest.length := by
  obtain ⟨-, hline⟩ := split_target_iff.mp h
  rw [hline, List.length_append]
  omega

theorem split_target_suffix {line rest : Bytes} {t : RequestTarget}
    (h : split_target line = some (t, rest)) : 32 :: rest <:+ line := by
  obtain ⟨-, hline⟩ := split_target_iff.mp h
  refine ⟨t.method.string ++ 32 :: (t.path ++ t.query_text), ?_⟩
  rw [hline]
  simp [RequestTarget.text]

/-- **The start line.** With its pointers it computes what it does on the line,
    if the version is compared in the buffer, and reads outside if not. -/
theorem parse_line_at_eq (r : RequestFields) (version : HttpVersion) {b : Bytes} {n : Nat}
    (h : find_http_line_end b = some n) :
    (VersionThere b n → parse_line_at r version b n = some (parse_line r version (b.take n))) ∧
    (¬ VersionThere b n → parse_line_at r version b n = none) := by
  have hn := (find_http_line_end_bounds h).2
  have hlen : (b.take n).length = n := List.length_take_of_le hn
  -- a line that is refused before its version reads nothing more
  have hrefused : ∀ {x : Bool × RequestFields × HttpVersion},
      (∀ t rest, split_target (b.take n) = some (t, rest) → ¬ t.Decodes) →
      (VersionThere b n → some x = some x) ∧ (¬ VersionThere b n → some x = none) := by
    intro x hno
    exact ⟨fun _ => rfl, fun hthere => absurd (fun t rest hs hdec => absurd hdec (hno t rest hs)) hthere⟩
  unfold parse_line_at parse_line
  rw [parse_method_at_eq hn]
  rcases hmethod : parse_method (b.take n) with _ | ⟨m, pos⟩
  · apply hrefused
    intro t rest hs
    unfold split_target at hs
    rw [hmethod] at hs
    cases hs
  have hpos := parse_method_suffix hmethod
  have hle := hpos.length_le
  have hcount : n - (n - pos.length) = pos.length := by omega
  have hsum := scan_length (fun c => c ≠ 32 && c ≠ 63) pos
  have hends : (n - (pos.dropWhile fun c => c ≠ 32 && c ≠ 63).length = n - pos.length ∨
      n - (pos.dropWhile fun c => c ≠ 32 && c ≠ 63).length = n) ↔
      ((pos.takeWhile fun c => c ≠ 32 && c ≠ 63) = [] ∨
        (pos.dropWhile fun c => c ≠ 32 && c ≠ 63) = []) := by
    rw [← List.length_eq_zero_iff, ← List.length_eq_zero_iff]
    omega
  simp only [Option.map_some, Option.bind_eq_bind, Option.bind_some, hcount,
    scan_suffix _ hn hpos, slice_suffix _ hn hpos, hends]
  by_cases hnil : (pos.takeWhile fun c => c ≠ 32 && c ≠ 63) = [] ∨
      (pos.dropWhile fun c => c ≠ 32 && c ≠ 63) = []
  · rw [if_pos hnil, if_pos hnil]
    apply hrefused
    intro t rest hs
    unfold split_target at hs
    rw [hmethod] at hs
    simp only at hs
    rw [if_pos hnil] at hs
    cases hs
  rw [if_neg hnil, if_neg hnil]
  obtain ⟨c, rest₁, hcut, hc⟩ := path_end (not_or.mp hnil).2
  have hsuf : c :: rest₁ <:+ b.take n := by
    rw [← hcut]
    exact (List.dropWhile_suffix _).trans hpos
  have hsplit : split_target (b.take n) =
      split_params m (pos.takeWhile fun c => c ≠ 32 && c ≠ 63) (c :: rest₁) := by
    unfold split_target
    rw [hmethod]
    simp only
    rw [if_neg hnil, hcut]
  rw [hcut, parse_params_at_eq _ hn hsuf (List.cons_ne_nil c rest₁)]
  rcases parse_params_cases (r.uri.set_path (pos.takeWhile fun c => c ≠ 32 && c ≠ 63)) m
    (pos.takeWhile fun c => c ≠ 32 && c ≠ 63) rest₁ hc with ⟨hnone, hno⟩ | ⟨u, t, rest, hp, hs, hdec⟩
  · rw [hnone]
    apply hrefused
    intro t rest hs
    rw [hsplit] at hs
    exact hno t rest hs
  · -- the version is reached
    rw [hs] at hsplit
    have hspace := split_target_suffix hsplit
    have htext := split_target_length hsplit
    rw [hlen] at htext
    have hlast := hspace.length_le
    rw [List.length_cons, hlen] at hlast
    have hplace : n - (32 :: rest).length + 1 = n - rest.length := by
      rw [List.length_cons]
      omega
    -- the line has one target, so the condition is about its version
    have hthere : VersionThere b n ↔ n - rest.length + 8 ≤ b.length := by
      rw [← htext]
      constructor
      · intro hall
        exact hall t rest hsplit hdec
      · intro hle' t' rest' hsplit' _
        rw [hsplit] at hsplit'
        cases hsplit'
        exact hle'
    rw [hp, hthere]
    simp only [Option.map_some, Option.bind_some, hplace, parse_http_version_at_eq]
    by_cases hroom : n - rest.length + 8 ≤ b.length
    · rw [if_pos hroom, version_of_line h hspace]
      refine ⟨fun _ => ?_, fun hno => absurd hroom hno⟩
      simp only [Option.bind_some, List.drop_succ_cons, List.drop_zero]
      rcases parse_http_version rest with _ | v
      · rfl
      · rfl
    · rw [if_neg hroom]
      exact ⟨fun hyes => absurd hyes hroom, fun _ => rfl⟩

end Request

/-! ## Section 4: The header -/

namespace Header

/-- The name of the header line from `beg` to `line_end`, and the position
    behind the colon. -/
def split_line_at (b : Bytes) (beg line_end : Nat) : Option (Option (Bytes × Nat)) := do
  let pos ← Pointer.scan b (· ≠ 58) (line_end - beg) beg
  if line_end ≤ pos ∨ pos = beg then some none
  else do
    let name ← slice b beg pos
    let pos ← Pointer.scan b (fun c => c = 32 || c = 58) (line_end - pos) pos
    some (some (name, pos))

/-- The loop of `header::__parse_header`; `beg` and `end` are equal at its
    head. -/
def parse_header_loop_at (b : Bytes) : Nat → Header → Bytes → Nat → Option (Reply Header)
  | 0, h, _, beg => some (.took beg h)
  | fuel + 1, h, value, beg => do
    match ← find_http_line_end_at b beg (b.length - beg) with
    | none => some (.took beg h)
    | some line_end =>
      if beg + http_crlf_length = line_end then
        some (.took (beg + http_crlf_length) { h with header_parsed := true })
      else
        match ← split_line_at b beg line_end with
        | none => some (.failed h)
        | some (name, pos) => do
          let value ← (if line_end - http_crlf_length > pos
            then slice b pos (line_end - http_crlf_length) else some value)
          parse_header_loop_at b fuel (h.set_head name value) value line_end

/-- `header::__parse_header`. -/
def parse_header_at (value : Bytes) (h : Header) (b : Bytes) : Option (Reply Header) :=
  if h.header_parsed then some (.took 0 h) else parse_header_loop_at b b.length h value 0

theorem split_line_suffix {line name rest : Bytes} (h : split_line line = some (name, rest)) :
    rest <:+ line := by
  unfold split_line at h
  simp only at h
  split at h
  · cases h
  · cases h
    exact (List.dropWhile_suffix _).trans (List.dropWhile_suffix _)

/-- The position of what follows the colon. -/
theorem split_line_at_eq {b line : Bytes} {n : Nat} (hn : n ≤ b.length)
    (hs : line <:+ b.take n) :
    split_line_at b (n - line.length) n =
      some ((split_line line).map fun r => (r.1, n - r.2.length)) := by
  have hle := hs.length_le
  rw [List.length_take_of_le hn] at hle
  have htail : line.dropWhile (· ≠ 58) <:+ b.take n := (List.dropWhile_suffix _).trans hs
  have hsum := scan_length (· ≠ 58) line
  have hcount : n - (n - line.length) = line.length := by omega
  have hcount' : n - (n - (line.dropWhile (· ≠ 58)).length) =
      (line.dropWhile (· ≠ 58)).length := by omega
  have hends : (n ≤ n - (line.dropWhile (· ≠ 58)).length ∨
      n - (line.dropWhile (· ≠ 58)).length = n - line.length) ↔
      (line.dropWhile (· ≠ 58) = [] ∨ line.takeWhile (· ≠ 58) = []) := by
    rw [← List.length_eq_zero_iff, ← List.length_eq_zero_iff]
    omega
  unfold split_line_at split_line
  simp only [Option.bind_eq_bind, hcount, scan_suffix _ hn hs, Option.bind_some, hends]
  by_cases hnil : line.dropWhile (· ≠ 58) = [] ∨ line.takeWhile (· ≠ 58) = []
  · rw [if_pos hnil, if_pos hnil]
    rfl
  · rw [if_neg hnil, if_neg hnil, slice_suffix _ hn hs]
    simp only [Option.bind_some, hcount', scan_suffix _ hn htail]
    rfl

/-- What stands in the line behind the place of a suffix. -/
theorem slice_front {b s : Bytes} {n k : Nat} (hn : n ≤ b.length) (hs : s <:+ b.take n)
    (hk : k ≤ s.length) : slice b (n - s.length) (n - s.length + k) = some (s.take k) := by
  have hle := hs.length_le
  rw [List.length_take_of_le hn] at hle
  rw [slice_drop (by omega)]
  congr 1
  conv_rhs => rw [← take_suffix hn hs]
  rw [List.take_take, Nat.min_eq_left hk]

/-- The value of a line. -/
theorem value_at_eq {b rest : Bytes} {n : Nat} (value : Bytes) (hn : n ≤ b.length)
    (hs : rest <:+ b.take n) :
    (if n - http_crlf_length > n - rest.length
      then slice b (n - rest.length) (n - http_crlf_length) else some value) =
    some (if rest.length > http_crlf_length
      then rest.take (rest.length - http_crlf_length) else value) := by
  have hle := hs.length_le
  rw [List.length_take_of_le hn] at hle
  by_cases hlong : rest.length > http_crlf_length
  · have hstop : n - http_crlf_length = n - rest.length + (rest.length - http_crlf_length) := by
      omega
    rw [if_pos (by omega), if_pos hlong, hstop, slice_front hn hs (Nat.sub_le _ _)]
  · rw [if_neg (by omega), if_neg hlong]

theorem parse_header_loop_at_eq {b : Bytes} (fuel : Nat) (h : Header) (value : Bytes) {beg : Nat}
    (hbeg : beg ≤ b.length) :
    parse_header_loop_at b fuel h value beg =
      some (parse_header_loop fuel h value (b.drop beg) beg) := by
  induction fuel generalizing h value beg with
  | zero => rfl
  | succ fuel ih =>
    unfold parse_header_loop_at parse_header_loop
    rw [find_http_line_end_at_eq (by omega)]
    rcases hfind : find_http_line_end (b.drop beg) with _ | n
    · rfl
    · have hbound := find_http_line_end_bounds hfind
      have hlen : ((b.drop beg).take n).length = n := List.length_take_of_le hbound.2
      rw [List.length_drop] at hbound
      have hn : beg + n ≤ b.length := by omega
      -- the line, at the end of the bytes before the position behind it
      have hsuf : (b.drop beg).take n <:+ b.take (beg + n) := by
        have hdrop : (b.take (beg + n)).drop beg = (b.drop beg).take n := by
          rw [List.drop_take, Nat.add_sub_cancel_left]
        rw [← hdrop]
        exact List.drop_suffix _ _
      have hsplit := split_line_at_eq hn hsuf
      rw [hlen, Nat.add_sub_cancel] at hsplit
      simp only [Option.map_some, Option.bind_eq_bind, Option.bind_some, Nat.add_left_cancel_iff,
        eq_comm (a := http_crlf_length)]
      by_cases hblank : n = http_crlf_length
      · rw [if_pos hblank, if_pos hblank]
      · -- a field, and the loop goes on behind its line
        rw [if_neg hblank, if_neg hblank, hsplit, Option.bind_some]
        rcases hline : split_line ((b.drop beg).take n) with _ | ⟨name, rest⟩
        · rfl
        · have hrest := (split_line_suffix hline).trans hsuf
          simp only [Option.map_some, value_at_eq value hn hrest, Option.bind_some]
          rw [ih _ _ hn, List.drop_drop]

theorem parse_header_at_eq (value : Bytes) (h : Header) (b : Bytes) :
    parse_header_at value h b = some (parse_header value h b) := by
  unfold parse_header_at parse_header
  split
  · rfl
  · exact parse_header_loop_at_eq b.length h value (Nat.zero_le _)

end Header

/-! ## Section 5: The body -/

namespace Body

/-- `body::__parse_by_length`. -/
def parse_by_length_at (body : Body) (b : Bytes) : Option (Reply Body) :=
  let parse_size := body.expected_size - wrap32 body.data.length
  let parse_size := if parse_size > b.length then (b.length : Int) else parse_size
  if parse_size < 0 then some .aborted
  else do
    let bytes ← slice b 0 parse_size.toNat
    let body := { body with data := body.data ++ bytes }
    let body := if wrap32 body.data.length = body.expected_size
      then { body with is_parse_finished := true } else body
    some (.took parse_size.toNat body)

/-- The loop that parses the current chunk size, `left` bytes before the end. -/
def parse_chunk_size_at (b : Bytes) : Nat → Nat → Nat → Option SizeLine
  | 0, chunk_size, size_pos => some (.value chunk_size size_pos)
  | left + 1, chunk_size, size_pos =>
    if chunk_size ≥ 1048576 then some .bad
    else do
      let c ← b[size_pos]?
      if c = 13 then
        if size_pos + http_crlf_length > b.length then some .cut
        else do
          let d ← b[size_pos + 1]?
          some (if d ≠ 10 then .bad else .value chunk_size (size_pos + http_crlf_length))
      else parse_chunk_size_at b left (chunk_size * 16 + hex_to_dec c) (size_pos + 1)

/-- The second half of the loop of `__parse_by_chunk`, with the flag of its
    `break` and its position. -/
def take_chunk_at (body : Body) (b : Bytes) (pos : Nat) : Option (Bool × Nat × Body) :=
  let left_size := b.length - pos
  let size := body.parsing_chunk_size
  if left_size ≥ size then do
    let bytes ← (if size > http_crlf_length
      then slice b pos (pos + (size - http_crlf_length)) else some [])
    some (false, pos + size, { body with data := body.data ++ bytes, parsing_chunk_size := 0 })
  else if size = http_crlf_length then some (true, pos, body)
  else if http_crlf_length ≤ size - left_size then do
    let bytes ← slice b pos (pos + left_size)
    some (false, pos + left_size,
      { body with data := body.data ++ bytes, parsing_chunk_size := size - left_size })
  else do
    let bytes ← slice b pos (pos + (size - http_crlf_length))
    some (false, pos + (size - http_crlf_length),
      { body with data := body.data ++ bytes, parsing_chunk_size := http_crlf_length })

/-- The first half of the loop of `__parse_by_chunk`. -/
def enter_chunk_at (body : Body) (b : Bytes) (pos : Nat) : Option Entered :=
  if body.parsing_chunk_size = 0 then do
    match ← parse_chunk_size_at b (b.length - pos) 0 pos with
    | .cut => some (.reply (.took pos body))
    | .bad => some (.reply (.failed body))
    | .value chunk_size size_pos =>
      let body := { body with
        expected_size := wrap32 (body.expected_size + chunk_size)
        parsing_chunk_size := chunk_size }
      if chunk_size = 0 then
        if size_pos + http_crlf_length > b.length then some (.reply (.took pos body))
        else do
          let c ← b[size_pos]?
          let d ← (if c ≠ 13 then some c else b[size_pos + 1]?)
          if c ≠ 13 ∨ d ≠ 10 then some (.reply (.failed body))
          else if wrap32 body.data.length ≠ body.expected_size then some (.reply .aborted)
          else some (.reply (.took (size_pos + http_crlf_length)
            { body with is_parse_finished := true }))
      else
        some (.chunk size_pos { body with parsing_chunk_size := chunk_size + http_crlf_length })
  else
    some (.chunk pos body)

/-- The loop of `body::__parse_by_chunk`. -/
def parse_chunk_loop_at (b : Bytes) : Nat → Body → Nat → Option (Reply Body)
  | 0, body, pos => some (.took pos body)
  | fuel + 1, body, pos =>
    if b.length ≤ pos then some (.took pos body)
    else do
      match ← body.enter_chunk_at b pos with
      | .reply r => some r
      | .chunk pos body => do
        let (stop, pos, body) ← body.take_chunk_at b pos
        if stop then some (.took pos body) else parse_chunk_loop_at b fuel body pos

/-- `body::parse`. -/
def parse_at (body : Body) (b : Bytes) : Option (Reply Body) :=
  if body.is_chunk_mode then parse_chunk_loop_at b b.length body 0 else body.parse_by_length_at b

theorem parse_by_length_at_eq (body : Body) (b : Bytes) :
    body.parse_by_length_at b = some (body.parse_by_length b) := by
  unfold parse_by_length_at parse_by_length
  extract_lets diff parse_size
  by_cases hneg : parse_size < 0
  · rw [if_pos hneg, if_pos hneg]
  · rw [if_neg hneg, if_neg hneg]
    -- the size has been cut to what is there
    have hle : parse_size.toNat ≤ b.length := by
      have : parse_size ≤ b.length := by
        show (if diff > b.length then (b.length : Int) else diff) ≤ b.length
        split
        · omega
        · omega
      omega
    rw [slice_eq (Nat.zero_le _) hle]
    rfl

/-- The reply of the size line `k` bytes further. -/
def SizeLine.behind (k : Nat) : SizeLine → SizeLine
  | .value chunk_size taken => .value chunk_size (k + taken)
  | .cut => .cut
  | .bad => .bad

theorem parse_chunk_size_at_eq {b : Bytes} {left pos : Nat} (acc : Nat)
    (h : pos + left = b.length) :
    parse_chunk_size_at b left acc pos = some ((parse_chunk_size acc (b.drop pos)).behind pos) := by
  induction left generalizing acc pos with
  | zero =>
    rw [List.drop_of_length_le (by omega)]
    rfl
  | succ left ih =>
    have hlt : pos < b.length := by omega
    rw [List.drop_eq_getElem_cons hlt, parse_chunk_size_at, List.getElem?_eq_getElem hlt]
    unfold parse_chunk_size
    by_cases hbig : acc ≥ 1048576
    · rw [if_pos hbig, if_pos hbig]
      rfl
    · rw [if_neg hbig, if_neg hbig]
      show (if b[pos] = 13 then _ else _) = _
      by_cases hcr : b[pos] = 13
      · -- the `\n` is looked at if it is there
        rw [if_pos hcr, if_pos hcr]
        have hends : pos + http_crlf_length > b.length ↔ b.length ≤ pos + 1 := by
          unfold http_crlf_length
          omega
        simp only [hends]
        by_cases hlast : b.length ≤ pos + 1
        · rw [if_pos hlast, List.drop_of_length_le hlast]
          rfl
        · have hlt' : pos + 1 < b.length := by omega
          rw [if_neg hlast, List.drop_eq_getElem_cons hlt', List.getElem?_eq_getElem hlt']
          show some (if b[pos + 1] ≠ 10 then _ else _) = some (SizeLine.behind pos (if _ then _ else _))
          split
          · rfl
          · rfl
      · rw [if_neg hcr, if_neg hcr, ih _ (by omega)]
        congr 1
        rcases parse_chunk_size (acc * 16 + hex_to_dec b[pos]) (b.drop (pos + 1)) with ⟨v, n⟩ | _ | _
        · show SizeLine.value v (pos + 1 + n) = .value v (pos + (n + 1))
          congr 1
          omega
        · rfl
        · rfl

/-- What the first half gives, `k` bytes further. -/
def Entered.behind (k : Nat) : Entered → Entered
  | .reply r => .reply (r.after k)
  | .chunk taken body => .chunk (k + taken) body

theorem enter_chunk_at_eq (body : Body) {b : Bytes} {pos : Nat} (h : pos ≤ b.length) :
    body.enter_chunk_at b pos = some ((body.enter_chunk (b.drop pos)).behind pos) := by
  unfold enter_chunk_at enter_chunk
  by_cases hsize : body.parsing_chunk_size = 0
  · rw [if_pos hsize, if_pos hsize, parse_chunk_size_at_eq 0 (by omega)]
    rcases hline : parse_chunk_size 0 (b.drop pos) with ⟨v, taken⟩ | _ | _
    · have htaken := parse_chunk_size_taken hline
      rw [List.length_drop] at htaken
      show (if v = 0 then _ else _) = some (Entered.behind pos (if v = 0 then _ else _))
      by_cases hv : v = 0
      · -- the last chunk, and the two bytes behind its size line
        have hends : pos + taken + http_crlf_length > b.length ↔ b.length ≤ pos + taken + 1 := by
          unfold http_crlf_length
          omega
        rw [if_pos hv, if_pos hv, List.drop_drop]
        simp only [hends]
        by_cases hlast : b.length ≤ pos + taken + 1
        · rw [if_pos hlast]
          rcases hrest : b.drop (pos + taken) with _ | ⟨c, _ | ⟨d, rest⟩⟩
          · rfl
          · rfl
          · have := congrArg List.length hrest
            simp only [List.length_drop, List.length_cons] at this
            omega
        · have hlt : pos + taken < b.length := by omega
          have hlt' : pos + taken + 1 < b.length := by omega
          rw [if_neg hlast, List.getElem?_eq_getElem hlt, List.getElem?_eq_getElem hlt',
            List.drop_eq_getElem_cons hlt, List.drop_eq_getElem_cons hlt']
          simp only [Option.bind_eq_bind, Option.bind_some]
          -- the second byte is read only behind a `\r`
          by_cases hcr : b[pos + taken] = 13
          · have hread : (if b[pos + taken] ≠ 13 then some b[pos + taken]
                else some b[pos + taken + 1]) = some b[pos + taken + 1] := if_neg (not_not.mpr hcr)
            rw [hread, Option.bind_some]
            split
            · rfl
            · split
              · rfl
              · rfl
          · rw [if_pos hcr, Option.bind_some, if_pos (.inl hcr), if_pos (.inl hcr)]
            rfl
      · rw [if_neg hv, if_neg hv]
        rfl
    · rfl
    · rfl
  · rw [if_neg hsize, if_neg hsize]
    rfl

theorem take_chunk_at_eq (body : Body) {b : Bytes} {pos : Nat} (h : pos ≤ b.length) :
    body.take_chunk_at b pos =
      some ((body.take_chunk (b.drop pos)).1, pos + (body.take_chunk (b.drop pos)).2.1,
        (body.take_chunk (b.drop pos)).2.2) := by
  have hlen : (b.drop pos).length = b.length - pos := List.length_drop
  unfold take_chunk_at take_chunk
  rw [hlen]
  by_cases hall : b.length - pos ≥ body.parsing_chunk_size
  · simp only [if_pos hall]
    by_cases hbig : body.parsing_chunk_size > http_crlf_length
    · rw [if_pos hbig, if_pos hbig, slice_drop (by omega)]
      rfl
    · -- what is left of the chunk is its end
      rw [if_neg hbig, if_neg hbig]
      show some (false, _, { body with data := body.data ++ [], parsing_chunk_size := 0 }) = _
      rw [List.append_nil]
  · simp only [if_neg hall]
    by_cases hcrlf : body.parsing_chunk_size = http_crlf_length
    · rw [if_pos hcrlf, if_pos hcrlf]
      rfl
    · rw [if_neg hcrlf, if_neg hcrlf]
      by_cases hmore : http_crlf_length ≤ body.parsing_chunk_size - (b.length - pos)
      · rw [if_pos hmore, if_pos hmore, slice_drop (by omega), List.take_of_length_le (by omega)]
        rfl
      · rw [if_neg hmore, if_neg hmore, slice_drop (by omega)]
        rfl

/-- At the `break` the position has not moved. -/
theorem take_chunk_stop {body : Body} {b : Bytes} (h : (body.take_chunk b).1 = true) :
    (body.take_chunk b).2.1 = 0 := by
  unfold take_chunk at h ⊢
  simp only at h ⊢
  split at h
  · cases h
  · next hall =>
    rw [if_neg hall]
    split at h
    · next hcrlf => rw [if_pos hcrlf]
    · split at h
      · cases h
      · cases h

theorem parse_chunk_loop_at_eq {b : Bytes} (fuel : Nat) (body : Body) {pos : Nat}
    (h : pos ≤ b.length) :
    parse_chunk_loop_at b fuel body pos = some (parse_chunk_loop fuel body (b.drop pos) pos) := by
  induction fuel generalizing body pos with
  | zero => rfl
  | succ fuel ih =>
    unfold parse_chunk_loop_at parse_chunk_loop
    by_cases hend : b.length ≤ pos
    · rw [if_pos hend, if_pos (List.drop_of_length_le hend)]
    · have hne : b.drop pos ≠ [] := by
        rw [ne_eq, List.drop_eq_nil_iff]
        exact hend
      rw [if_neg hend, if_neg hne, enter_chunk_at_eq body h]
      rcases henter : body.enter_chunk (b.drop pos) with r | ⟨taken, body₁⟩
      · rfl
      · have htaken := enter_chunk_taken henter
        have htake := take_chunk_taken body₁ (b.drop (pos + taken))
        rw [List.length_drop] at htaken htake
        show ((body₁.take_chunk_at b (pos + taken)).bind _) = _
        rw [take_chunk_at_eq body₁ (by omega), Option.bind_some]
        simp only [List.drop_drop]
        split
        · next hstop =>
          rw [take_chunk_stop hstop]
          rfl
        · rw [ih _ (by omega), Nat.add_assoc]

theorem parse_at_eq (body : Body) (b : Bytes) : body.parse_at b = some (body.parse b) := by
  unfold parse_at parse
  split
  · exact parse_chunk_loop_at_eq b.length body (Nat.zero_le _)
  · exact parse_by_length_at_eq body b

end Body

/-! ## Section 6: A call -/

namespace Request

/-- `request::__parse_start_line`. -/
def parse_start_line_at (r : Request) (b : Bytes) : Option (Reply Request) := do
  match ← find_http_line_end_at b 0 b.length with
  | none => some (.took 0 r)
  | some line_end => do
    let x ← parse_line_at r.fields r.version b line_end
    let r := { r with fields := x.2.1, version := x.2.2 }
    some (if x.1 then .took line_end r else .failed r)

/-- The stage `PARSE_BODY` of `request::parse`. -/
def parse_body_at (r : Request) (b : Bytes) : Option (Reply Request) :=
  if r.parse_status = PARSE_BODY then
    match r.body with
    | none => some .aborted
    | some body => do
      let reply ← body.parse_at b
      some (reply.map fun body => { r with
        body := some body
        parse_status := if body.is_parse_finished then PARSE_FINISHED else r.parse_status })
  else
    some (.took 0 r)

/-- The stage `PARSE_HEADER` and the one behind it, which is given the bytes
    from `pos` on. -/
def parse_head_at (r : Request) (b : Bytes) : Option (Reply Request) :=
  if r.parse_status = PARSE_HEADER then do
    match ← r.header.parse_header_at [] b with
    | .aborted => some .aborted
    | .failed h => some (.failed { r with header := h })
    | .took n h =>
      let r : Request := { r with header := h }
      if n = 0 then some (.took 0 r)
      else if !h.header_parsed then some (.took n r)
      else do
        let reply ← parse_body_at (r.finish_header kind) (b.drop n)
        some (reply.after n)
  else
    parse_body_at r b

/-- `request::parse`. -/
def parse_at (r : Request) (b : Bytes) : Option (Reply Request) :=
  if r.parse_status = PARSE_FINISHED then some (.took 0 r)
  else
    let r : Request :=
      if r.parse_status = PARSE_NONE then { r with parse_status := PARSE_LINE } else r
    if r.parse_status = PARSE_LINE then do
      match ← parse_start_line_at r b with
      | .aborted => some .aborted
      | .failed r => some (.failed r)
      | .took n r =>
        if n = 0 then some (.took 0 r)
        else do
          let reply ← parse_head_at { r with parse_status := PARSE_HEADER } (b.drop n)
          some (reply.after n)
    else
      parse_head_at r b

/-- The call reads no byte outside `b`. -/
def ReadsInside (r : Request) (b : Bytes) : Prop := (parse_at r b).isSome = true

/-- The line that the call reads has its version in the buffer. -/
def LineInside (r : Request) (b : Bytes) : Prop :=
  r.parse_status = PARSE_NONE ∨ r.parse_status = PARSE_LINE →
    ∀ n, find_http_line_end b = some n → VersionThere b n

theorem parse_body_at_eq (r : Request) (b : Bytes) :
    parse_body_at r b = some (r.parse_body b) := by
  unfold parse_body_at Packet.parse_body
  split
  · rcases r.body with _ | body
    · rfl
    · show (body.parse_at b).bind _ = _
      rw [Body.parse_at_eq]
      rfl
  · rfl

theorem parse_head_at_eq (r : Request) (b : Bytes) :
    parse_head_at r b = some (r.parse_head kind [] b) := by
  unfold parse_head_at Packet.parse_head
  rw [Header.parse_header_at_eq]
  split
  · simp only [Option.bind_eq_bind, Option.bind_some, parse_body_at_eq]
    rcases r.header.parse_header [] b with _ | h | ⟨n, h⟩
    · rfl
    · rfl
    · simp only
      split
      · rfl
      · split
        · rfl
        · rfl
  · exact parse_body_at_eq r b

theorem parse_start_line_at_none (r : Request) {b : Bytes} (h : find_http_line_end b = none) :
    parse_start_line_at r b = some (Packet.parse_start_line kind r b) := by
  unfold parse_start_line_at Packet.parse_start_line
  rw [find_http_line_end_at_eq (Nat.zero_add _), List.drop_zero, h]
  rfl

theorem parse_start_line_at_eq (r : Request) {b : Bytes} {n : Nat}
    (h : find_http_line_end b = some n) :
    (VersionThere b n →
      parse_start_line_at r b = some (Packet.parse_start_line kind r b)) ∧
    (¬ VersionThere b n → parse_start_line_at r b = none) := by
  obtain ⟨hinside, houtside⟩ := parse_line_at_eq r.fields r.version h
  have hfind : find_http_line_end_at b 0 b.length = some (some n) := by
    rw [find_http_line_end_at_eq (Nat.zero_add _), List.drop_zero, h, Option.map_some,
      Nat.zero_add]
  unfold parse_start_line_at Packet.parse_start_line
  rw [hfind, h]
  simp only [Option.bind_eq_bind, Option.bind_some]
  constructor
  · intro hthere
    rw [hinside hthere]
    rfl
  · intro hno
    rw [houtside hno]
    rfl

/-- What a call does from the start line on. -/
theorem parse_at_start {r : Request} (b : Bytes)
    (h : r.parse_status = PARSE_NONE ∨ r.parse_status = PARSE_LINE) :
    parse_at r b =
      (parse_start_line_at { r with parse_status := PARSE_LINE } b).bind fun reply =>
        match reply with
        | .aborted => some .aborted
        | .failed r => some (.failed r)
        | .took n r =>
          if n = 0 then some (.took 0 r)
          else (parse_head_at { r with parse_status := PARSE_HEADER } (b.drop n)).bind fun reply =>
            some (reply.after n) := by
  rcases r with ⟨fields, version, header, body, status⟩
  rcases h with h | h
  · cases h
    rfl
  · cases h
    rfl

theorem parse_start {r : Request} (b : Bytes)
    (h : r.parse_status = PARSE_NONE ∨ r.parse_status = PARSE_LINE) :
    Request.parse r b =
      match Packet.parse_start_line kind { r with parse_status := PARSE_LINE } b with
      | .aborted => .aborted
      | .failed r => .failed r
      | .took n r =>
        if n = 0 then .took 0 r
        else (Packet.parse_head kind [] { r with parse_status := PARSE_HEADER } (b.drop n)).after n := by
  unfold Request.parse Packet.parse Packet.parse_from
  rcases r with ⟨fields, version, header, body, status⟩
  rcases h with h | h
  · cases h
    simp only [reduceCtorEq, if_false, if_true]
    rcases Packet.parse_start_line kind _ b with _ | r' | ⟨n, r'⟩ <;> rfl
  · cases h
    simp only [reduceCtorEq, if_false, if_true]
    rcases Packet.parse_start_line kind _ b with _ | r' | ⟨n, r'⟩ <;> rfl

/-- With its pointers a call computes what it does on the list, or reads
    outside. -/
theorem parse_at_eq (r : Request) (b : Bytes) :
    (LineInside r b → parse_at r b = some (Request.parse r b)) ∧
    (¬ LineInside r b → parse_at r b = none) := by
  by_cases hline : r.parse_status = PARSE_NONE ∨ r.parse_status = PARSE_LINE
  · -- a line is to be read
    have hinside : LineInside r b ↔ ∀ n, find_http_line_end b = some n → VersionThere b n :=
      ⟨fun h => h hline, fun h _ => h⟩
    have hstart : parse_start_line_at { r with parse_status := PARSE_LINE } b =
        some (Packet.parse_start_line kind { r with parse_status := PARSE_LINE } b) →
        parse_at r b = some (Request.parse r b) := by
      intro heq
      rw [parse_at_start b hline, parse_start b hline, heq, Option.bind_some]
      rcases Packet.parse_start_line kind { r with parse_status := PARSE_LINE } b with _ | r' | ⟨n, r'⟩
      · rfl
      · rfl
      · simp only [parse_head_at_eq, Option.bind_some]
        split
        · rfl
        · rfl
    rw [hinside]
    rcases hfind : find_http_line_end b with _ | n
    · -- its end has not come
      refine ⟨fun _ => hstart (parse_start_line_at_none _ hfind), fun hno => absurd ?_ hno⟩
      intro n hn
      cases hn
    · have hone : (∀ m, some n = some m → VersionThere b m) ↔ VersionThere b n := by simp
      obtain ⟨hthere, hnone⟩ :=
        parse_start_line_at_eq { r with parse_status := PARSE_LINE } hfind
      rw [hone]
      constructor
      · intro h
        exact hstart (hthere h)
      · intro h
        rw [parse_at_start b hline, hnone h]
        rfl
  · -- no line is read
    have hinside : LineInside r b := fun h => absurd h hline
    refine ⟨fun _ => ?_, fun hno => absurd hinside hno⟩
    unfold parse_at Request.parse Packet.parse Packet.parse_from
    by_cases hfin : r.parse_status = PARSE_FINISHED
    · rw [if_pos hfin, if_pos hfin]
    · rw [not_or] at hline
      rw [if_neg hfin, if_neg hfin, if_neg hline.1]
      simp only [if_neg hline.2]
      exact parse_head_at_eq r b

/-- **The bytes read.** A call of `parse` reads inside its buffer unless it
    comes to a version that the end of the buffer cuts off. -/
theorem reads_inside_iff (r : Request) (b : Bytes) : ReadsInside r b ↔ LineInside r b := by
  obtain ⟨hinside, houtside⟩ := parse_at_eq r b
  unfold ReadsInside
  constructor
  · intro hsome
    by_contra hno
    rw [houtside hno] at hsome
    cases hsome
  · intro h
    rw [hinside h]
    rfl

/-- Behind `GET / ` eight bytes are compared, and two are there. -/
theorem not_reads_inside : ¬ ReadsInside construct (ascii "GET / \r\n") := by
  unfold ReadsInside
  decide

end Request

end Pump
