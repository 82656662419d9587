import Pump.Http.RequestLine
import Pump.Http.ResponseRoundTrip

/-! # Status lines

    `response::__parse_start_line` against a grammar of its own. Behind the
    version it takes what stands before the next space for the code,
    whatever it is; `StatusLine` has these parts, and the lines of the
    grammar are those of them with a number behind a space. -/

namespace Pump

open HttpVersion

namespace Response

/-! ## Section 1: The grammar -/

/-- The parts of a line with two separators. -/
structure StatusLine where
  version : HttpVersion
  spaces : Bytes
  code : Bytes
  reason : Bytes

namespace StatusLine

def text (l : StatusLine) : Bytes :=
  l.version.string ++ (l.spaces ++ (l.code ++ 32 :: (l.reason ++ http_crlf)))

/-- What the parser looks for. -/
structure Shaped (l : StatusLine) : Prop where
  version_known : l.version ≠ VERSION_UNKNOWN
  spaces : ∀ c ∈ l.spaces, c = 32
  code : l.code ≠ [] ∧ (32 : UInt8) ∉ l.code

/-- A version, one or more spaces, one or more digits, a space, a reason. -/
structure Valid (l : StatusLine) : Prop where
  version_known : l.version ≠ VERSION_UNKNOWN
  spaces : l.spaces ≠ [] ∧ ∀ c ∈ l.spaces, c = 32
  code : IsNumeral l.code

theorem Valid.shaped {l : StatusLine} (h : l.Valid) : l.Shaped := by
  refine ⟨h.version_known, h.spaces.2, h.code.1, ?_⟩
  intro hmem
  exact absurd (h.code.2 32 hmem).1 (by decide)

end StatusLine

/-! ## Section 2: The parser -/

/-- The scans of the parser behind the version. -/
theorem scan_code {l : StatusLine} (h : l.Shaped) :
    (l.text.drop 8).dropWhile (· = 32) = l.code ++ 32 :: (l.reason ++ http_crlf) ∧
    (l.code ++ 32 :: (l.reason ++ http_crlf)).takeWhile (· ≠ 32) = l.code ∧
    (l.code ++ 32 :: (l.reason ++ http_crlf)).dropWhile (· ≠ 32) = 32 :: (l.reason ++ http_crlf) := by
  have hdrop : l.text.drop 8 = l.spaces ++ (l.code ++ 32 :: (l.reason ++ http_crlf)) :=
    List.drop_left' (Request.version_length h.version_known)
  obtain ⟨c, code, hcode⟩ := List.exists_cons_of_ne_nil h.code.1
  have hc : c ≠ 32 := by
    rintro rfl
    exact h.code.2 (by rw [hcode]; exact List.mem_cons_self)
  have hspaces := (scan_stops (code ++ 32 :: (l.reason ++ http_crlf))
    (fun d hd => decide_eq_true (h.spaces d hd)) (decide_eq_false hc)).2
  have hne : ∀ d ∈ l.code, decide (d ≠ 32) = true :=
    fun d hd => decide_eq_true fun heq => h.code.2 (heq ▸ hd)
  rw [hdrop]
  refine ⟨?_, scan_stops (l.reason ++ http_crlf) hne (by decide)⟩
  rw [hcode]
  exact hspaces

theorem parse_line_text {l : StatusLine} (h : l.Shaped) (r : ResponseFields)
    (version : HttpVersion) :
    parse_line r version l.text =
      (true, ⟨parse_status_code r.status_code l.code⟩, l.version) := by
  obtain ⟨hspaces, htake, hdrop⟩ := scan_code h
  unfold parse_line
  rw [StatusLine.text, Request.parse_version_string h.version_known, ← StatusLine.text]
  simp only [hspaces, htake, hdrop]
  exact if_neg (List.cons_ne_nil _ _)

/-- A line that is accepted has these parts. -/
theorem shaped_of_parse {r : ResponseFields} {version : HttpVersion} {b : Bytes} {n : Nat}
    (hfind : find_http_line_end b = some n) (h : (parse_line r version (b.take n)).1 = true) :
    ∃ l : StatusLine, l.Shaped ∧ b.take n = l.text := by
  unfold parse_line at h
  rcases hversion : parse_http_version (b.take n) with _ | v
  · rw [hversion] at h
    cases h
  · obtain ⟨hknown, tail, hline⟩ := Request.parse_http_version_some hversion
    have htail : (b.take n).drop 8 = tail := by
      rw [hline]
      exact List.drop_left' (Request.version_length hknown)
    rw [hversion] at h
    simp only [htail] at h
    split at h
    · cases h
    · next hne =>
      have hspaces : ∀ c ∈ tail.takeWhile (· = 32), c = 32 := fun c hc => by
        simpa using List.mem_takeWhile_imp hc
      -- the code goes up to a space, and the line behind it to its end
      obtain ⟨code, c, rest, hcut, -, -, hcode, hc⟩ := cut_at hne
      have hc : c = 32 := by simpa using hc
      subst hc
      have htail' : tail = tail.takeWhile (· = 32) ++ (code ++ 32 :: rest) := by
        rw [← hcut, List.takeWhile_append_dropWhile]
      have hsuf : 32 :: rest <:+ b.take n := by
        rw [hline, htail']
        exact ⟨v.string ++ (tail.takeWhile (· = 32) ++ code), by simp⟩
      obtain ⟨reason, rfl⟩ := line_rest hfind hsuf (by decide) (by decide)
      refine ⟨⟨v, tail.takeWhile (· = 32), code, reason⟩, ⟨hknown, hspaces, ?_, ?_⟩, ?_⟩
      · -- the first byte behind the spaces is none
        rintro rfl
        have hhead := List.head_dropWhile_not (fun d => decide (d = 32)) (l := tail)
          (by rw [hcut]; exact List.cons_ne_nil _ _)
        simp [hcut] at hhead
      · intro hmem
        have := hcode 32 hmem
        cases this
      · rw [hline]
        exact congrArg (v.string ++ ·) htail'

/-- A line has these parts in one way. -/
theorem shaped_unique {l l' : StatusLine} (h : l.Shaped) (h' : l'.Shaped)
    (heq : l.text = l'.text) : l = l' := by
  obtain ⟨hspaces, htake, hdrop⟩ := scan_code h
  obtain ⟨hspaces', htake', hdrop'⟩ := scan_code h'
  have hrest : l.code ++ 32 :: (l.reason ++ http_crlf) = l'.code ++ 32 :: (l'.reason ++ http_crlf) := by
    rw [← hspaces, ← hspaces', heq]
  have hcode : l.code = l'.code := by rw [← htake, ← htake', hrest]
  have hreason : l.reason = l'.reason := by
    have hcons : 32 :: (l.reason ++ http_crlf) = 32 :: (l'.reason ++ http_crlf) := by
      rw [← hdrop, ← hdrop', hrest]
    exact List.append_cancel_right (List.cons.inj hcons).2
  have hversion : l.version = l'.version := by
    -- the parser reads each of them off the same bytes
    have hparse := parse_line_text h ⟨0⟩ VERSION_UNKNOWN
    rw [heq, parse_line_text h' ⟨0⟩ VERSION_UNKNOWN] at hparse
    exact (congrArg (·.2.2) hparse).symm
  have hsep : l.spaces = l'.spaces := by
    unfold StatusLine.text at heq
    rw [hversion, hrest] at heq
    exact List.append_cancel_right (List.append_cancel_left heq)
  rcases l with ⟨v, spaces, code, reason⟩
  rcases l' with ⟨v', spaces', code', reason'⟩
  cases hversion
  cases hsep
  cases hcode
  cases hreason
  rfl

/-! ## Section 3: The code -/

/-- What is accepted has a number for its code, which is then the status code
    and fits in an `int32_t`. -/
def NumericOnly (b : Bytes) (n : Nat) : Prop :=
  ∀ m r', Packet.parse_start_line kind construct b = .took m r' → 0 < m →
    ∃ l : StatusLine, l.Valid ∧ b.take n = l.text ∧
      r'.fields.status_code = numeral_value l.code ∧ numeral_value l.code < 2 ^ 31

/-- The parser on the line of a buffer. -/
theorem parse_start_line_found {b : Bytes} {n : Nat} (h : find_http_line_end b = some n) :
    Packet.parse_start_line kind construct b =
      if (parse_line ⟨0⟩ VERSION_UNKNOWN (b.take n)).1
        then .took n { construct with
          fields := (parse_line ⟨0⟩ VERSION_UNKNOWN (b.take n)).2.1
          version := (parse_line ⟨0⟩ VERSION_UNKNOWN (b.take n)).2.2 }
        else .failed { construct with
          fields := (parse_line ⟨0⟩ VERSION_UNKNOWN (b.take n)).2.1
          version := (parse_line ⟨0⟩ VERSION_UNKNOWN (b.take n)).2.2 } := by
  unfold Packet.parse_start_line
  rw [h]
  rfl

/-- Every line with these parts is accepted. -/
theorem parse_start_line_shaped {b : Bytes} {n : Nat} (h : find_http_line_end b = some n)
    {l : StatusLine} (hl : l.Shaped) (hline : b.take n = l.text) :
    Packet.parse_start_line kind construct b =
      .took n { construct with
        fields := ⟨parse_status_code 0 l.code⟩
        version := l.version } := by
  rw [parse_start_line_found h, hline, parse_line_text hl]
  rfl

/-- A numeral that fits is read as it is. -/
theorem status_code_numeral {s : Bytes} (hs : ∀ c ∈ s, 48 ≤ c ∧ c ≤ 57)
    (hlt : numeral_value s < 2 ^ 31) : parse_status_code 0 s = numeral_value s :=
  @parse_status_code_eq s hs 0 hlt

/-- **The status code.** Only numbers are accepted if what stands between the
    version and the next space is a number that fits, behind a space. -/
theorem numeric_only_iff (b : Bytes) (n : Nat) (h : find_http_line_end b = some n) :
    NumericOnly b n ↔
      ∀ l : StatusLine, l.Shaped → b.take n = l.text →
        l.spaces ≠ [] ∧ (∀ c ∈ l.code, 48 ≤ c ∧ c ≤ 57) ∧ numeral_value l.code < 2 ^ 31 := by
  constructor
  · -- these parts are accepted, so they are those of a valid line
    intro hnum l hl hline
    have hn := (find_http_line_end_bounds h).1
    obtain ⟨l', hvalid, hline', -, hlt⟩ :=
      hnum n _ (parse_start_line_shaped h hl hline) (by omega)
    have heq : l' = l := shaped_unique hvalid.shaped hl (hline'.symm.trans hline)
    subst heq
    exact ⟨hvalid.spaces.1, hvalid.code.2, hlt⟩
  · intro hall m r' htook _
    rw [parse_start_line_found h] at htook
    split at htook
    · next hacc =>
      obtain ⟨l, hl, hline⟩ := shaped_of_parse h hacc
      obtain ⟨hspaces, hdigits, hlt⟩ := hall l hl hline
      refine ⟨l, ⟨hl.version_known, ⟨hspaces, hl.spaces⟩, hl.code.1, hdigits⟩, hline, ?_, hlt⟩
      cases htook
      rw [hline, parse_line_text hl]
      exact status_code_numeral hdigits hlt
    · cases htook

/-- `HTTP/1.1 200 OK`. -/
theorem numeric_only_ok :
    NumericOnly (ascii "HTTP/1.1 200 OK\r\n") 17 ↔
      ∀ l : StatusLine, l.Shaped → (ascii "HTTP/1.1 200 OK\r\n").take 17 = l.text →
        l.spaces ≠ [] ∧ (∀ c ∈ l.code, 48 ≤ c ∧ c ≤ 57) ∧ numeral_value l.code < 2 ^ 31 :=
  numeric_only_iff (ascii "HTTP/1.1 200 OK\r\n") 17 (by decide)

/-- `HTTP/1.1 2x0 OK` is accepted. -/
theorem not_numeric_only :
    find_http_line_end (ascii "HTTP/1.1 2x0 OK\r\n") = some 17 ∧
    ¬ NumericOnly (ascii "HTTP/1.1 2x0 OK\r\n") 17 := by
  have hfind : find_http_line_end (ascii "HTTP/1.1 2x0 OK\r\n") = some 17 := by decide
  obtain ⟨l, hl⟩ : ∃ l : StatusLine, l = ⟨VERSION_11, [32], ascii "2x0", ascii "OK"⟩ := ⟨_, rfl⟩
  have hshaped : l.Shaped := by
    rw [hl]
    exact ⟨nofun, by simp, nofun, by decide⟩
  have hline : (ascii "HTTP/1.1 2x0 OK\r\n").take 17 = l.text := by
    rw [hl]
    rfl
  refine ⟨hfind, ?_⟩
  intro hnum
  obtain ⟨l', hvalid, hline', -, -⟩ :=
    hnum 17 _ (parse_start_line_shaped hfind hshaped hline) (by omega)
  have heq : l' = l := shaped_unique hvalid.shaped hshaped (hline'.symm.trans hline)
  rw [heq, hl] at hvalid
  -- the byte in the middle is no digit
  exact absurd (hvalid.code.2 120 (by decide)).2 (by decide)

end Response

end Pump
