import Pump.Http.ContentLength
import Pump.Http.RoundTrip

/-! # Responses there and back

    A new response reads back what `response::serialize` writes, with the
    body that its `Content-Length` announces, and stops where it ends. -/

namespace Pump

open ParseStatus HttpVersion

namespace Response

/-! ## Section 1: Response lines -/

theorem code_desc_printable (code : Int) :
    (get_http_code_desc code).length ≤ 31 ∧
      (get_http_code_desc code).all (fun c => 32 ≤ c) = true := by
  unfold get_http_code_desc
  split <;> decide

theorem code_desc_chars (code : Int) : ∀ c ∈ get_http_code_desc code, c ≠ 13 ∧ c ≠ 0 := by
  intro c hc
  have hle : 32 ≤ c := by
    have hall := List.all_eq_true.mp (code_desc_printable code).2 c hc
    rwa [decide_eq_true_eq] at hall
  constructor
  · rintro rfl
    exact absurd hle (by decide)
  · rintro rfl
    exact absurd hle (by decide)

theorem char_value_digit {c : UInt8} (h : 48 ≤ c ∧ c ≤ 57) :
    char_value c - 48 = (c.toNat - 48 : Nat) := by
  rw [UInt8.le_iff_toNat_le, UInt8.le_iff_toNat_le] at h
  have h48 : (48 : UInt8).toNat = 48 := rfl
  have h57 : (57 : UInt8).toNat = 57 := rfl
  unfold char_value
  rw [Int.bmod_def]
  omega

theorem le_numeral_fold (s : Bytes) (acc : Nat) :
    acc ≤ s.foldl (fun acc c => acc * 10 + (c.toNat - 48)) acc := by
  induction s generalizing acc with
  | nil => exact Nat.le_refl _
  | cons c s ih =>
    have hle := ih (acc * 10 + (c.toNat - 48))
    rw [List.foldl_cons]
    omega

/-- The loop reads a numeral whose value fits, since no prefix of it is
    larger. -/
theorem parse_status_code_eq {s : Bytes} (hs : ∀ c ∈ s, 48 ≤ c ∧ c ≤ 57) {acc : Nat}
    (hlt : s.foldl (fun acc c => acc * 10 + (c.toNat - 48)) acc < 2 ^ 31) :
    parse_status_code acc s = (s.foldl (fun acc c => acc * 10 + (c.toNat - 48)) acc : Nat) := by
  induction s generalizing acc with
  | nil => rfl
  | cons c s ih =>
    rw [List.foldl_cons] at hlt ⊢
    have hle := le_numeral_fold s (acc * 10 + (c.toNat - 48))
    have hstep : wrap32 (acc * 10 + (char_value c - 48)) = (acc * 10 + (c.toNat - 48) : Nat) := by
      rw [char_value_digit (hs c List.mem_cons_self), Body.wrap32_eq (by omega) (by omega)]
      push_cast
      rfl
    unfold parse_status_code
    rw [List.foldl_cons, hstep]
    exact ih (fun d hd => hs d (List.mem_cons_of_mem c hd)) hlt

theorem parse_status_code_digits {n : Nat} (h : n < 2 ^ 31) :
    parse_status_code 0 (digits 10 n) = n := by
  have hvalue := numeral_value_digits n
  unfold numeral_value at hvalue
  have hlt : (digits 10 n).foldl (fun acc c => acc * 10 + (c.toNat - 48)) 0 < 2 ^ 31 := by
    rw [hvalue]
    exact h
  have heq := parse_status_code_eq (isNumeral_digits n).2 hlt
  rwa [hvalue] at heq

/-! ## Section 2: Responses -/

/-- The bytes of the body, if there is one. -/
def body_bytes (r : Response) : Bytes := (r.body.map (·.data)).getD []

/-- A response with a known version, a status code that is not negative, a
    canonical header, and a body by length that the header announces. -/
structure Plain (r : Response) : Prop where
  version : r.version ≠ VERSION_UNKNOWN
  status_nonneg : 0 ≤ r.fields.status_code
  status_lt : r.fields.status_code < 2 ^ 31
  header : r.header.Canonical
  body : ∀ body, r.body = some body → body.is_chunk_mode = false
  announced : ∃ vs, r.header.headers[ascii "Content-Length"]? =
    some (digits 10 (body_bytes r).length :: vs)
  length_lt : (body_bytes r).length < 2 ^ 31

/-- A response with a line that can be read back. -/
structure PlainLine (r : Response) : Prop where
  version : r.version ≠ VERSION_UNKNOWN
  status_nonneg : 0 ≤ r.fields.status_code
  status_lt : r.fields.status_code < 2 ^ 31

theorem Plain.plainLine {r : Response} (h : Plain r) : PlainLine r :=
  ⟨h.version, h.status_nonneg, h.status_lt⟩

/-- The response line without its `\r\n`. -/
def line_text (r : Response) : Bytes :=
  r.version.string ++ 32 :: (digits 10 r.fields.status_code.toNat ++
    32 :: get_http_code_desc r.fields.status_code)

theorem digit_ne {n : Nat} {c d : UInt8} (hc : c ∈ digits 10 n) (hd : ¬ (48 ≤ d ∧ d ≤ 57)) :
    c ≠ d := fun heq => hd (heq ▸ (isNumeral_digits n).2 c hc)

theorem text_no_cr (r : Response) : (13 : UInt8) ∉ line_text r := by
  have hv : (13 : UInt8) ∉ r.version.string :=
    Request.not_mem_of_ne fun c hc => (Request.version_chars _ c hc).1
  have hd : (13 : UInt8) ∉ digits 10 r.fields.status_code.toNat :=
    Request.not_mem_of_ne fun c hc => digit_ne hc (by decide)
  have hdesc : (13 : UInt8) ∉ get_http_code_desc r.fields.status_code :=
    Request.not_mem_of_ne fun c hc => (code_desc_chars _ c hc).1
  simp [line_text, hv, hd, hdesc]

theorem PlainLine.text_length {r : Response} (h : PlainLine r) : (line_text r).length ≤ 51 := by
  have hv : r.version.string.length ≤ 8 := by
    cases r.version <;> decide
  have hd : (digits 10 r.fields.status_code.toNat).length ≤ 10 := by
    have hlt := h.status_lt
    exact digits_length_le (by omega) (by omega) (by omega)
  have hdesc := (code_desc_printable r.fields.status_code).1
  unfold line_text
  simp only [List.length_append, List.length_cons]
  omega

theorem PlainLine.line {r : Response} (h : PlainLine r) :
    serialize_response_line r = (line_text r ++ http_crlf, (line_text r ++ http_crlf).length) := by
  have hv : c_str r.version.string = r.version.string :=
    c_str_eq (Request.not_mem_of_ne fun c hc => (Request.version_chars _ c hc).2)
  have hdesc : c_str (get_http_code_desc r.fields.status_code) =
      get_http_code_desc r.fields.status_code :=
    c_str_eq (Request.not_mem_of_ne fun c hc => (code_desc_chars _ c hc).2)
  have hformat : format_dec r.fields.status_code = digits 10 r.fields.status_code.toNat := by
    have hnonneg := h.status_nonneg
    unfold format_dec
    rw [if_neg (by omega)]
  have hsp : ascii " " = [32] := rfl
  have htext : r.version.string ++ [32] ++ digits 10 r.fields.status_code.toNat ++ [32] ++
      get_http_code_desc r.fields.status_code ++ http_crlf = line_text r ++ http_crlf := by
    simp [line_text]
  have hlen := h.text_length
  unfold serialize_response_line snprintf
  rw [hv, hdesc, hformat, hsp, htext, List.take_of_length_le]
  rw [List.length_append]
  have hcrlf : http_crlf.length = 2 := rfl
  omega

theorem PlainLine.parse_line_text {r : Response} (h : PlainLine r) (version : HttpVersion) :
    parse_line ⟨0⟩ version (line_text r ++ http_crlf) = (true, r.fields, r.version) := by
  have hline : line_text r ++ http_crlf = r.version.string ++
      (32 :: (digits 10 r.fields.status_code.toNat ++
        32 :: (get_http_code_desc r.fields.status_code ++ http_crlf))) := by
    simp [line_text]
  have hdigit : ∀ c ∈ digits 10 r.fields.status_code.toNat, decide (c ≠ 32) = true :=
    fun c hc => decide_eq_true (digit_ne hc (by decide))
  have hdrop : (r.version.string ++ (32 :: (digits 10 r.fields.status_code.toNat ++
      32 :: (get_http_code_desc r.fields.status_code ++ http_crlf)))).drop 8 =
      32 :: (digits 10 r.fields.status_code.toNat ++
        32 :: (get_http_code_desc r.fields.status_code ++ http_crlf)) := by
    apply List.drop_left'
    have hversion := h.version
    revert hversion
    cases r.version <;> decide
  obtain ⟨c, ds, hds⟩ := List.exists_cons_of_ne_nil (digits_ne_nil 10 r.fields.status_code.toNat)
  have hspaces : (32 :: (digits 10 r.fields.status_code.toNat ++
      32 :: (get_http_code_desc r.fields.status_code ++ http_crlf))).dropWhile (· = 32) =
      digits 10 r.fields.status_code.toNat ++
        32 :: (get_http_code_desc r.fields.status_code ++ http_crlf) := by
    have hc : c ≠ 32 := digit_ne (n := r.fields.status_code.toNat) (by rw [hds]; simp) (by decide)
    rw [hds, List.dropWhile_cons_of_pos (by decide), List.cons_append,
      List.dropWhile_cons_of_neg (by simpa using hc)]
  unfold parse_line
  rw [hline, Request.parse_version_string h.version]
  simp only [hdrop, hspaces]
  rw [List.takeWhile_append_of_pos hdigit, List.dropWhile_append_of_pos hdigit,
    List.takeWhile_cons_of_neg (by decide), List.dropWhile_cons_of_neg (by decide),
    if_neg (List.cons_ne_nil _ _), List.append_nil]
  have hnonneg := h.status_nonneg
  have hlt := h.status_lt
  rw [parse_status_code_digits (by omega), Int.toNat_of_nonneg hnonneg]

theorem Plain.bytes {r : Response} (h : Plain r) :
    (serialize r).1 = line_text r ++ http_crlf ++
      (Header.text r.header.headers.toList ++ http_crlf ++ body_bytes r) := by
  have hbody : (r.body.map Body.serialize).getD ([], 0) = (body_bytes r, (body_bytes r).length) := by
    unfold body_bytes
    rcases hb : r.body with _ | body
    · rfl
    · have hmode := h.body body hb
      simp [Body.serialize, hmode]
  unfold serialize
  rw [h.plainLine.line, Header.serialize_text h.header, hbody]
  simp

/-- **Response round trip.** A new response takes exactly the bytes that
    `serialize` wrote, whatever follows them, and is the one written. -/
theorem parse_serialize {r : Response} (h : Plain r) (rest : Bytes) :
    ∃ r', parse construct ((serialize r).1 ++ rest) = .took (serialize r).1.length r' ∧
      r'.parse_status = PARSE_FINISHED ∧ r'.version = r.version ∧
      r'.fields.status_code = r.fields.status_code ∧ r'.header.headers = r.header.headers ∧
      body_bytes r' = body_bytes r := by
  obtain ⟨head, hhead⟩ : ∃ head, head = Header.text r.header.headers.toList ++ http_crlf := ⟨_, rfl⟩
  have hbytes : (serialize r).1 ++ rest =
      line_text r ++ http_crlf ++ (head ++ (body_bytes r ++ rest)) := by
    rw [h.bytes, hhead]
    simp only [List.append_assoc]
  have hscan := Header.scan_text_append h.header (body_bytes r ++ rest)
  rw [← hhead] at hscan
  have hlen := h.plainLine.text_length
  have hfind : find_http_line_end (line_text r ++ http_crlf ++ (head ++ (body_bytes r ++ rest))) =
      some ((line_text r).length + 2) :=
    find_http_line_end_iff.mpr ⟨line_text r, head ++ (body_bytes r ++ rest), by simp [http_crlf],
      text_no_cr r, rfl, by
      unfold http_line_max_length
      omega⟩
  have htake : (line_text r ++ http_crlf ++ (head ++ (body_bytes r ++ rest))).take
      ((line_text r).length + 2) = line_text r ++ http_crlf :=
    List.take_left' (by simp [http_crlf])
  have hdrop : (line_text r ++ http_crlf ++ (head ++ (body_bytes r ++ rest))).drop
      ((line_text r).length + 2) = head ++ (body_bytes r ++ rest) :=
    List.drop_left' (by simp [http_crlf])
  -- the message when the header is complete, and its body
  obtain ⟨p, hp⟩ : ∃ p : Response, p = ⟨r.fields, r.version, ⟨true, r.header.headers⟩, none,
      PARSE_HEADER⟩ := ⟨_, rfl⟩
  have hholds : (p.finish_header kind).Holds (body_bytes r).length [] := by
    obtain ⟨vs, hget⟩ := h.announced
    have hann := Packet.announced_first (h := p.header) (by rw [hp]; exact hget)
      (isNumeral_digits (body_bytes r).length)
    rw [numeral_value_digits, (framed_length_eq_iff _).mpr h.length_lt] at hann
    exact Packet.finish_header_holds (by rw [hp]) hann h.length_lt
  obtain ⟨r', hr', hholds'⟩ := Packet.parse_body_holds hholds (body_bytes r ++ rest)
  rw [List.nil_append, List.length_nil, Nat.sub_zero, List.take_left] at hholds'
  rw [List.length_nil, Nat.sub_zero, List.length_append, Nat.min_eq_left (by omega)] at hr'
  have hstate : ((p.finish_header kind).parse_body (body_bytes r ++ rest)).state = some r' := by
    rw [hr']
    rfl
  obtain ⟨hfields, hversion, hheader⟩ := Packet.parse_body_kept hstate
  have hfin := hholds'.finished_iff.mpr rfl
  refine ⟨r', ?_, hfin, ?_, ?_, ?_, ?_⟩
  · have hs : construct.parse_status = PARSE_NONE ∨ construct.parse_status = PARSE_LINE :=
      Or.inl rfl
    have hkind : kind.parse_line = parse_line := rfl
    have hnew : construct.fields = ⟨0⟩ ∧ construct.header = Header.construct ∧
        construct.body = none := ⟨rfl, rfl, rfl⟩
    unfold parse Packet.parse
    rw [hbytes, Packet.parse_from_line hs, hfind]
    simp only [htake, hdrop, hkind, hnew, h.plainLine.parse_line_text, if_true]
    rw [Packet.parse_head_eq rfl rfl, hscan]
    simp only [Header.store_canonical h.header, List.drop_left]
    rw [← hp, hr', h.bytes, ← hhead]
    simp only [Reply.after, List.length_append]
    congr 1
  · rw [hversion, hp]
    rfl
  · rw [hfields, hp]
    rfl
  · rw [hheader, hp]
    rfl
  · unfold Packet.Holds at hholds'
    rw [if_neg (Nat.lt_irrefl _)] at hholds'
    obtain ⟨-, -, hbody⟩ := hholds'
    unfold body_bytes at hbody ⊢
    split at hbody
    · next h0 =>
      rw [hbody, List.length_eq_zero_iff.mp h0]
      rfl
    · obtain ⟨body, hsome, hdata⟩ := hbody
      rw [hsome]
      exact hdata

/-- `HTTP/1.1 200 OK` with a body. -/
def hello_response : Response :=
  ⟨⟨200⟩, VERSION_11, ⟨false, (∅ : HeadMap).insert (ascii "Content-Length") [ascii "5"]⟩,
    some { Body.construct with data := ascii "hello" }, PARSE_NONE⟩

theorem hello_response_plain : Plain hello_response := by
  have hlist : ((∅ : HeadMap).insert (ascii "Content-Length") [ascii "5"]).toList =
      [(ascii "Content-Length", [ascii "5"])] := by
    decide
  refine ⟨nofun, by decide, by decide, ?_, ?_, ⟨[], by decide⟩, by decide⟩
  · intro e he
    replace he : e ∈ ((∅ : HeadMap).insert (ascii "Content-Length") [ascii "5"]).toList := he
    rw [hlist, List.mem_singleton] at he
    subst he
    refine ⟨by decide, by decide, by decide, by decide,
      List.cons_ne_nil _ _, ?_, by decide⟩
    intro v hv
    rw [List.mem_singleton] at hv
    subst hv
    refine ⟨by decide +kernel, by decide +kernel, by decide +kernel, by decide +kernel, ?_⟩
    intro c rest h
    have hc : c = 53 := (List.cons.inj h).1.symm
    rw [hc]
    decide
  · intro body hbody
    cases hbody
    rfl

theorem parse_serialize_hello :
    ∃ r', parse construct ((serialize hello_response).1 ++ ascii "HTTP/1.1") =
        .took (serialize hello_response).1.length r' ∧
      r'.parse_status = PARSE_FINISHED ∧ r'.version = VERSION_11 ∧ r'.fields.status_code = 200 ∧
      r'.header.headers = hello_response.header.headers ∧ body_bytes r' = ascii "hello" :=
  parse_serialize hello_response_plain (ascii "HTTP/1.1")

end Response

end Pump
