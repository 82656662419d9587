import Pump.Http.Segments

/-! # Serializing and parsing back

    What a new request makes of the bytes that `serialize` writes: the
    header lines come back, and the start line does as far as the buffer it
    is formatted in goes. -/

namespace Pump

open ParseStatus

/-! ## Section 1: Values -/

/-- A header value that survives joining and splitting: not empty, and
    without the separators of `split_string`. -/
structure PlainValue (v : Bytes) : Prop where
  ne_nil : v ≠ []
  no_sep : ∀ c ∈ v, head_sep.is_sep c = false
  no_cr : (13 : UInt8) ∉ v
  no_nul : (0 : UInt8) ∉ v
  start : ∀ c rest, v = c :: rest → c ≠ 32 ∧ c ≠ 58

/-- Past the separator, a value is one token. -/
theorem split_loop_plain {v : Bytes} (hv : PlainValue v) (skipping : Bool) (tail : Bytes) :
    split_loop head_sep skipping [] (v ++ tail) = split_loop head_sep false v tail := by
  have hrest : ∀ (w cur : Bytes), (∀ c ∈ w, head_sep.is_sep c = false) →
      split_loop head_sep false cur (w ++ tail) = split_loop head_sep false (cur ++ w) tail := by
    intro w
    induction w with
    | nil =>
      intro cur _
      simp
    | cons c w ih =>
      intro cur hw
      have hc := hw c List.mem_cons_self
      have := ih (cur ++ [c]) fun d hd => hw d (List.mem_cons_of_mem c hd)
      simpa [split_loop, hc] using this
  obtain ⟨c, w, rfl⟩ := List.exists_cons_of_ne_nil hv.ne_nil
  have hc := hv.no_sep c List.mem_cons_self
  have hspace := (hv.start c w rfl).1
  have := hrest w [c] fun d hd => hv.no_sep d (List.mem_cons_of_mem c hd)
  simpa [split_loop, hc, hspace] using this

theorem split_loop_join {vs : List Bytes} (hne : vs ≠ []) (hvs : ∀ v ∈ vs, PlainValue v)
    (skipping : Bool) :
    split_loop head_sep skipping [] (join_strings vs Header.head_value_sep) = vs := by
  induction vs generalizing skipping with
  | nil => exact absurd rfl hne
  | cons v vs ih =>
    have hv := hvs v List.mem_cons_self
    cases vs with
    | nil =>
      have := split_loop_plain hv skipping []
      rw [List.append_nil] at this
      simp [join_strings, this, split_loop, hv.ne_nil]
    | cons w vs =>
      have ih := ih (List.cons_ne_nil w vs) (fun u hu => hvs u (List.mem_cons_of_mem v hu)) true
      have hsep : Header.head_value_sep = [59, 32] := rfl
      have hjoin : join_strings (v :: w :: vs) Header.head_value_sep =
          v ++ 59 :: 32 :: join_strings (w :: vs) Header.head_value_sep := by
        simp [join_strings, hsep]
      have hcut : split_loop head_sep false v
          (59 :: 32 :: join_strings (w :: vs) Header.head_value_sep) =
          v :: split_loop head_sep true [] (join_strings (w :: vs) Header.head_value_sep) := by
        simp [split_loop, head_sep]
      rw [hjoin, split_loop_plain hv, hcut, ih]

theorem join_ne_nil {v : Bytes} {vs : List Bytes} (hv : v ≠ []) (sep : Bytes) :
    join_strings (v :: vs) sep ≠ [] := by
  cases vs <;> simp [join_strings, hv]

/-- Splitting undoes joining. -/
theorem split_join {vs : List Bytes} (hne : vs ≠ []) (hvs : ∀ v ∈ vs, PlainValue v) :
    split_string (join_strings vs Header.head_value_sep) head_sep = vs := by
  obtain ⟨v, ws, rfl⟩ := List.exists_cons_of_ne_nil hne
  unfold split_string
  rw [if_neg (join_ne_nil (hvs v List.mem_cons_self).ne_nil _)]
  exact split_loop_join hne hvs false

theorem not_mem_join {c : UInt8} {vs : List Bytes} {sep : Bytes} (hsep : c ∉ sep)
    (hvs : ∀ v ∈ vs, c ∉ v) : c ∉ join_strings vs sep := by
  induction vs with
  | nil => exact List.not_mem_nil
  | cons v vs ih =>
    have hv := hvs v List.mem_cons_self
    have ih := ih fun w hw => hvs w (List.mem_cons_of_mem v hw)
    cases vs with
    | nil => exact hv
    | cons w vs => simp [join_strings, hv, hsep, ih]

/-! ## Section 2: Header lines -/

namespace Header

/-- An entry of a header map that is one line, which fits the buffer it is
    formatted in. -/
structure CleanEntry (e : Bytes × List Bytes) : Prop where
  name_colon : (58 : UInt8) ∉ e.1
  name_cr : (13 : UInt8) ∉ e.1
  name_nul : (0 : UInt8) ∉ e.1
  values_cr : ∀ v ∈ e.2, (13 : UInt8) ∉ v
  values_nul : ∀ v ∈ e.2, (0 : UInt8) ∉ v
  line_lt : (e.1 ++ ascii ": " ++ join_strings e.2 head_value_sep ++ http_crlf).length <
    http_line_max_length

/-- An entry with a name and plain values. -/
structure PlainEntry (e : Bytes × List Bytes) : Prop where
  name_ne_nil : e.1 ≠ []
  name_colon : (58 : UInt8) ∉ e.1
  name_cr : (13 : UInt8) ∉ e.1
  name_nul : (0 : UInt8) ∉ e.1
  values_ne_nil : e.2 ≠ []
  values : ∀ v ∈ e.2, PlainValue v
  line_lt : (e.1 ++ ascii ": " ++ join_strings e.2 head_value_sep ++ http_crlf).length <
    http_line_max_length

theorem PlainEntry.clean {e : Bytes × List Bytes} (h : PlainEntry e) : CleanEntry e :=
  ⟨h.name_colon, h.name_cr, h.name_nul, fun v hv => (h.values v hv).no_cr,
    fun v hv => (h.values v hv).no_nul, h.line_lt⟩

/-- Every entry of the map is plain. -/
def Canonical (h : Header) : Prop := ∀ e ∈ h.headers.toList, PlainEntry e

/-- A header line without its `\r\n`. -/
def line_text (e : Bytes × List Bytes) : Bytes :=
  e.1 ++ 58 :: 32 :: join_strings e.2 head_value_sep

/-- What the parser finds behind the name. -/
def value_text (e : Bytes × List Bytes) : Bytes :=
  (join_strings e.2 head_value_sep).dropWhile fun c => c = 32 || c = 58

theorem CleanEntry.line {e : Bytes × List Bytes} (h : CleanEntry e) :
    header_line e.1 e.2 = (line_text e ++ http_crlf, (line_text e ++ http_crlf).length) := by
  have hjoin : (0 : UInt8) ∉ join_strings e.2 head_value_sep :=
    not_mem_join (by decide) h.values_nul
  have hsep : ascii ": " = [58, 32] := rfl
  have hlt := h.line_lt
  rw [hsep] at hlt
  have htext : e.1 ++ [58, 32] ++ join_strings e.2 head_value_sep ++ http_crlf =
      line_text e ++ http_crlf := by
    simp [line_text]
  unfold header_line snprintf
  rw [c_str_eq h.name_nul, c_str_eq hjoin, hsep, htext, List.take_of_length_le]
  rw [htext] at hlt
  omega

theorem CleanEntry.text_no_cr {e : Bytes × List Bytes} (h : CleanEntry e) :
    (13 : UInt8) ∉ line_text e := by
  have hjoin : (13 : UInt8) ∉ join_strings e.2 head_value_sep :=
    not_mem_join (by decide) h.values_cr
  simp [line_text, h.name_cr, hjoin]

/-- The scan of a serialized line. -/
theorem CleanEntry.scan_line {e : Bytes × List Bytes} (h : CleanEntry e) (rest : Bytes) :
    Header.scan (line_text e ++ http_crlf ++ rest) =
      if e.1 = [] then ⟨[], 0, .malformed⟩
      else ⟨(e.1, value_text e) :: (Header.scan rest).lines,
        (line_text e ++ http_crlf).length + (Header.scan rest).size,
        (Header.scan rest).ending⟩ := by
  have hroom : (line_text e).length + 2 ≤ http_line_max_length := by
    have hlt := h.line_lt
    have hsep : ascii ": " = [58, 32] := rfl
    simp only [hsep, List.length_append, List.length_cons, List.length_nil, http_crlf] at hlt
    simp only [line_text, List.length_append, List.length_cons]
    omega
  have hlen : (line_text e ++ http_crlf).length = (line_text e).length + 2 := List.length_append
  -- the blank behind the colon is skipped with those of the value
  have hvalue : (32 :: join_strings e.2 head_value_sep).dropWhile (fun c => c = 32 || c = 58) =
      value_text e := List.dropWhile_cons_of_pos (by decide)
  have hscan := scan_colon h.name_colon h.text_no_cr hroom rest
  rw [hvalue] at hscan
  rw [hlen]
  exact hscan

theorem CleanEntry.scan_unnamed {e : Bytes × List Bytes} (h : CleanEntry e) (hname : e.1 = [])
    (rest : Bytes) : Header.scan (line_text e ++ http_crlf ++ rest) = ⟨[], 0, .malformed⟩ := by
  rw [h.scan_line, if_pos hname]

theorem CleanEntry.scan {e : Bytes × List Bytes} (h : CleanEntry e) (hname : e.1 ≠ [])
    (rest : Bytes) :
    Header.scan (line_text e ++ http_crlf ++ rest) =
      ⟨(e.1, value_text e) :: (Header.scan rest).lines,
        (line_text e ++ http_crlf).length + (Header.scan rest).size, (Header.scan rest).ending⟩ := by
  rw [h.scan_line, if_neg hname]

theorem join_start {v : Bytes} {vs : List Bytes} (hv : PlainValue v) {c : UInt8} {rest : Bytes}
    (h : join_strings (v :: vs) head_value_sep = c :: rest) : c ≠ 32 ∧ c ≠ 58 := by
  obtain ⟨d, w, rfl⟩ := List.exists_cons_of_ne_nil hv.ne_nil
  have hd := hv.start d w rfl
  cases vs with
  | nil =>
    simp only [join_strings, List.cons.injEq] at h
    rwa [← h.1]
  | cons u vs =>
    simp only [join_strings, List.cons_append, List.cons.injEq] at h
    rwa [← h.1]

/-- Plain values are found as they were written. -/
theorem PlainEntry.value_text_eq {e : Bytes × List Bytes} (h : PlainEntry e) :
    value_text e = join_strings e.2 head_value_sep := by
  obtain ⟨v, vs, hvs⟩ := List.exists_cons_of_ne_nil h.values_ne_nil
  have hv : PlainValue v := h.values v (by rw [hvs]; exact List.mem_cons_self)
  unfold value_text
  rw [hvs]
  rcases hjoin : join_strings (v :: vs) head_value_sep with _ | ⟨c, w⟩
  · rfl
  · obtain ⟨h32, h58⟩ := join_start hv hjoin
    exact List.dropWhile_cons_of_neg (by simp [h32, h58])

/-- The lines of some entries. -/
def text (entries : List (Bytes × List Bytes)) : Bytes :=
  (entries.map fun e => line_text e ++ http_crlf).flatten

/-- The bytes behind the header are left alone. -/
theorem scan_clean {entries : List (Bytes × List Bytes)} (h : ∀ e ∈ entries, CleanEntry e)
    (hname : ∀ e ∈ entries, e.1 ≠ []) (rest : Bytes) :
    scan (text entries ++ http_crlf ++ rest) =
      ⟨entries.map fun e => (e.1, value_text e), (text entries ++ http_crlf).length, .blank⟩ := by
  induction entries with
  | nil =>
    have hfind : find_http_line_end (http_crlf ++ rest) = some 2 :=
      find_http_line_end_iff.mpr ⟨[], rest, rfl, List.not_mem_nil, rfl, by decide⟩
    show scan (http_crlf ++ rest) = _
    rw [scan_of_found hfind]
    rfl
  | cons e entries ih =>
    have he := h e List.mem_cons_self
    have ih := ih (fun e' he' => h e' (List.mem_cons_of_mem e he'))
      fun e' he' => hname e' (List.mem_cons_of_mem e he')
    have htext : text (e :: entries) ++ http_crlf ++ rest =
        line_text e ++ http_crlf ++ (text entries ++ http_crlf ++ rest) := by
      simp [text]
    rw [htext, he.scan (hname e List.mem_cons_self), ih]
    simp [text, Nat.add_assoc]

theorem scan_text_append {entries : List (Bytes × List Bytes)} (h : ∀ e ∈ entries, PlainEntry e)
    (rest : Bytes) :
    scan (text entries ++ http_crlf ++ rest) =
      ⟨entries.map fun e => (e.1, join_strings e.2 head_value_sep),
        (text entries ++ http_crlf).length, .blank⟩ := by
  rw [scan_clean (fun e he => (h e he).clean) fun e he => (h e he).name_ne_nil]
  congr 1
  apply List.map_congr_left
  intro e he
  rw [(h e he).value_text_eq]

theorem scan_text {entries : List (Bytes × List Bytes)} (h : ∀ e ∈ entries, PlainEntry e) :
    scan (text entries ++ http_crlf) =
      ⟨entries.map fun e => (e.1, join_strings e.2 head_value_sep),
        (text entries ++ http_crlf).length, .blank⟩ := by
  have happend := scan_text_append h []
  rwa [List.append_nil] at happend

/-- The text of a map without empty lists. -/
theorem serialize_clean {h : Header} (hc : ∀ e ∈ h.headers.toList, CleanEntry e)
    (hne : ∀ e ∈ h.headers.toList, e.2 ≠ []) :
    h.serialize_header =
      (text h.headers.toList ++ http_crlf, (text h.headers.toList ++ http_crlf).length) := by
  have hfilter : h.headers.toList.filter (fun e => e.2 ≠ []) = h.headers.toList := by
    apply List.filter_eq_self.mpr
    intro e he
    simpa using hne e he
  have hlines : h.headers.toList.map (fun e => header_line e.1 e.2) =
      h.headers.toList.map fun e => (line_text e ++ http_crlf, (line_text e ++ http_crlf).length) := by
    apply List.map_congr_left
    intro e he
    exact (hc e he).line
  unfold serialize_header
  simp only [hfilter, hlines, List.map_map]
  simp [text, List.length_flatten, Function.comp_def, http_crlf, http_crlf_length]

theorem serialize_text {h : Header} (hc : h.Canonical) :
    h.serialize_header =
      (text h.headers.toList ++ http_crlf, (text h.headers.toList ++ http_crlf).length) :=
  serialize_clean (fun e he => (hc e he).clean) fun e he => (hc e he).values_ne_nil

theorem getElem?_set_head (h : Header) (name value k : Bytes) :
    (h.set_head name value).headers[k]? =
      if name = k then some (h.headers.getD name [] ++ split_string value head_sep)
      else h.headers[k]? := by
  unfold set_head
  rw [Std.ExtTreeMap.getElem?_insert]
  by_cases hk : name = k
  · subst hk
    simp
  · have hcmp : compare name k ≠ .eq := fun he => hk (Std.LawfulEqOrd.eq_of_compare he)
    rw [if_neg hcmp, if_neg hk]

/-- What storing the lines of entries with different names leaves in the map. -/
theorem store_entries {h : Header} {entries : List (Bytes × List Bytes)} {value : Bytes}
    (hplain : ∀ e ∈ entries, PlainEntry e)
    (hdistinct : entries.Pairwise fun a b => a.1 ≠ b.1)
    (hnew : ∀ e ∈ entries, h.headers[e.1]? = none) (k : Bytes) (vs : List Bytes) :
    (h.store_lines value (entries.map fun e => (e.1, join_strings e.2 head_value_sep))).headers[k]? =
      some vs ↔ (k, vs) ∈ entries ∨ h.headers[k]? = some vs := by
  induction entries generalizing h value with
  | nil => simp [store_lines]
  | cons e entries ih =>
    obtain ⟨hne, hdistinct⟩ := List.pairwise_cons.mp hdistinct
    have he := hplain e List.mem_cons_self
    have hnone := hnew e List.mem_cons_self
    have hjoin : join_strings e.2 head_value_sep ≠ [] := by
      obtain ⟨v, ws, hvs⟩ := List.exists_cons_of_ne_nil he.values_ne_nil
      rw [hvs]
      exact join_ne_nil (he.values v (by rw [hvs]; exact List.mem_cons_self)).ne_nil _
    have hget : ∀ k, (h.set_head e.1 (join_strings e.2 head_value_sep)).headers[k]? =
        if e.1 = k then some e.2 else h.headers[k]? := by
      intro k
      rw [getElem?_set_head, split_join he.values_ne_nil he.values,
        Std.ExtTreeMap.getD_eq_getD_getElem?, hnone]
      rfl
    have hnew' : ∀ e' ∈ entries,
        (h.set_head e.1 (join_strings e.2 head_value_sep)).headers[e'.1]? = none := by
      intro e' he'
      rw [hget, if_neg (hne e' he')]
      exact hnew e' (List.mem_cons_of_mem e he')
    simp only [List.map_cons, store_lines, if_neg hjoin]
    rw [ih (fun e' he' => hplain e' (List.mem_cons_of_mem e he')) hdistinct hnew', hget]
    by_cases hk : e.1 = k
    · subst hk
      have hpair : (e.1, vs) = e ↔ e.2 = vs := by
        constructor
        · intro heq
          rw [← heq]
        · intro heq
          rw [← heq]
      simp [hnone, hpair, or_comm]
    · have hpair : (k, vs) ≠ e := fun heq => hk (by rw [← heq])
      simp [hk, hpair]

theorem entries_distinct (m : HeadMap) : m.toList.Pairwise fun a b => a.1 ≠ b.1 := by
  refine List.Pairwise.imp ?_ m.ordered_keys_toList
  rintro a b hlt heq
  rw [heq, Std.ReflOrd.compare_self] at hlt
  cases hlt

/-- **Header map round trip.** Storing its own lines in a new header gives
    the map back. -/
theorem store_canonical {h : Header} (hc : h.Canonical) (value : Bytes) :
    (construct.store_lines value
      (h.headers.toList.map fun e => (e.1, join_strings e.2 head_value_sep))).headers =
      h.headers := by
  apply Std.ExtTreeMap.ext_getElem?
  intro k
  apply Option.ext
  intro vs
  rw [store_entries hc (entries_distinct h.headers) (fun _ _ => rfl) k vs,
    Std.ExtTreeMap.mem_toList_iff_getElem?_eq_some]
  simp [construct]

/-- A name that no line has is as it was. -/
theorem store_lines_other {h : Header} {value k : Bytes} {lines : List (Bytes × Bytes)}
    (hk : k ∉ lines.map Prod.fst) : (h.store_lines value lines).headers[k]? = h.headers[k]? := by
  induction lines generalizing h value with
  | nil => rfl
  | cons line lines ih =>
    rw [List.map_cons, List.mem_cons, not_or] at hk
    simp only [store_lines]
    rw [ih hk.2, getElem?_set_head, if_neg fun heq => hk.1 heq.symm]

end Header

/-! ## Section 3: Request lines -/

namespace Request

open HttpMethod HttpVersion

/-- A path that the start line parser takes whole. -/
structure PlainPath (path : Bytes) : Prop where
  ne_nil : path ≠ []
  chars : ∀ c ∈ path, c ≠ 32 ∧ c ≠ 63 ∧ c ≠ 13 ∧ c ≠ 10 ∧ c ≠ 0

/-- A request with a known method and version, a plain path, a canonical
    header that announces no body, and no body. Nothing is asked of its
    parameters. -/
structure Plain (r : Request) : Prop where
  method : r.fields.method ≠ METHOD_UNKNOWN
  version : r.version ≠ VERSION_UNKNOWN
  path : PlainPath r.fields.uri.path
  header : r.header.Canonical
  announced : Packet.announced_body r.header = none
  body : r.body = none

/-- The request line without its `\r\n`, before it is cut to the buffer. -/
def line_text (r : Request) : Bytes :=
  r.fields.method.string ++ 32 :: (r.fields.uri.path ++ 32 :: r.version.string)

theorem method_chars (m : HttpMethod) : ∀ c ∈ m.string, c ≠ 13 ∧ c ≠ 0 := by
  cases m <;> decide +kernel

theorem version_chars (v : HttpVersion) : ∀ c ∈ v.string, c ≠ 13 ∧ c ≠ 0 := by
  cases v <;> decide +kernel

theorem not_mem_of_ne {b : UInt8} {s : Bytes} (h : ∀ c ∈ s, c ≠ b) : b ∉ s :=
  fun hb => h b hb rfl

theorem Plain.line {r : Request} (h : Plain r) :
    serialize_request_line r =
      ((line_text r ++ http_crlf).take 254, (line_text r ++ http_crlf).length) := by
  have hm : c_str r.fields.method.string = r.fields.method.string :=
    c_str_eq (not_mem_of_ne fun c hc => (method_chars _ c hc).2)
  have hp : c_str r.fields.uri.path = r.fields.uri.path :=
    c_str_eq (not_mem_of_ne fun c hc => (h.path.chars c hc).2.2.2.2)
  have hv : c_str r.version.string = r.version.string :=
    c_str_eq (not_mem_of_ne fun c hc => (version_chars _ c hc).2)
  have hsp : ascii " " = [32] := rfl
  unfold serialize_request_line snprintf
  rw [hm, hp, hv, hsp]
  simp [line_text]

theorem Plain.text_no_cr {r : Request} (h : Plain r) : (13 : UInt8) ∉ line_text r := by
  have hm : (13 : UInt8) ∉ r.fields.method.string :=
    not_mem_of_ne fun c hc => (method_chars _ c hc).1
  have hp : (13 : UInt8) ∉ r.fields.uri.path :=
    not_mem_of_ne fun c hc => (h.path.chars c hc).2.2.1
  have hv : (13 : UInt8) ∉ r.version.string :=
    not_mem_of_ne fun c hc => (version_chars _ c hc).1
  simp [line_text, hm, hp, hv]

theorem parse_method_string {m : HttpMethod} (hm : m ≠ METHOD_UNKNOWN) {c : UInt8} {rest : Bytes} :
    parse_method (m.string ++ 32 :: c :: rest) = some (m, c :: rest) := by
  cases m with
  | METHOD_UNKNOWN => exact absurd rfl hm
  | METHOD_GET => rfl
  | METHOD_POST => rfl
  | METHOD_HEAD => rfl
  | METHOD_PUT =>
    -- the length test of `POST ` is left open
    have hpost : (ascii "POST ").isPrefixOf (METHOD_PUT.string ++ 32 :: c :: rest) = false := rfl
    have hhead : (ascii "HEAD ").isPrefixOf (METHOD_PUT.string ++ 32 :: c :: rest) = false := rfl
    have hget : (ascii "GET ").isPrefixOf (METHOD_PUT.string ++ 32 :: c :: rest) = false := rfl
    have hput : starts_with (METHOD_PUT.string ++ 32 :: c :: rest) (ascii "PUT ") = true := rfl
    have hdrop : (METHOD_PUT.string ++ 32 :: c :: rest).drop 4 = c :: rest := rfl
    unfold parse_method
    rw [hput, hdrop]
    simp [starts_with, hget, hpost, hhead]
  | METHOD_DELETE => rfl

theorem parse_version_string {v : HttpVersion} (hv : v ≠ VERSION_UNKNOWN) (rest : Bytes) :
    parse_http_version (v.string ++ rest) = some v := by
  cases v with
  | VERSION_UNKNOWN => exact absurd rfl hv
  | VERSION_10 => rfl
  | VERSION_11 => rfl
  | VERSION_20 => rfl

/-- A whole request line comes back, without its parameters. -/
theorem parse_line_text {r : Request} (h : Plain r) (fields : RequestFields)
    (version : HttpVersion) :
    parse_line fields version (line_text r ++ http_crlf) =
      (true, ⟨fields.uri.set_path r.fields.uri.path, r.fields.method⟩, r.version) := by
  obtain ⟨c, path, hpath⟩ := List.exists_cons_of_ne_nil h.path.ne_nil
  have hline : line_text r ++ http_crlf = r.fields.method.string ++
      32 :: c :: (path ++ 32 :: (r.version.string ++ http_crlf)) := by
    simp [line_text, hpath]
  have hall : ∀ d ∈ c :: path, (decide (d ≠ 32) && decide (d ≠ 63)) = true := fun d hd => by
    rw [← hpath] at hd
    have := h.path.chars d hd
    simp [this.1, this.2.1]
  have htake : (c :: (path ++ 32 :: (r.version.string ++ http_crlf))).takeWhile
      (fun d => decide (d ≠ 32) && decide (d ≠ 63)) = c :: path := by
    rw [← List.cons_append, List.takeWhile_append_of_pos hall]
    simp
  have hdrop : (c :: (path ++ 32 :: (r.version.string ++ http_crlf))).dropWhile
      (fun d => decide (d ≠ 32) && decide (d ≠ 63)) = 32 :: (r.version.string ++ http_crlf) := by
    rw [← List.cons_append, List.dropWhile_append_of_pos hall]
    simp
  unfold parse_line
  rw [hline, parse_method_string h.method]
  simp only [htake, hdrop]
  rw [if_neg (by simp)]
  have hparams : ∀ u : Uri, parse_params u (32 :: (r.version.string ++ http_crlf)) =
      some (u, 32 :: (r.version.string ++ http_crlf)) := fun u => rfl
  simp only [hparams, List.drop_succ_cons, List.drop_zero, parse_version_string h.version, hpath]

/-! ## Section 4: Requests -/

/-- Parsing what `serialize` wrote gives the request back and leaves no
    byte. -/
def RoundTrips (r : Request) : Prop :=
  ∃ r', parse construct (serialize r).1 = .took (serialize r).1.length r' ∧
    r'.parse_status = PARSE_FINISHED ∧ r'.fields.method = r.fields.method ∧
    r'.version = r.version ∧ r'.fields.uri.path = r.fields.uri.path ∧
    r'.fields.uri.params = r.fields.uri.params ∧ r'.header.headers = r.header.headers

theorem Plain.bytes {r : Request} (h : Plain r) :
    (serialize r).1 = (line_text r ++ http_crlf).take 254 ++
      (Header.text r.header.headers.toList ++ http_crlf) := by
  unfold serialize
  rw [h.line, Header.serialize_text h.header, h.body]
  simp

theorem announced_body_congr {h h' : Header} (heq : h.headers = h'.headers) :
    Packet.announced_body h = Packet.announced_body h' := by
  have hvalues : ∀ name, h.get_head_values name = h'.get_head_values name := fun name => by
    unfold Header.get_head_values
    rw [heq]
  unfold Packet.announced_body Header.get_head_int Header.get_head
  simp only [hvalues]

theorem header_done_uri (fields : RequestFields) (h : Header) :
    (header_done fields h).method = fields.method ∧
      (header_done fields h).uri.path = fields.uri.path ∧
      (header_done fields h).uri.params = fields.uri.params := by
  unfold header_done
  split <;> exact ⟨rfl, rfl, rfl⟩

/-- A request line that fits its buffer: all but the parameters come back. -/
theorem Plain.round_trips_iff_params {r : Request} (h : Plain r)
    (hfit : (line_text r).length + 2 ≤ 254) : RoundTrips r ↔ r.fields.uri.params = ∅ := by
  have hscan := Header.scan_text h.header
  have hbytes := h.bytes
  rw [List.take_of_length_le (by simpa [http_crlf] using hfit)] at hbytes
  obtain ⟨tail, htail⟩ : ∃ tail, tail = Header.text r.header.headers.toList ++ http_crlf := ⟨_, rfl⟩
  rw [← htail] at hscan hbytes
  have hfind : find_http_line_end (line_text r ++ http_crlf ++ tail) =
      some ((line_text r).length + 2) :=
    find_http_line_end_iff.mpr ⟨line_text r, tail, by simp [http_crlf], h.text_no_cr, rfl, by
      unfold http_line_max_length
      omega⟩
  have htake : (line_text r ++ http_crlf ++ tail).take ((line_text r).length + 2) =
      line_text r ++ http_crlf := List.take_left' (by simp [http_crlf])
  have hdrop : (line_text r ++ http_crlf ++ tail).drop ((line_text r).length + 2) = tail :=
    List.drop_left' (by simp [http_crlf])
  -- the request when the header is complete
  obtain ⟨uri, huri⟩ : ∃ uri, uri = construct.fields.uri.set_path r.fields.uri.path := ⟨_, rfl⟩
  obtain ⟨p, hp⟩ : ∃ p : Request, p = Packet.finish_header kind ⟨⟨uri, r.fields.method⟩, r.version,
      ⟨true, r.header.headers⟩, none, PARSE_HEADER⟩ := ⟨_, rfl⟩
  have hnone : Packet.announced_body ⟨true, r.header.headers⟩ = none := by
    rw [← h.announced]
    exact announced_body_congr rfl
  have hfin : p.parse_status = PARSE_FINISHED := by simp [hp, Packet.finish_header, hnone]
  have hparse : parse construct (serialize r).1 = .took (serialize r).1.length p := by
    have hs : construct.parse_status = PARSE_NONE ∨ construct.parse_status = PARSE_LINE :=
      Or.inl rfl
    unfold parse Packet.parse
    rw [hbytes, Packet.parse_from_line hs, hfind]
    have hkind : kind.parse_line = parse_line := rfl
    simp only [htake, hdrop, hkind, parse_line_text h, if_true]
    rw [Packet.parse_head_eq rfl rfl, hscan]
    have hheader : construct.header = Header.construct := rfl
    have hbody : construct.body = none := rfl
    simp only [hheader, hbody, Header.store_canonical h.header]
    rw [← huri, ← hp, Packet.parse_body_finished (by simp [hfin])]
    simp only [Reply.after, List.length_append, Nat.add_zero]
    rfl
  have hsame : p.fields.method = r.fields.method ∧ p.version = r.version ∧
      p.fields.uri.path = r.fields.uri.path ∧ p.fields.uri.params = ∅ ∧
      p.header.headers = r.header.headers := by
    obtain ⟨hm, hpath, hparams⟩ := header_done_uri ⟨uri, r.fields.method⟩ ⟨true, r.header.headers⟩
    subst hp huri
    exact ⟨hm, rfl, hpath, hparams, rfl⟩
  obtain ⟨hm, hv, hpath, hparams, hheaders⟩ := hsame
  constructor
  · rintro ⟨r', hr', -, -, -, -, hparams', -⟩
    rw [hparse] at hr'
    cases hr'
    rw [← hparams', hparams]
  · intro hempty
    exact ⟨p, hparse, hfin, hm, hv, hpath, by rw [hparams, hempty], hheaders⟩

/-- What a finished parse says of the bytes: there is a start line, and the
    header lines behind it make up the header map. -/
theorem finished_lines {b : Bytes} {n : Nat} {r : Request}
    (hp : parse construct b = .took n r) (hfin : r.parse_status = PARSE_FINISHED) :
    ∃ k, line_end_loop b = some k ∧ (Header.scan (b.drop k)).ending = .blank ∧
      r.header.headers =
        (Header.construct.store_lines [] (Header.scan (b.drop k)).lines).headers := by
  have hs : construct.parse_status = PARSE_NONE ∨ construct.parse_status = PARSE_LINE :=
    Or.inl rfl
  unfold parse Packet.parse at hp
  rw [Packet.parse_from_line hs] at hp
  cases hfind : find_http_line_end b with
  | none =>
    rw [hfind] at hp
    cases hp
    cases hfin
  | some k =>
    rw [hfind] at hp
    simp only at hp
    split at hp
    · refine ⟨k, line_end_loop_of_find hfind, ?_⟩
      rw [Packet.parse_head_eq rfl rfl] at hp
      cases hend : (Header.scan (b.drop k)).ending with
      | more =>
        rw [hend] at hp
        cases hp
        cases hfin
      | malformed =>
        rw [hend] at hp
        cases hp
      | blank =>
        rw [hend] at hp
        simp only at hp
        have hstate := congrArg Reply.state hp
        rw [Reply.state_after, Reply.state_after] at hstate
        refine ⟨rfl, ?_⟩
        rw [(Packet.parse_body_kept hstate).2.2]
        rfl
    · cases hp

/-- The lines behind a start line that took the first header's line end do
    not have the first header's name. -/
theorem first_name_lost {r : Request} (h : Plain r) {e : Bytes × List Bytes}
    {es : List (Bytes × List Bytes)} (hlist : r.header.headers.toList = e :: es) :
    e.1 ∉ (Header.scan (Header.text es ++ http_crlf)).lines.map Prod.fst := by
  have hdistinct := Header.entries_distinct r.header.headers
  rw [hlist, List.pairwise_cons] at hdistinct
  have hplain : ∀ e' ∈ es, Header.PlainEntry e' := fun e' he' =>
    h.header e' (by rw [hlist]; exact List.mem_cons_of_mem e he')
  rw [Header.scan_text hplain]
  intro hmem
  simp only [List.map_map, List.mem_map, Function.comp_apply] at hmem
  obtain ⟨e', he', heq⟩ := hmem
  exact hdistinct.1 e' he' heq.symm

/-- A request line that is cut before its `\r`: the next line end is that of
    the first header, or of the header section. -/
theorem Plain.cut_in_text {r : Request} (h : Plain r) {t : Bytes} (ht : (13 : UInt8) ∉ t) {k : Nat}
    (hline : line_end_loop (t ++ (Header.text r.header.headers.toList ++ http_crlf)) = some k)
    (hblank : (Header.scan ((t ++ (Header.text r.header.headers.toList ++ http_crlf)).drop k)).ending =
      .blank) :
    ∃ e ∈ r.header.headers.toList,
      e.1 ∉ (Header.scan ((t ++ (Header.text r.header.headers.toList ++ http_crlf)).drop k)).lines.map
        Prod.fst := by
  cases hlist : r.header.headers.toList with
  | nil =>
    rw [hlist] at hline hblank
    have hbytes : t ++ (Header.text [] ++ http_crlf) = t ++ 13 :: 10 :: [] := by
      simp [Header.text, http_crlf]
    rw [hbytes, line_end_loop_append ht] at hline
    rw [hbytes] at hblank
    cases hline
    rw [List.drop_of_length_le (by simp)] at hblank
    cases hblank
  | cons e es =>
    rw [hlist] at hline
    have he : Header.PlainEntry e := h.header e (by rw [hlist]; exact List.mem_cons_self)
    have hno : (13 : UInt8) ∉ t ++ Header.line_text e := by
      simp [ht, he.clean.text_no_cr]
    have hbytes : t ++ (Header.text (e :: es) ++ http_crlf) =
        (t ++ Header.line_text e) ++ 13 :: 10 :: (Header.text es ++ http_crlf) := by
      simp [Header.text, http_crlf]
    rw [hbytes, line_end_loop_append hno] at hline
    cases hline
    refine ⟨e, List.mem_cons_self, ?_⟩
    have hdrop : ((t ++ Header.line_text e) ++ 13 :: 10 :: (Header.text es ++ http_crlf)).drop
        ((t ++ Header.line_text e).length + 2) = Header.text es ++ http_crlf := by
      rw [← List.drop_drop, List.drop_left]
      rfl
    rw [hbytes, hdrop]
    exact first_name_lost h hlist

/-- A header line whose name lost its first byte. -/
theorem scan_shortened {e : Bytes × List Bytes} (he : Header.PlainEntry e) {c : UInt8} {name : Bytes}
    (hname : e.1 = c :: name) {rest : Bytes}
    (hblank : (Header.scan (Header.line_text (name, e.2) ++ http_crlf ++ rest)).ending = .blank) :
    (Header.scan (Header.line_text (name, e.2) ++ http_crlf ++ rest)).lines.map Prod.fst =
      name :: (Header.scan rest).lines.map Prod.fst := by
  have hclean : Header.CleanEntry (name, e.2) := by
    have hmem : ∀ d ∈ name, d ∈ e.1 := fun d hd => by
      rw [hname]
      exact List.mem_cons_of_mem c hd
    refine ⟨fun h => he.name_colon (hmem _ h), fun h => he.name_cr (hmem _ h),
      fun h => he.name_nul (hmem _ h), he.clean.values_cr, he.clean.values_nul, ?_⟩
    have hlt := he.line_lt
    rw [hname] at hlt
    simp only [List.cons_append, List.length_cons] at hlt
    show (name ++ ascii ": " ++ join_strings e.2 Header.head_value_sep ++ http_crlf).length < _
    omega
  by_cases hnil : name = []
  · -- a line without a name is refused
    rw [hclean.scan_unnamed hnil rest] at hblank
    cases hblank
  · rw [hclean.scan hnil rest]
    rfl

/-- A request line that is cut between its `\r` and its `\n`: the first
    header's name loses a byte, or no line end is found. -/
theorem Plain.cut_at_end {r : Request} (h : Plain r) {t : Bytes} (ht : (13 : UInt8) ∉ t) {k : Nat}
    (hline : line_end_loop (t ++ 13 :: (Header.text r.header.headers.toList ++ http_crlf)) = some k)
    (hblank : (Header.scan ((t ++ 13 ::
      (Header.text r.header.headers.toList ++ http_crlf)).drop k)).ending = .blank) :
    ∃ e ∈ r.header.headers.toList,
      e.1 ∉ (Header.scan ((t ++ 13 ::
        (Header.text r.header.headers.toList ++ http_crlf)).drop k)).lines.map Prod.fst := by
  cases hlist : r.header.headers.toList with
  | nil =>
    rw [hlist] at hline
    have hnone : line_end_loop (t ++ 13 :: 13 :: [10]) = none := line_end_loop_none ht (by decide)
    have hbytes : Header.text [] ++ http_crlf = 13 :: [10] := by simp [Header.text, http_crlf]
    rw [hbytes, hnone] at hline
    cases hline
  | cons e es =>
    rw [hlist] at hline hblank
    have he : Header.PlainEntry e := h.header e (by rw [hlist]; exact List.mem_cons_self)
    obtain ⟨c, name, hname⟩ := List.exists_cons_of_ne_nil he.name_ne_nil
    have hbytes : Header.text (e :: es) ++ http_crlf =
        c :: (Header.line_text (name, e.2) ++ http_crlf ++ (Header.text es ++ http_crlf)) := by
      simp [Header.text, Header.line_text, hname]
    rw [hbytes] at hline hblank ⊢
    by_cases hc : c = 10
    · subst hc
      rw [line_end_loop_append ht] at hline
      cases hline
      have hdrop : ∀ rest : Bytes, (t ++ 13 :: 10 :: rest).drop (t.length + 2) = rest := by
        intro rest
        rw [← List.drop_drop, List.drop_left]
        rfl
      rw [hdrop] at hblank ⊢
      refine ⟨e, List.mem_cons_self, ?_⟩
      rw [scan_shortened he hname hblank, List.mem_cons, not_or]
      refine ⟨?_, first_name_lost h hlist⟩
      -- a name is longer than its tail
      intro heq
      have hlen := congrArg List.length heq
      rw [hname, List.length_cons] at hlen
      omega
    · rw [line_end_loop_none ht hc] at hline
      cases hline

/-- A cut request line runs into the first header. -/
theorem Plain.not_round_trips {r : Request} (h : Plain r)
    (hlong : 254 < (line_text r).length + 2) : ¬ RoundTrips r := by
  rintro ⟨r', hparse, hfin, -, -, -, -, hheaders⟩
  obtain ⟨k, hline, hblank, hstored⟩ := finished_lines hparse hfin
  rw [h.bytes] at hline hblank hstored
  -- a name in the map is the name of a line behind the start line
  have hname : ∀ e ∈ r.header.headers.toList,
      e.1 ∈ (Header.scan (((line_text r ++ http_crlf).take 254 ++
        (Header.text r.header.headers.toList ++ http_crlf)).drop k)).lines.map Prod.fst := by
    intro e he
    by_contra hnot
    have hnone := @Header.store_lines_other Header.construct [] _ _ hnot
    rw [← hstored, hheaders, Std.ExtTreeMap.mem_toList_iff_getElem?_eq_some.mp he] at hnone
    cases hnone
  have hcr := h.text_no_cr
  by_cases hcut : 254 ≤ (line_text r).length
  · -- cut before the line end
    have htake : (line_text r ++ http_crlf).take 254 = (line_text r).take 254 :=
      List.take_append_of_le_length hcut
    have hcr' : (13 : UInt8) ∉ (line_text r).take 254 := fun hm => hcr (List.mem_of_mem_take hm)
    rw [htake] at hline hblank hname
    obtain ⟨e, he, hnot⟩ := h.cut_in_text hcr' hline hblank
    exact hnot (hname e he)
  · -- cut between the `\r` and the `\n`
    have htake : (line_text r ++ http_crlf).take 254 = line_text r ++ [13] := by
      rw [List.take_append, List.take_of_length_le (by omega),
        show 254 - (line_text r).length = 1 by omega]
      rfl
    rw [htake, List.append_assoc] at hline hblank hname
    obtain ⟨e, he, hnot⟩ := h.cut_at_end hcr hline hblank
    exact hnot (hname e he)

/-- **Request round trip.** `__serialize_request_line` leaves the parameters
    out and formats the line in a buffer of 256 bytes. -/
theorem round_trips_iff_fits {r : Request} (h : Plain r) :
    RoundTrips r ↔ r.fields.uri.params = ∅ ∧ (line_text r).length + 2 ≤ 254 := by
  by_cases hfit : (line_text r).length + 2 ≤ 254
  · rw [h.round_trips_iff_params hfit]
    exact (and_iff_left hfit).symm
  · have hnot := h.not_round_trips (Nat.lt_of_not_le hfit)
    exact iff_of_false hnot fun hand => hfit hand.2

/-- `GET path HTTP/1.1` with a `Host` header. -/
def host_request (path : Bytes) (params : ParamMap) : Request :=
  ⟨⟨⟨[], [], path, params⟩, METHOD_GET⟩, VERSION_11,
    ⟨false, (∅ : HeadMap).insert (ascii "Host") [ascii "a"]⟩, none, PARSE_NONE⟩

theorem plain_value_host : PlainValue (ascii "a") := by
  refine ⟨by decide +kernel, by decide +kernel, by decide +kernel, by decide +kernel, ?_⟩
  intro c rest h
  have hc : c = 97 := (List.cons.inj h).1.symm
  rw [hc]
  decide

theorem host_request_plain (path : Bytes) (params : ParamMap) (hpath : PlainPath path) :
    Plain (host_request path params) := by
  have hlist : ((∅ : HeadMap).insert (ascii "Host") [ascii "a"]).toList =
      [(ascii "Host", [ascii "a"])] := by
    decide
  have hnone : Packet.announced_body ⟨false, (∅ : HeadMap).insert (ascii "Host") [ascii "a"]⟩ =
      none := by
    decide
  refine ⟨nofun, nofun, hpath, ?_, hnone, rfl⟩
  intro e he
  replace he : e ∈ ((∅ : HeadMap).insert (ascii "Host") [ascii "a"]).toList := he
  rw [hlist, List.mem_singleton] at he
  subst he
  refine ⟨by decide, by decide, by decide, by decide,
    List.cons_ne_nil _ _, ?_, by decide⟩
  intro v hv
  rw [List.mem_singleton] at hv
  exact hv ▸ plain_value_host

theorem round_trips_host : RoundTrips (host_request (ascii "/index") ∅) :=
  (round_trips_iff_fits (host_request_plain _ ∅ ⟨by decide +kernel, by decide +kernel⟩)).mpr
    ⟨rfl, by decide⟩

/-- The parameter `k=v` is lost, and so is the end of a line with a path of
    250 bytes. -/
theorem not_round_trips_param :
    (Plain (host_request (ascii "/") ((∅ : ParamMap).insert (ascii "k") (ascii "v"))) ∧
      ¬ RoundTrips (host_request (ascii "/") ((∅ : ParamMap).insert (ascii "k") (ascii "v")))) ∧
    (Plain (host_request (List.replicate 250 47) ∅) ∧
      ¬ RoundTrips (host_request (List.replicate 250 47) ∅)) := by
  have hone := host_request_plain (ascii "/") ((∅ : ParamMap).insert (ascii "k") (ascii "v"))
    ⟨by decide +kernel, by decide +kernel⟩
  have hpath : PlainPath (List.replicate 250 47) := by
    refine ⟨List.cons_ne_nil _ _, ?_⟩
    intro c hc
    rw [List.eq_of_mem_replicate hc]
    decide
  have htwo := host_request_plain (List.replicate 250 47) ∅ hpath
  refine ⟨⟨hone, ?_⟩, htwo, htwo.not_round_trips (by decide +kernel)⟩
  rw [hone.round_trips_iff_params (by decide)]
  decide

end Request

end Pump
