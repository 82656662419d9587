import Pump.Http.ContentLength

/-! # The letter case of header names

    The names of header fields are the same in any letter case. `parse` looks
    up two spellings of each of the two names that announce a body, in a map
    that tells spellings apart. Here is when the spelling makes no difference
    to where a message ends. -/

namespace Pump

open ParseStatus

/-! ## Section 1: Letter case -/

/-- The ASCII letters in upper case. -/
def toupper (c : UInt8) : UInt8 := if 97 ≤ c ∧ c ≤ 122 then c - 32 else c

/-- The same bytes up to the case of ASCII letters. -/
def SameLetters (s t : Bytes) : Prop := s.map tolower = t.map tolower

theorem tolower_eq_cr : ∀ c, tolower c = 13 ↔ c = 13 := by
  apply forall_byte
  decide

theorem tolower_eq_lf : ∀ c, tolower c = 10 ↔ c = 10 := by
  apply forall_byte
  decide

theorem tolower_eq_colon : ∀ c, tolower c = 58 ↔ c = 58 := by
  apply forall_byte
  decide

theorem tolower_toupper : ∀ c, tolower (toupper c) = tolower c := by
  apply forall_byte
  decide

theorem toupper_toupper : ∀ c, toupper (toupper c) = toupper c := by
  apply forall_byte
  decide

namespace SameLetters

theorem refl (s : Bytes) : SameLetters s s := rfl

theorem length_eq {s t : Bytes} (h : SameLetters s t) : s.length = t.length := by
  have hlen := congrArg List.length h
  rwa [List.length_map, List.length_map] at hlen

theorem append {s t s' t' : Bytes} (h : SameLetters s t) (h' : SameLetters s' t') :
    SameLetters (s ++ s') (t ++ t') := by
  unfold SameLetters at h h' ⊢
  rw [List.map_append, List.map_append, h, h']

theorem eq_nil_iff {s t : Bytes} (h : SameLetters s t) : s = [] ↔ t = [] := by
  rw [← List.length_eq_zero_iff, h.length_eq, List.length_eq_zero_iff]

/-- A byte that is not a letter is in both or in none. -/
theorem mem_iff {c : UInt8} (hc : ∀ d, tolower d = c ↔ d = c) {s t : Bytes}
    (h : SameLetters s t) : c ∈ s ↔ c ∈ t := by
  have hmem : ∀ u : Bytes, c ∈ u ↔ c ∈ u.map tolower := by
    intro u
    rw [List.mem_map]
    constructor
    · intro hu
      exact ⟨c, hu, (hc c).mpr rfl⟩
    · rintro ⟨d, hd, heq⟩
      rwa [← (hc d).mp heq]
  rw [hmem s, hmem t, h]

theorem line_end_loop_eq {s t : Bytes} (h : SameLetters s t) :
    line_end_loop s = line_end_loop t := by
  induction s generalizing t with
  | nil =>
    obtain rfl := h.eq_nil_iff.mp rfl
    rfl
  | cons c s ih =>
    rcases t with _ | ⟨c', t⟩
    · cases h
    · unfold SameLetters at h
      rw [List.map_cons, List.map_cons, List.cons.injEq] at h
      obtain ⟨hc, htail⟩ := h
      have hloop := ih htail
      have h13 : c = 13 ↔ c' = 13 := by rw [← tolower_eq_cr c, hc, tolower_eq_cr]
      rcases s with _ | ⟨d, s⟩
      · obtain rfl : t = [] := (SameLetters.eq_nil_iff htail).mp rfl
        rfl
      · rcases t with _ | ⟨d', t⟩
        · cases htail
        · have hd : tolower d = tolower d' := (List.cons.inj htail).1
          have h10 : d = 10 ↔ d' = 10 := by rw [← tolower_eq_lf d, hd, tolower_eq_lf]
          unfold line_end_loop
          rw [hloop]
          simp only [h13, h10]

/-- Lines end at the same places. -/
theorem find_http_line_end_eq {s t : Bytes} (h : SameLetters s t) :
    find_http_line_end s = find_http_line_end t := by
  apply line_end_loop_eq
  unfold SameLetters at h ⊢
  rw [List.map_take, List.map_take, h]

end SameLetters

/-- The first line of a stream ends with its text, if it ends at all: a `\r`
    in the text stops the search. -/
theorem find_of_text {text rest : Bytes} {n : Nat} (h : ¬ http_crlf <:+: text)
    (hfind : find_http_line_end (text ++ http_crlf ++ rest) = some n) :
    (13 : UInt8) ∉ text ∧ text.length + 2 ≤ http_line_max_length ∧ n = text.length + 2 := by
  have hloop := line_end_loop_of_find hfind
  obtain ⟨-, -, -, -, -, hle⟩ := find_http_line_end_iff.mp hfind
  by_cases hcr : (13 : UInt8) ∈ text
  · obtain ⟨as, bs, rfl, has⟩ := List.eq_append_cons_of_mem hcr
    rw [List.append_assoc, List.append_assoc, List.cons_append, line_end_loop_skip has] at hloop
    obtain ⟨m, hm, -⟩ := Option.map_eq_some_iff.mp hloop
    -- what follows the `\r` is not `\n`
    rcases bs with _ | ⟨d, bs⟩
    · cases hm
    · have hd : d ≠ 10 := by
        rintro rfl
        exact h ⟨as, bs, by simp [http_crlf]⟩
      rw [List.cons_append] at hm
      unfold line_end_loop at hm
      rw [if_pos rfl, if_neg hd] at hm
      cases hm
  · have hwhole : text ++ http_crlf ++ rest = text ++ 13 :: 10 :: rest := by simp [http_crlf]
    rw [hwhole, line_end_loop_append hcr] at hloop
    cases hloop
    exact ⟨hcr, hle, rfl⟩

/-! ## Section 2: Streams that differ in the case of names -/

/-- The bytes behind a start line, with the names of the fields in another
    letter case: a field whose line is complete, and the last one, whose line
    is cut. The values and the bytes behind the header are the same. -/
inductive RecasedHead : Bytes → Bytes → Prop
  | same (b : Bytes) : RecasedHead b b
  | field {name name' value rest rest' : Bytes} (hcolon : (58 : UInt8) ∉ name)
      (hletters : SameLetters name name') (hline : ¬ http_crlf <:+: name ++ 58 :: value)
      (hrest : RecasedHead rest rest') :
      RecasedHead (name ++ 58 :: value ++ http_crlf ++ rest)
        (name' ++ 58 :: value ++ http_crlf ++ rest')
  | cut {name name' tail : Bytes} (hcolon : (58 : UInt8) ∉ name)
      (hletters : SameLetters name name') (hline : ¬ http_crlf <:+: name ++ tail) :
      RecasedHead (name ++ tail) (name' ++ tail)

/-- Two streams with the same start line that differ only in the letter case
    of the names of header fields. -/
def Recased (x y : Bytes) : Prop :=
  ∃ start head head', ¬ http_crlf <:+: start ∧ x = start ++ http_crlf ++ head ∧
    y = start ++ http_crlf ++ head' ∧ RecasedHead head head'

/-- The same fields with the names in another letter case. -/
def SameFields (l l' : List (Bytes × Bytes)) : Prop :=
  List.Forall₂ (fun e e' => SameLetters e.1 e'.1 ∧ e.2 = e'.2) l l'

theorem find_none_of_no_crlf {b : Bytes} (h : ¬ http_crlf <:+: b) : find_http_line_end b = none := by
  rcases hfind : find_http_line_end b with _ | n
  · rfl
  · obtain ⟨body, rest, rfl, -⟩ := find_http_line_end_iff.mp hfind
    exact absurd ⟨body, rest, by simp [http_crlf]⟩ h

theorem RecasedHead.same_letters {b b' : Bytes} (h : RecasedHead b b') : SameLetters b b' := by
  induction h with
  | same b => exact SameLetters.refl b
  | field _ hletters _ _ ih =>
    exact ((hletters.append (SameLetters.refl _)).append (SameLetters.refl _)).append ih
  | cut _ hletters _ => exact hletters.append (SameLetters.refl _)

/-- The scans of the two streams stop for the same reason at the same place,
    with the same bytes behind it, and have the same fields. -/
structure SameScan (b b' : Bytes) : Prop where
  fields : SameFields (Header.scan b).lines (Header.scan b').lines
  size : (Header.scan b).size = (Header.scan b').size
  ending : (Header.scan b).ending = (Header.scan b').ending
  rest : (Header.scan b).ending = .blank →
    b.drop (Header.scan b).size = b'.drop (Header.scan b').size

theorem SameScan.refl (b : Bytes) : SameScan b b :=
  ⟨List.forall₂_same.mpr fun _ _ => ⟨rfl, rfl⟩, rfl, rfl, fun _ => rfl⟩

theorem same_scan_of_not_found {b b' : Bytes} (h : find_http_line_end b = none)
    (h' : find_http_line_end b' = none) : SameScan b b' := by
  have hscan := Header.scan_of_not_found h
  have hscan' := Header.scan_of_not_found h'
  constructor
  · rw [hscan, hscan']
    exact List.Forall₂.nil
  · rw [hscan, hscan']
  · rw [hscan, hscan']
  · rw [hscan]
    nofun

theorem RecasedHead.same_scan {b b' : Bytes} (h : RecasedHead b b') : SameScan b b' := by
  induction h with
  | same b => exact SameScan.refl b
  | @field name name' value rest rest' hcolon hletters hline hrest ih =>
    have hfind := SameLetters.find_http_line_end_eq (RecasedHead.field hcolon hletters hline
      hrest).same_letters
    have hcolon' : (58 : UInt8) ∉ name' := by
      rwa [← hletters.mem_iff tolower_eq_colon]
    rcases hfound : find_http_line_end (name ++ 58 :: value ++ http_crlf ++ rest) with _ | n
    · exact same_scan_of_not_found hfound (hfind ▸ hfound)
    · obtain ⟨hcr, hroom, -⟩ := find_of_text hline hfound
      have htext : SameLetters (name ++ 58 :: value) (name' ++ 58 :: value) :=
        hletters.append (SameLetters.refl _)
      have hcr' : (13 : UInt8) ∉ name' ++ 58 :: value := by
        rwa [← htext.mem_iff tolower_eq_cr]
      have hscan := Header.scan_colon hcolon hcr hroom rest
      have hscan' := Header.scan_colon hcolon' hcr' (htext.length_eq ▸ hroom) rest'
      by_cases hname : name = []
      · -- neither has a name
        rw [if_pos hname] at hscan
        rw [if_pos (hletters.eq_nil_iff.mp hname)] at hscan'
        constructor
        · rw [hscan, hscan']
          exact List.Forall₂.nil
        · rw [hscan, hscan']
        · rw [hscan, hscan']
        · rw [hscan]
          nofun
      · rw [if_neg hname] at hscan
        rw [if_neg fun h => hname (hletters.eq_nil_iff.mpr h)] at hscan'
        constructor
        · rw [hscan, hscan']
          exact List.Forall₂.cons ⟨hletters, rfl⟩ ih.fields
        · rw [hscan, hscan']
          simp only
          rw [htext.length_eq, ih.size]
        · rw [hscan, hscan']
          exact ih.ending
        · rw [hscan, hscan']
          intro hend
          have hdrop : ∀ t r : Bytes, ∀ k, (t ++ http_crlf ++ r).drop (t.length + 2 + k) = r.drop k := by
            intro t r k
            have hlen : (t ++ http_crlf).length = t.length + 2 := List.length_append
            rw [← hlen, ← List.drop_drop, List.drop_left]
          simp only [hdrop]
          exact ih.rest hend
  | @cut name name' tail hcolon hletters hline =>
    have hfind := SameLetters.find_http_line_end_eq (RecasedHead.cut hcolon hletters
      hline).same_letters
    have hnone := find_none_of_no_crlf hline
    exact same_scan_of_not_found hnone (hfind ▸ hnone)

/-- Every choice of names is the header of some stream. -/
theorem exists_recased {b : Bytes} {lines : List (Bytes × Bytes)}
    (h : SameFields (Header.scan b).lines lines) :
    ∃ b', RecasedHead b b' ∧ (Header.scan b').lines = lines := by
  induction hlen : b.length using Nat.strong_induction_on generalizing b lines with
  | _ m ih =>
    -- the bytes themselves, when there is no field
    have hnil : (Header.scan b).lines = [] → ∃ b', RecasedHead b b' ∧
        (Header.scan b').lines = lines := by
      intro hnil
      rw [hnil] at h
      cases h
      exact ⟨b, .same b, hnil⟩
    rcases hfind : find_http_line_end b with _ | n
    · exact hnil (by rw [Header.scan_of_not_found hfind])
    · have hscan := Header.scan_of_found hfind
      by_cases h2 : n = http_crlf_length
      · exact hnil (by rw [hscan, if_pos h2])
      · rw [if_neg h2] at hscan
        obtain ⟨body, rest, rfl, hcr, rfl, hroom⟩ := find_http_line_end_iff.mp hfind
        have hwhole : body ++ 13 :: 10 :: rest = body ++ http_crlf ++ rest := by
          simp [http_crlf]
        have hlen2 : (body ++ http_crlf).length = body.length + 2 := List.length_append
        rw [hwhole, List.take_left' hlen2] at hscan
        rw [hwhole] at hnil h ⊢
        rcases hsplit : Header.split_line (body ++ http_crlf) with _ | ⟨name, value⟩
        · exact hnil (by rw [hscan, hsplit])
        · obtain ⟨value, rfl, hcolon, hname⟩ := Header.split_line_some hsplit
          have hthis := Header.scan_colon hcolon hcr hroom rest
          rw [if_neg hname] at hthis
          rw [hthis] at h
          rcases lines with _ | ⟨⟨name', v⟩, lines⟩
          · cases h
          · obtain ⟨⟨hletters, hv⟩, htail⟩ := List.forall₂_cons.mp h
            have hshort : rest.length < m := by
              rw [← hlen]
              simp only [List.length_append, List.length_cons]
              omega
            obtain ⟨rest', hrest, hlines⟩ := ih rest.length hshort htail rfl
            have hline : ¬ http_crlf <:+: name ++ 58 :: value := by
              intro hin
              exact hcr (hin.subset List.mem_cons_self)
            have htext : SameLetters (name ++ 58 :: value) (name' ++ 58 :: value) :=
              hletters.append (SameLetters.refl _)
            replace hv : (value.dropWhile fun c => c = 32 || c = 58) = v := hv
            refine ⟨_, .field hcolon hletters hline hrest, ?_⟩
            rw [Header.scan_colon (by rwa [← hletters.mem_iff tolower_eq_colon])
              (by rwa [← htext.mem_iff tolower_eq_cr]) (htext.length_eq ▸ hroom),
              if_neg fun h => hname (hletters.eq_nil_iff.mpr h), hlines, hv]

/-! ## Section 3: What the fields store -/

namespace Header

/-- The names of `lines` with the values that are stored under them. -/
def stored_fields (value : Bytes) : List (Bytes × Bytes) → List (Bytes × List Bytes)
  | [] => []
  | (name, v) :: lines =>
    let value := if v = [] then value else v
    (name, split_string value head_sep) :: stored_fields value lines

theorem added_eq (name value : Bytes) (lines : List (Bytes × Bytes)) :
    added name value lines =
      ((stored_fields value lines).filter fun e => e.1 = name).flatMap (·.2) := by
  induction lines generalizing value with
  | nil => rfl
  | cons line lines ih =>
    obtain ⟨n, v⟩ := line
    simp only [added, stored_fields, ih, List.filter_cons]
    by_cases hn : n = name
    · simp [hn]
    · simp [hn]

theorem stored_fields_ne_nil {value : Bytes} {lines : List (Bytes × Bytes)} :
    ∀ e ∈ stored_fields value lines, e.2 ≠ [] := by
  induction lines generalizing value with
  | nil => nofun
  | cons line lines ih =>
    intro e he
    rcases List.mem_cons.mp he with rfl | he
    · exact split_string_ne_nil _ _
    · exact ih e he

/-- The line that a field is from. -/
theorem exists_line {value : Bytes} {lines : List (Bytes × Bytes)} {e : Bytes × List Bytes}
    (h : e ∈ stored_fields value lines) :
    ∃ l₁ v l₂, lines = l₁ ++ (e.1, v) :: l₂ ∧
      e.2 = split_string (if v = [] then carried value l₁ else v) head_sep := by
  induction lines generalizing value with
  | nil => cases h
  | cons line lines ih =>
    obtain ⟨n, v⟩ := line
    rcases List.mem_cons.mp h with rfl | h
    · exact ⟨[], v, lines, rfl, rfl⟩
    · obtain ⟨l₁, v', l₂, rfl, heq⟩ := ih h
      exact ⟨(n, v) :: l₁, v', l₂, rfl, heq⟩

/-- What the lookups find under a name. -/
theorem get_head_values_stored (lines : List (Bytes × Bytes)) (parsed : Bool) (name : Bytes) :
    get_head_values { construct.store_lines [] lines with header_parsed := parsed } name =
      if added name [] lines = [] then none else some (added name [] lines) := by
  have hget := getD_store_lines construct [] lines name
  rw [Std.ExtTreeMap.getD_eq_getD_getElem?] at hget
  have hnone : construct.headers.getD name [] = [] := rfl
  rw [hnone, List.nil_append] at hget
  have hheaders : ({ construct.store_lines [] lines with header_parsed := parsed } : Header).headers =
      (construct.store_lines [] lines).headers := rfl
  rw [get_head_values, hheaders, ← hget]
  rcases (construct.store_lines [] lines).headers[name]? with _ | _ | ⟨v, vs⟩
  · rfl
  · rfl
  · rfl

theorem stored_fields_same {value : Bytes} {l l' : List (Bytes × Bytes)} (h : SameFields l l') :
    List.Forall₂ (fun e e' => SameLetters e.1 e'.1 ∧ e.2 = e'.2) (stored_fields value l)
      (stored_fields value l') := by
  induction h generalizing value with
  | nil => exact List.Forall₂.nil
  | @cons e e' l l' he _ ih =>
    obtain ⟨name, v⟩ := e
    obtain ⟨name', v'⟩ := e'
    obtain ⟨hletters, rfl⟩ : SameLetters name name' ∧ v = v' := he
    exact List.Forall₂.cons ⟨hletters, rfl⟩ ih

/-! ## Section 4: Fields that announce no body in any spelling -/

/-- No field with the name of a length has a positive one, and none with that
    of a transfer encoding is chunked. -/
def Bodiless (fields : List (Bytes × List Bytes)) : Prop :=
  ∀ e ∈ fields,
    (SameLetters e.1 (ascii "Content-Length") →
      (atol (c_str (e.2.headD []))).bmod (2 ^ 32) ≤ 0) ∧
    (SameLetters e.1 (ascii "Transfer-Encoding") → e.2 ≠ [ascii "chunked"])

theorem Bodiless.recased {fields fields' : List (Bytes × List Bytes)} (h : Bodiless fields)
    (hsame : List.Forall₂ (fun e e' => SameLetters e.1 e'.1 ∧ e.2 = e'.2) fields fields') :
    Bodiless fields' := by
  induction hsame with
  | nil => nofun
  | @cons e e' fields fields' he _ ih =>
    obtain ⟨hletters, hvalues⟩ := he
    obtain ⟨hfirst, hothers⟩ := List.forall_mem_cons.mp h
    have hname : ∀ t, SameLetters e'.1 t → SameLetters e.1 t := fun t => hletters.trans
    unfold Bodiless
    rw [List.forall_mem_cons, ← hvalues]
    exact ⟨⟨fun h => hfirst.1 (hname _ h), fun h => hfirst.2 (hname _ h)⟩, ih hothers⟩

theorem join_chunked {vs : List Bytes} (h : join_strings vs head_value_sep = ascii "chunked") :
    vs = [ascii "chunked"] := by
  rcases vs with _ | ⟨v, _ | ⟨w, vs⟩⟩
  · cases h
  · exact congrArg (fun v => [v]) h
  · -- two values are joined with a `;`
    have hsep : (59 : UInt8) ∈ join_strings (v :: w :: vs) head_value_sep := by
      have h59 : (59 : UInt8) ∈ head_value_sep := by decide
      simp [join_strings, h59]
    rw [h] at hsep
    exact absurd hsep (by decide)

/-- The first field that is stored under a name. -/
theorem added_cases (name value : Bytes) (lines : List (Bytes × Bytes)) :
    added name value lines = [] ∨
      ∃ e ∈ stored_fields value lines, e.1 = name ∧ ∃ vs, added name value lines = e.2 ++ vs := by
  have hadded := added_eq name value lines
  rcases hfilter : (stored_fields value lines).filter (fun e => decide (e.1 = name)) with _ | ⟨e, es⟩
  · left
    rw [hadded, hfilter]
    rfl
  · right
    have hmem : e ∈ (stored_fields value lines).filter fun e => decide (e.1 = name) := by
      rw [hfilter]
      exact List.mem_cons_self
    obtain ⟨he, hname⟩ := List.mem_filter.mp hmem
    refine ⟨e, he, of_decide_eq_true hname, es.flatMap (·.2), ?_⟩
    rw [hadded, hfilter]
    exact List.flatMap_cons

/-- A header with the fields of `lines`. -/
def of_lines (lines : List (Bytes × Bytes)) : Header :=
  { construct.store_lines [] lines with header_parsed := true }

theorem get_head_int_bodiless {lines : List (Bytes × Bytes)}
    (h : Bodiless (stored_fields [] lines)) {name : Bytes}
    (hname : SameLetters name (ascii "Content-Length")) {length : Int}
    (hget : (of_lines lines).get_head_int name = some length) : length ≤ 0 := by
  unfold get_head_int of_lines at hget
  rw [get_head_values_stored] at hget
  rcases added_cases name [] lines with hnil | ⟨e, he, rfl, vs, hadded⟩
  · rw [if_pos hnil] at hget
    cases hget
  · have hlength := (h e he).1 hname
    obtain ⟨v, ws, hv⟩ := List.exists_cons_of_ne_nil (stored_fields_ne_nil e he)
    rw [hadded, hv, if_neg nofun] at hget
    rw [hv] at hlength
    cases hget
    exact hlength

theorem get_head_bodiless {lines : List (Bytes × Bytes)}
    (h : Bodiless (stored_fields [] lines)) {name : Bytes}
    (hname : SameLetters name (ascii "Transfer-Encoding")) {coding : Bytes}
    (hget : (of_lines lines).get_head name = some coding) : coding ≠ ascii "chunked" := by
  rintro rfl
  unfold get_head of_lines at hget
  rw [get_head_values_stored] at hget
  rcases added_cases name [] lines with hnil | ⟨e, he, rfl, vs, hadded⟩
  · rw [if_pos hnil] at hget
    cases hget
  · obtain ⟨v, ws, hv⟩ := List.exists_cons_of_ne_nil (stored_fields_ne_nil e he)
    rw [hadded, hv, if_neg nofun] at hget
    have hjoin := join_chunked (Option.some.inj hget)
    -- the one value is that of the first field
    have hws : ws ++ vs = [] := (List.cons.inj hjoin).2
    obtain rfl : ws = [] := (List.append_eq_nil_iff.mp hws).1
    exact (h e he).2 hname (hv.trans (by rw [(List.cons.inj hjoin).1]))

/-- Then the code announces none. -/
theorem Bodiless.announced {lines : List (Bytes × Bytes)}
    (h : Bodiless (stored_fields [] lines)) : Packet.announced_body (of_lines lines) = none := by
  have hlower : SameLetters (ascii "content-length") (ascii "Content-Length") := by
    unfold SameLetters
    decide
  have hlower' : SameLetters (ascii "transfer-encoding") (ascii "Transfer-Encoding") := by
    unfold SameLetters
    decide
  unfold Packet.announced_body
  split
  · next length hlength =>
    have hle : length ≤ 0 := by
      rcases Option.or_eq_some_iff.mp hlength with hget | ⟨-, hget⟩
      · exact get_head_int_bodiless h (SameLetters.refl _) hget
      · exact get_head_int_bodiless h hlower hget
    rw [if_neg (by omega)]
  · split
    · next coding hcoding =>
      have hne : coding ≠ ascii "chunked" := by
        rcases Option.or_eq_some_iff.mp hcoding with hget | ⟨-, hget⟩
        · exact get_head_bodiless h (SameLetters.refl _) hget
        · exact get_head_bodiless h hlower' hget
      rw [if_neg hne]
    · rfl

/-! ## Section 5: Spellings that decide -/

/-- The fields with all names in upper case. -/
def shouted (lines : List (Bytes × Bytes)) : List (Bytes × Bytes) :=
  lines.map fun e => (e.1.map toupper, e.2)

/-- The spellings that `parse` looks up. -/
def spellings : List Bytes :=
  [ascii "Content-Length", ascii "content-length", ascii "Transfer-Encoding",
    ascii "transfer-encoding"]

theorem same_letters_toupper (s : Bytes) : SameLetters s (s.map toupper) := by
  unfold SameLetters
  rw [List.map_map]
  apply List.map_congr_left
  intro c _
  exact (tolower_toupper c).symm

theorem same_fields_shouted (lines : List (Bytes × Bytes)) : SameFields lines (shouted lines) := by
  induction lines with
  | nil => exact List.Forall₂.nil
  | cons e lines ih => exact List.Forall₂.cons ⟨same_letters_toupper e.1, rfl⟩ ih

theorem carried_shouted (value : Bytes) (lines : List (Bytes × Bytes)) :
    carried value (shouted lines) = carried value lines := by
  induction lines generalizing value with
  | nil => rfl
  | cons e lines ih => exact ih _

/-- Every spelling that is looked up has a small letter. -/
theorem added_shouted {name : Bytes} (hname : name ∈ spellings) (value : Bytes)
    (lines : List (Bytes × Bytes)) : added name value (shouted lines) = [] := by
  have hsmall : ∀ t ∈ spellings, t.map toupper ≠ t := by decide
  apply added_none
  intro e he heq
  obtain ⟨line, -, rfl⟩ := List.mem_map.mp he
  apply hsmall name hname
  rw [← heq, List.map_map]
  apply List.map_congr_left
  intro c _
  exact toupper_toupper c

theorem get_head_values_nil {lines : List (Bytes × Bytes)} {name : Bytes}
    (h : added name [] lines = []) : (of_lines lines).get_head_values name = none := by
  unfold of_lines
  rw [get_head_values_stored, if_pos h]

theorem announced_shouted (lines : List (Bytes × Bytes)) :
    Packet.announced_body (of_lines (shouted lines)) = none := by
  have hnone : ∀ t ∈ spellings, (of_lines (shouted lines)).get_head_values t = none :=
    fun t ht => get_head_values_nil (added_shouted ht [] lines)
  unfold Packet.announced_body get_head_int get_head
  rw [hnone (ascii "Content-Length") (by decide), hnone (ascii "content-length") (by decide),
    hnone (ascii "Transfer-Encoding") (by decide), hnone (ascii "transfer-encoding") (by decide)]
  rfl

/-- All names but one in upper case. -/
theorem added_named {name : Bytes} {l₁ l₂ : List (Bytes × Bytes)} {t v : Bytes}
    (ht : t ∈ spellings) :
    added t [] (shouted l₁ ++ (name, v) :: shouted l₂) =
      if name = t then split_string (if v = [] then carried [] l₁ else v) head_sep else [] := by
  rw [added_append, added_shouted ht, carried_shouted, List.nil_append]
  simp only [added]
  rw [added_shouted ht, List.append_nil]

/-- Fields that are not bodiless announce a body when they are spelled so. -/
theorem exists_announced {lines : List (Bytes × Bytes)}
    (h : ¬ Bodiless (stored_fields [] lines)) :
    ∃ lines', SameFields lines lines' ∧ (Packet.announced_body (of_lines lines')).isSome := by
  unfold Bodiless at h
  push Not at h
  obtain ⟨e, he, hbody⟩ := h
  obtain ⟨l₁, v, l₂, rfl, hvalues⟩ := exists_line he
  have hsame : ∀ t, SameLetters e.1 t →
      SameFields (l₁ ++ (e.1, v) :: l₂) (shouted l₁ ++ (t, v) :: shouted l₂) := by
    intro t ht
    apply List.rel_append
    · exact same_fields_shouted l₁
    · exact List.Forall₂.cons ⟨ht, rfl⟩ (same_fields_shouted l₂)
  have hget : ∀ t ∈ spellings, (of_lines (shouted l₁ ++ (t, v) :: shouted l₂)).get_head_values t =
      some e.2 := by
    intro t ht
    unfold of_lines
    rw [get_head_values_stored, added_named ht, if_pos rfl, ← hvalues,
      if_neg (stored_fields_ne_nil e he)]
  by_cases hlength : SameLetters e.1 (ascii "Content-Length") ∧
      0 < (atol (c_str (e.2.headD []))).bmod (2 ^ 32)
  · obtain ⟨hname, hpos⟩ := hlength
    refine ⟨_, hsame _ hname, ?_⟩
    have hint : ((of_lines (shouted l₁ ++ (ascii "Content-Length", v) :: shouted l₂)).get_head_int
        (ascii "Content-Length")).or ((of_lines (shouted l₁ ++ (ascii "Content-Length", v) ::
          shouted l₂)).get_head_int (ascii "content-length")) =
        some ((atol (c_str (e.2.headD []))).bmod (2 ^ 32)) := by
      unfold get_head_int
      rw [hget _ (by decide)]
      rfl
    rw [Packet.announced_of_lookup hint]
    unfold Packet.length_body
    rw [if_neg (by omega)]
    rfl
  · obtain ⟨hname, hchunked⟩ := hbody fun hname => not_lt.mp fun hpos => hlength ⟨hname, hpos⟩
    refine ⟨_, hsame _ hname, ?_⟩
    -- no length under the one spelling or the other
    have hnone : ∀ t ∈ spellings, ascii "Transfer-Encoding" ≠ t →
        (of_lines (shouted l₁ ++ (ascii "Transfer-Encoding", v) :: shouted l₂)).get_head_values t =
          none := by
      intro t ht hne
      apply get_head_values_nil
      rw [added_named ht, if_neg hne]
    unfold Packet.announced_body get_head_int get_head
    rw [hnone (ascii "Content-Length") (by decide) (by decide),
      hnone (ascii "content-length") (by decide) (by decide), hget _ (by decide), hchunked]
    rfl

end Header

/-! ## Section 6: Framing -/

namespace Packet

open Header

variable {α : Type} (K : Kind α)

/-- Where a message is: its stage and its body. -/
def framed (p : Packet α) : ParseStatus × Option Body := (p.parse_status, p.body)

/-- `parse` takes as many bytes of either stream, and comes to the same stage
    with the same body. -/
def SameFraming (fields : α) (x y : Bytes) : Prop :=
  (parse K (construct fields) x).map framed = (parse K (construct fields) y).map framed

/-- No spelling of the names in a complete header announces a body. -/
def NeverFramed (fields : α) (x : Bytes) : Prop :=
  ∀ n, find_http_line_end x = some n →
    (K.parse_line fields .VERSION_UNKNOWN (x.take n)).1 = true →
    (scan (x.drop n)).ending = .blank →
    Bodiless (stored_fields [] (scan (x.drop n)).lines)

variable {K}

/-- The body stage with the bytes behind the header. -/
def framed_body (b : Bytes) : Option Body → Reply (ParseStatus × Option Body)
  | none => .took 0 (PARSE_FINISHED, none)
  | some body => (body.parse b).map fun body =>
    (if body.is_parse_finished then PARSE_FINISHED else PARSE_BODY, some body)

/-- The header stage of a new message. -/
def framed_head (b : Bytes) : Reply (ParseStatus × Option Body) :=
  match (scan b).ending with
  | .more => .took (scan b).size (PARSE_HEADER, none)
  | .blank => (framed_body (b.drop (scan b).size)
      (announced_body (of_lines (scan b).lines))).after (scan b).size
  | .malformed => .failed (PARSE_HEADER, none)

theorem parse_head_framed {p : Packet α} (hs : p.parse_status = PARSE_HEADER)
    (hheader : p.header = Header.construct) (hb : p.body = none) (b : Bytes) :
    (p.parse_head K [] b).map framed = framed_head b := by
  unfold framed_head
  rw [parse_head_eq hs (by rw [hheader]; rfl), hheader]
  rcases (scan b).ending with _ | _ | _
  · show Reply.took _ (framed _) = _
    unfold framed
    rw [hs, hb]
  · simp only [Reply.map_after]
    congr 1
    unfold finish_header parse_body of_lines
    rw [hb, Option.or_none]
    rcases announced_body { Header.construct.store_lines [] (scan b).lines with
      header_parsed := true } with _ | body
    · rfl
    · show Reply.map framed (Reply.map _ _) = Reply.map _ _
      rcases body.parse (b.drop (scan b).size) with _ | body' | ⟨n, body'⟩
      · rfl
      · rfl
      · rfl
  · show Reply.failed (framed _) = _
    unfold framed
    rw [hs, hb]

/-- One call on a stream. -/
theorem parse_framed (fields : α) (x : Bytes) :
    (parse K (construct fields) x).map framed =
      match find_http_line_end x with
      | none => .took 0 (PARSE_LINE, none)
      | some n =>
        if (K.parse_line fields .VERSION_UNKNOWN (x.take n)).1 then
          (framed_head (x.drop n)).after n
        else .failed (PARSE_LINE, none) := by
  unfold parse construct
  rw [parse_from_line (Or.inl rfl)]
  rcases find_http_line_end x with _ | n
  · rfl
  · simp only
    split
    · rw [Reply.map_after, parse_head_framed rfl rfl rfl]
    · rfl

theorem take_start (start head : Bytes) :
    (start ++ http_crlf ++ head).take (start.length + 2) = start ++ http_crlf :=
  List.take_left' List.length_append

theorem drop_start (start head : Bytes) :
    (start ++ http_crlf ++ head).drop (start.length + 2) = head :=
  List.drop_left' List.length_append

theorem find_start_eq {start head head' : Bytes} (h : RecasedHead head head') :
    find_http_line_end (start ++ http_crlf ++ head') =
      find_http_line_end (start ++ http_crlf ++ head) := by
  symm
  apply SameLetters.find_http_line_end_eq
  exact (SameLetters.refl (start ++ http_crlf)).append h.same_letters

/-- Recased streams of a header that is never framed are framed alike. -/
theorem NeverFramed.same {fields : α} {x y : Bytes} (h : NeverFramed K fields x)
    (hxy : Recased x y) : SameFraming K fields x y := by
  obtain ⟨start, head, head', hstart, rfl, rfl, hhead⟩ := hxy
  have hscan := hhead.same_scan
  unfold SameFraming
  rw [parse_framed, parse_framed, find_start_eq hhead]
  rcases hfound : find_http_line_end (start ++ http_crlf ++ head) with _ | n
  · rfl
  · obtain ⟨-, -, rfl⟩ := find_of_text hstart hfound
    simp only [take_start, drop_start]
    split
    · next hline =>
      unfold framed_head
      rw [← hscan.ending, ← hscan.size]
      rcases hend : (scan head).ending with _ | _ | _
      · rfl
      · -- no body in either spelling
        have hbody : Bodiless (stored_fields [] (scan head).lines) := by
          have hnever := h _ hfound
          rw [take_start, drop_start] at hnever
          exact hnever hline hend
        simp only
        rw [hbody.announced, (hbody.recased (stored_fields_same hscan.fields)).announced]
        rfl
      · rfl
    · rfl

/-- A body that is announced shows in the reply. -/
theorem framed_body_ne {b c : Bytes} {o : Option Body} (h : o.isSome) (m n : Nat) :
    (framed_body b o).after n ≠ (framed_body c none).after m := by
  obtain ⟨body, rfl⟩ := Option.isSome_iff_exists.mp h
  unfold framed_body
  simp only
  rcases body.parse b with _ | body' | ⟨k, body'⟩
  · nofun
  · nofun
  · intro heq
    have hbody := congrArg (fun r => r.state.map Prod.snd) heq
    cases hbody

/-- **Letter case.** The letter case of the names makes no difference to
    where a message ends if and only if no spelling of them announces a
    body. -/
theorem same_framing_iff (K : Kind α) (fields : α) (x : Bytes) :
    (∀ y, Recased x y → SameFraming K fields x y) ↔ NeverFramed K fields x := by
  constructor
  · intro h n hfind hline hend
    by_contra hbody
    obtain ⟨start, head, rfl, hcr, rfl, -⟩ := find_http_line_end_iff.mp hfind
    have hwhole : start ++ 13 :: 10 :: head = start ++ http_crlf ++ head := by simp [http_crlf]
    have hstart : ¬ http_crlf <:+: start := by
      intro hin
      exact hcr (hin.subset List.mem_cons_self)
    rw [hwhole] at h hfind hline hend hbody
    rw [take_start] at hline
    rw [drop_start] at hend hbody
    -- the names in upper case announce no body, and some spelling does
    obtain ⟨lines, hsame, hsome⟩ := exists_announced hbody
    obtain ⟨head₀, hhead₀, hlines₀⟩ := exists_recased (same_fields_shouted (scan head).lines)
    obtain ⟨head₁, hhead₁, hlines₁⟩ := exists_recased hsame
    have heq := (h _ ⟨start, head, head₁, hstart, rfl, rfl, hhead₁⟩).symm.trans
      (h _ ⟨start, head, head₀, hstart, rfl, rfl, hhead₀⟩)
    rw [parse_framed, parse_framed, find_start_eq hhead₀, find_start_eq hhead₁, hfind] at heq
    simp only [take_start, drop_start, if_pos hline] at heq
    unfold framed_head at heq
    rw [← hhead₀.same_scan.ending, ← hhead₁.same_scan.ending, hend, hlines₀, hlines₁,
      announced_shouted] at heq
    simp only [Reply.after_after] at heq
    exact framed_body_ne hsome _ _ heq
  · intro h y hxy
    exact h.same hxy

/-- A request with a body of five bytes and one with none. -/
theorem not_same_framing :
    Recased (ascii "POST / HTTP/1.1\r\nContent-Length: 5\r\n\r\nhello")
        (ascii "POST / HTTP/1.1\r\nCONTENT-LENGTH: 5\r\n\r\nhello") ∧
      ¬ SameFraming Request.kind ⟨Uri.construct, .METHOD_UNKNOWN⟩
        (ascii "POST / HTTP/1.1\r\nContent-Length: 5\r\n\r\nhello")
        (ascii "POST / HTTP/1.1\r\nCONTENT-LENGTH: 5\r\n\r\nhello") := by
  constructor
  · refine ⟨ascii "POST / HTTP/1.1", ascii "Content-Length: 5\r\n\r\nhello",
      ascii "CONTENT-LENGTH: 5\r\n\r\nhello", by decide, by decide,
      by decide, ?_⟩
    exact @RecasedHead.field (ascii "Content-Length") (ascii "CONTENT-LENGTH") (ascii " 5") _ _
      (by decide) (by unfold SameLetters; decide) (by decide)
      (.same (ascii "\r\nhello"))
  · unfold SameFraming
    decide

end Packet

end Pump
