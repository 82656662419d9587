import Pump.Http.Segments

/-! # Content-Length

    `get_head` reads the value of a `Content-Length` header with `atol` into
    an `int32_t`; a message whose length is positive then has that many bytes
    of body. Here is where a message ends, for the numeral of any number. -/

namespace Pump

open ParseStatus

/-! ## Section 1: The length that a numeral announces -/

/-- The names that `parse` looks up. -/
def length_names : List Bytes := [ascii "Content-Length", ascii "content-length"]

/-- The bytes of body that the numeral of `n` announces: `atol` stops at the
    largest `long`, an `int32_t` keeps the low bits, and a length that is not
    positive is none. -/
def framed_length (n : Nat) : Nat := ((min (n : Int) (2 ^ 63 - 1)).bmod (2 ^ 32)).toNat

theorem framed_length_lt (n : Nat) : framed_length n < 2 ^ 31 := by
  unfold framed_length
  rw [Int.bmod_def]
  omega

/-- The length is that of the numeral as long as it is a positive `int32_t`. -/
theorem framed_length_eq_iff (n : Nat) : framed_length n = n ↔ n < 2 ^ 31 := by
  constructor
  · intro h
    rw [← h]
    exact framed_length_lt n
  · intro h
    unfold framed_length
    rw [Int.bmod_def]
    omega

namespace Packet

variable {α : Type} {K : Kind α}

/-- The body of `n` bytes that `parse` makes. -/
def length_body (n : Nat) : Option Body :=
  if n = 0 then none else some (Body.construct.set_expected_size n)

theorem get_head_int_numeral {h : Header} {name v : Bytes} {vs : List Bytes}
    (hget : h.headers[name]? = some (v :: vs)) (hv : IsNumeral v) :
    h.get_head_int name = some ((min (numeral_value v : Int) (2 ^ 63 - 1)).bmod (2 ^ 32)) := by
  have hnul : (0 : UInt8) ∉ v := by
    intro hmem
    have hle := (hv.2 0 hmem).1
    revert hle
    decide
  unfold Header.get_head_int Header.get_head_values
  rw [hget]
  simp only [Option.map_some, List.headD_cons, c_str_eq hnul, atol_numeral hv]

/-- The length that the two lookups find is announced. -/
theorem announced_of_lookup {h : Header} {length : Int}
    (hfound : (h.get_head_int (ascii "Content-Length")).or
      (h.get_head_int (ascii "content-length")) = some length) :
    announced_body h = length_body length.toNat := by
  unfold announced_body length_body
  rw [hfound]
  simp only
  split
  · next hpos =>
    rw [if_neg (by omega), Int.toNat_of_nonneg (by omega)]
  · rw [if_pos (by omega)]

/-- The numeral that is found first is. -/
theorem announced_first {h : Header} {v : Bytes} {vs : List Bytes}
    (hget : h.headers[ascii "Content-Length"]? = some (v :: vs)) (hv : IsNumeral v) :
    announced_body h = length_body (framed_length (numeral_value v)) := by
  apply announced_of_lookup
  rw [get_head_int_numeral hget hv]
  rfl

/-- One numeral under one of the names announces its length. -/
theorem announced_numeral {h : Header} {name v : Bytes} {vs : List Bytes}
    (hname : name ∈ length_names) (hget : h.headers[name]? = some (v :: vs)) (hv : IsNumeral v)
    (hother : ∀ t ∈ length_names, t ≠ name → h.get_head_values t = none) :
    announced_body h = length_body (framed_length (numeral_value v)) := by
  rcases List.mem_cons.mp hname with rfl | hname
  · exact announced_first hget hv
  · have hlower := List.mem_singleton.mp hname
    have hnone : h.get_head_int (ascii "Content-Length") = none := by
      unfold Header.get_head_int
      rw [hother _ List.mem_cons_self (by rw [hlower]; decide)]
      rfl
    apply announced_of_lookup
    rw [hnone, ← hlower, get_head_int_numeral hget hv]
    rfl

/-- A new body of some bytes waits for them. -/
theorem length_body_awaiting {n : Nat} (hpos : n ≠ 0) (hlt : n < 2 ^ 31) :
    (Body.construct.set_expected_size n).Awaiting := by
  refine ⟨rfl, rfl, ?_, ?_⟩
  · show ((0 : Nat) : Int) < n
    omega
  · show (n : Int) < 2 ^ 31
    omega

end Packet

/-! ## Section 2: One line announces the length -/

namespace Header

/-- Among the values stored and the lines to come, there is one numeral under
    the name `name`, and nothing under the other. -/
def Announces (h : Header) (lines : List (Bytes × Bytes)) (name v : Bytes) : Prop :=
  ∀ t ∈ length_names, (∀ e ∈ lines, e.1 = t → e.2 ≠ []) ∧
    h.headers.getD t [] ++ added t [] lines = if t = name then [v] else []

theorem Announces.step {h : Header} {l₁ l₂ : List (Bytes × Bytes)} {name v : Bytes}
    (ha : Announces h (l₁ ++ l₂) name v) : Announces (h.store_lines [] l₁) l₂ name v := by
  intro t ht
  obtain ⟨hown, heq⟩ := ha t ht
  have hown₂ : ∀ e ∈ l₂, e.1 = t → e.2 ≠ [] := fun e he => hown e (List.mem_append_right _ he)
  refine ⟨hown₂, ?_⟩
  rw [getD_store_lines, ← heq, added_append, added_own hown₂ (carried [] l₁),
    List.append_assoc]

/-- What the values of all lines announce. -/
theorem Announces.announced {h : Header} {name v : Bytes} (ha : Announces h [] name v)
    (hname : name ∈ length_names) (hv : IsNumeral v) :
    Packet.announced_body h = Packet.length_body (framed_length (numeral_value v)) := by
  have hvalues : ∀ t ∈ length_names, h.headers.getD t [] = if t = name then [v] else [] := by
    intro t ht
    have heq := (ha t ht).2
    rwa [added, List.append_nil] at heq
  have hget : h.headers[name]? = some [v] := by
    have hone := hvalues name hname
    rw [if_pos rfl, Std.ExtTreeMap.getD_eq_getD_getElem?] at hone
    rcases hget : h.headers[name]? with _ | vs
    · rw [hget] at hone
      cases hone
    · rw [hget, Option.getD_some] at hone
      rw [hone]
  apply Packet.announced_numeral hname hget hv
  -- nothing under the other name
  intro t ht hne
  have hnil := hvalues t ht
  rw [if_neg hne, Std.ExtTreeMap.getD_eq_getD_getElem?] at hnil
  unfold get_head_values
  rcases hother : h.headers[t]? with _ | vs
  · rfl
  · rw [hother, Option.getD_some] at hnil
    rw [hnil]

end Header

/-- Exactly one of the lines has one of the names, and its value is a numeral
    of `n`. -/
def OneLength (lines : List (Bytes × Bytes)) (n : Nat) : Prop :=
  ∃ l₁ name v l₂, lines = l₁ ++ (name, v) :: l₂ ∧ name ∈ length_names ∧ IsNumeral v ∧
    numeral_value v = n ∧ ∀ e ∈ l₁ ++ l₂, e.1 ∉ length_names

theorem split_numeral {v : Bytes} (hv : IsNumeral v) : split_string v head_sep = [v] := by
  have hsep : ∀ c ∈ v, head_sep.is_sep c = false := by
    intro c hc
    obtain ⟨hlo, hhi⟩ := hv.2 c hc
    have h44 : c ≠ 44 := by
      rintro rfl
      revert hlo
      decide
    have h59 : c ≠ 59 := by
      rintro rfl
      revert hhi
      decide
    simp [head_sep, h44, h59]
  unfold split_string
  rw [if_neg hv.1, split_loop_no_sep hsep (by rw [List.nil_append]; exact hv.1), List.nil_append]

theorem OneLength.announces {lines : List (Bytes × Bytes)} {n : Nat} (h : OneLength lines n) :
    ∃ name v, name ∈ length_names ∧ IsNumeral v ∧ numeral_value v = n ∧
      Header.Announces Header.construct lines name v := by
  obtain ⟨l₁, name, v, l₂, rfl, hname, hv, hvalue, hothers⟩ := h
  refine ⟨name, v, hname, hv, hvalue, ?_⟩
  intro t ht
  have hnone : ∀ l : List (Bytes × Bytes), (∀ e ∈ l, e ∈ l₁ ++ l₂) → ∀ e ∈ l, e.1 ≠ t := by
    intro l hl e he heq
    exact hothers e (hl e he) (heq ▸ ht)
  have h₁ := hnone l₁ fun e he => List.mem_append_left _ he
  have h₂ := hnone l₂ fun e he => List.mem_append_right _ he
  constructor
  · intro e he heq
    rcases List.mem_append.mp he with he | he
    · exact absurd heq (h₁ e he)
    · rcases List.mem_cons.mp he with rfl | he
      · exact hv.1
      · exact absurd heq (h₂ e he)
  · show [] ++ Header.added t [] (l₁ ++ (name, v) :: l₂) = _
    rw [List.nil_append, Header.added_append, Header.added_none h₁, List.nil_append]
    simp only [Header.added]
    rw [Header.added_none h₂, List.append_nil, if_neg hv.1]
    by_cases hn : name = t
    · rw [if_pos hn, if_pos hn.symm, split_numeral hv]
    · rw [if_neg hn, if_neg fun heq => hn heq.symm]

/-! ## Section 3: Framing -/

namespace Packet

variable {α : Type} {K : Kind α}

/-- The message has the bytes `data` of a body of `n`, and is finished with
    the last of them. -/
def Holds (p : Packet α) (n : Nat) (data : Bytes) : Prop :=
  if data.length < n then
    p.parse_status = PARSE_BODY ∧
      ∃ body, p.body = some body ∧ body.Awaiting ∧ body.expected_size = n ∧ body.data = data
  else
    p.parse_status = PARSE_FINISHED ∧ data.length = n ∧
      if n = 0 then p.body = none else ∃ body, p.body = some body ∧ body.data = data

theorem Holds.length_le {p : Packet α} {n : Nat} {data : Bytes} (h : p.Holds n data) :
    data.length ≤ n := by
  unfold Holds at h
  split at h
  · omega
  · exact Nat.le_of_eq h.2.1

theorem Holds.finished_iff {p : Packet α} {n : Nat} {data : Bytes} (h : p.Holds n data) :
    p.parse_status = PARSE_FINISHED ↔ data.length = n := by
  unfold Holds at h
  split at h
  · rw [h.1]
    constructor
    · nofun
    · intro heq
      omega
  · exact ⟨fun _ => h.2.1, fun _ => h.1⟩

/-- The complete header makes a message without any of its body. -/
theorem finish_header_holds {p : Packet α} {n : Nat} (hbody : p.body = none)
    (ha : announced_body p.header = length_body n) (hlt : n < 2 ^ 31) :
    (p.finish_header K).Holds n [] := by
  unfold Holds finish_header
  simp only [hbody, Option.or_none, ha]
  unfold length_body
  by_cases h0 : n = 0
  · rw [if_neg (by simp [h0])]
    simp [h0]
  · rw [if_pos (by simp; omega)]
    simp only [if_neg h0, Option.isSome_some, if_true, true_and]
    exact ⟨_, rfl, length_body_awaiting h0 hlt, rfl, rfl⟩

/-- The body takes what is missing, and no more. -/
theorem parse_body_holds {p : Packet α} {n : Nat} {data : Bytes} (h : p.Holds n data) (b : Bytes) :
    ∃ p', p.parse_body b = .took (min (n - data.length) b.length) p' ∧
      p'.Holds n (data ++ b.take (n - data.length)) := by
  by_cases hlt : data.length < n
  · unfold Holds at h
    rw [if_pos hlt] at h
    obtain ⟨hs, body, hbody, hawait, hexpected, rfl⟩ := h
    have hmissing : body.missing = n - body.data.length := by
      unfold Body.missing
      omega
    -- the body takes the lesser of what is missing and what is there
    have htake : b.take (min (n - body.data.length) b.length) = b.take (n - body.data.length) := by
      rw [List.take_eq_take_iff]
      omega
    have hparse : body.parse b = .took (min (n - body.data.length) b.length)
        (body.extended (b.take (n - body.data.length))) := by
      rw [Body.parse_awaiting hawait, hmissing, htake]
    unfold parse_body
    rw [if_pos hs]
    simp only [hbody, hparse]
    refine ⟨_, rfl, ?_⟩
    have hlen : (b.take (n - body.data.length)).length = min (n - body.data.length) b.length :=
      List.length_take
    unfold Holds
    rw [List.length_append, hlen]
    by_cases hdone : b.length < n - body.data.length
    · -- more is missing
      have hfin : (body.extended (b.take (n - body.data.length))).is_parse_finished = false := by
        simp only [Body.extended, hlen, hmissing, decide_eq_false_iff_not]
        omega
      rw [if_pos (by omega)]
      simp only [hfin, hs, Bool.false_eq_true, if_false, true_and]
      exact ⟨_, rfl, Body.awaiting_extended hawait (by omega), hexpected, rfl⟩
    · have hfin : (body.extended (b.take (n - body.data.length))).is_parse_finished = true := by
        simp only [Body.extended, hlen, hmissing, decide_eq_true_eq]
        omega
      have hpos : n ≠ 0 := by omega
      rw [if_neg (by omega)]
      simp only [hfin, if_true, true_and, if_neg hpos]
      exact ⟨by omega, _, rfl, rfl⟩
  · -- the message is finished
    have hlen : data.length = n := Nat.le_antisymm h.length_le (Nat.le_of_not_lt hlt)
    have hs := h.finished_iff.mpr hlen
    refine ⟨p, ?_, ?_⟩
    · rw [parse_body_finished (by simp [hs]), hlen, Nat.sub_self, Nat.zero_min]
    · rwa [hlen, Nat.sub_self, List.take_zero, List.append_nil]

/-- A complete head: an accepted start line and the lines of a header, one of
    which announces `n` bytes. -/
structure LengthHead (K : Kind α) (fields : α) (head : Bytes) (n : Nat) : Prop where
  head_eq : ∃ k, find_http_line_end head = some k ∧
    (K.parse_line fields .VERSION_UNKNOWN (head.take k)).1 = true ∧
    (Header.scan (head.drop k)).ending = .blank ∧
    k + (Header.scan (head.drop k)).size = head.length ∧
    OneLength (Header.scan (head.drop k)).lines n

/-- Where a message with the head `head` is that has taken `m` bytes and has
    `rest` before it. -/
inductive Framing (K : Kind α) (fields : α) (head stream name v : Bytes) :
    Packet α → Bytes → Nat → Prop
  | line {p : Packet α} {rest : Bytes}
      (hs : p.parse_status = PARSE_NONE ∨ p.parse_status = PARSE_LINE)
      (hfields : p.fields = fields) (hversion : p.version = .VERSION_UNKNOWN)
      (hheader : p.header = Header.construct) (hbody : p.body = none)
      (hrest : rest = head ++ stream) :
      Framing K fields head stream name v p rest 0
  | header {p : Packet α} {rest : Bytes} {m : Nat} (hs : p.parse_status = PARSE_HEADER)
      (hparsed : p.header.header_parsed = false) (hbody : p.body = none)
      (hend : (Header.scan rest).ending = .blank)
      (hsize : m + (Header.scan rest).size = head.length)
      (hrest : rest.drop (Header.scan rest).size = stream)
      (ha : p.header.Announces (Header.scan rest).lines name v) :
      Framing K fields head stream name v p rest m
  | body {p : Packet α} {rest data : Bytes} (hstream : stream = data ++ rest)
      (hholds : p.Holds (framed_length (numeral_value v)) data) :
      Framing K fields head stream name v p rest (head.length + data.length)

section

variable {fields : α} {head stream name v : Bytes}

/-- The body stage, with `x` arrived and `y` to come. -/
theorem Framing.body_step {p : Packet α} {data x y : Bytes} (hstream : stream = data ++ (x ++ y))
    (hholds : p.Holds (framed_length (numeral_value v)) data) :
    ∃ n p', p.parse_body x = .took n p' ∧
      Framing K fields head stream name v p' (x.drop n ++ y) (head.length + data.length + n) := by
  obtain ⟨p', hp', hholds'⟩ := parse_body_holds hholds x
  obtain ⟨missing, hmissing⟩ : ∃ k, k = framed_length (numeral_value v) - data.length := ⟨_, rfl⟩
  rw [← hmissing] at hp' hholds'
  have htake : x.take missing = x.take (min missing x.length) := by
    rw [List.take_eq_take_iff]
    omega
  have hlen : (x.take missing).length = min missing x.length := List.length_take
  have hsplit : x ++ y = x.take missing ++ (x.drop (min missing x.length) ++ y) := by
    rw [← List.append_assoc, htake, List.take_append_drop]
  refine ⟨_, p', hp', ?_⟩
  have hrest : stream = (data ++ x.take missing) ++ (x.drop (min missing x.length) ++ y) := by
    rw [hstream, List.append_assoc, ← hsplit]
  rw [Nat.add_assoc, ← hlen, ← List.length_append, hlen]
  exact .body hrest hholds'

/-- The header stage, with `x` arrived and `y` to come. -/
theorem Framing.head_step {p p' : Packet α} {x y : Bytes} {m n : Nat}
    (hname : name ∈ length_names) (hv : IsNumeral v) (hs : p.parse_status = PARSE_HEADER)
    (hparsed : p.header.header_parsed = false) (hbody : p.body = none)
    (hend : (Header.scan (x ++ y)).ending = .blank)
    (hsize : m + (Header.scan (x ++ y)).size = head.length)
    (hrest : (x ++ y).drop (Header.scan (x ++ y)).size = stream)
    (ha : p.header.Announces (Header.scan (x ++ y)).lines name v)
    (h : p.parse_head K [] x = .took n p') :
    Framing K fields head stream name v p' (x.drop n ++ y) (m + n) := by
  have hle := Header.scan_size_le x
  have happend := Header.scan_append x y
  rw [parse_head_eq hs hparsed] at h
  cases hend' : (Header.scan x).ending with
  | more =>
    -- the rest of the header goes on from where the scan of `x` waits
    rw [hend'] at h
    cases h
    rw [if_pos hend'] at happend
    rw [happend] at hend hsize hrest ha
    simp only [Header.Scan.followed] at hend hsize hrest ha
    rw [← List.drop_drop, List.drop_append_of_le_length hle] at hrest
    have hparsed' : (p.header.store_lines [] (Header.scan x).lines).header_parsed = false := by
      rw [Header.store_lines_parsed, hparsed]
    exact .header hs hparsed' hbody hend (by omega) hrest ha.step
  | blank =>
    rw [hend'] at h
    simp only at h
    rw [if_neg (by rw [hend']; simp)] at happend
    rw [happend] at hsize hrest ha
    obtain ⟨p₀, hp₀⟩ : ∃ p₀ : Packet α, p₀ = { p with header :=
        { p.header.store_lines [] (Header.scan x).lines with header_parsed := true } } :=
      ⟨_, rfl⟩
    have hall : p₀.header.Announces [] name v := by
      rw [← List.append_nil (Header.scan x).lines] at ha
      rw [hp₀]
      exact ha.step
    have hholds : (p₀.finish_header K).Holds (framed_length (numeral_value v)) [] :=
      finish_header_holds (by rw [hp₀]; exact hbody) (hall.announced hname hv) (framed_length_lt _)
    rw [List.drop_append_of_le_length hle] at hrest
    obtain ⟨j, p₁, hp₁, hframing⟩ : ∃ j p₁,
        (p₀.finish_header K).parse_body (x.drop (Header.scan x).size) = .took j p₁ ∧
          Framing K fields head stream name v p₁ ((x.drop (Header.scan x).size).drop j ++ y)
            (head.length + ([] : Bytes).length + j) :=
      Framing.body_step hrest.symm hholds
    rw [← hp₀, hp₁] at h
    cases h
    rw [List.drop_drop, List.length_nil, Nat.add_zero, ← hsize, Nat.add_assoc] at hframing
    exact hframing
  | malformed =>
    rw [hend'] at h
    cases h

/-- One call keeps the message where its bytes are. -/
theorem Framing.step {k : Nat} (hfind : find_http_line_end head = some k)
    (hline : (K.parse_line fields .VERSION_UNKNOWN (head.take k)).1 = true)
    (hend : (Header.scan (head.drop k)).ending = .blank)
    (hsize : k + (Header.scan (head.drop k)).size = head.length)
    (ha : Header.construct.Announces (Header.scan (head.drop k)).lines name v)
    (hname : name ∈ length_names) (hv : IsNumeral v) {p p' : Packet α} {x y : Bytes} {m n : Nat}
    (hframing : Framing K fields head stream name v p (x ++ y) m)
    (h : parse K p x = .took n p') :
    Framing K fields head stream name v p' (x.drop n ++ y) (m + n) := by
  unfold parse at h
  cases hframing with
  | line hs hfields hversion hheader hbody hrest =>
    rw [parse_from_line hs] at h
    cases hfind' : find_http_line_end x with
    | none =>
      -- no start line yet
      rw [hfind'] at h
      cases h
      exact .line (Or.inr rfl) hfields hversion hheader hbody hrest
    | some j =>
      have hboth := find_http_line_end_append hfind' y
      rw [hrest, find_http_line_end_append hfind] at hboth
      cases hboth
      have hx := find_http_line_end_bounds hfind'
      have hk := find_http_line_end_bounds hfind
      have htake : x.take k = head.take k := by
        rw [← List.take_append_of_le_length hx.2, hrest, List.take_append_of_le_length hk.2]
      have hdrop : x.drop k ++ y = head.drop k ++ stream := by
        rw [← List.drop_append_of_le_length hx.2, hrest, List.drop_append_of_le_length hk.2]
      have hscan : Header.scan (x.drop k ++ y) = Header.scan (head.drop k) := by
        rw [hdrop, Header.scan_append, if_neg (by rw [hend]; nofun)]
      rw [hfind'] at h
      simp only [htake, hfields, hversion, if_pos hline] at h
      obtain ⟨p₁, hp₁⟩ : ∃ p₁ : Packet α, p₁ = { p with
          fields := (K.parse_line fields .VERSION_UNKNOWN (head.take k)).2.1
          version := (K.parse_line fields .VERSION_UNKNOWN (head.take k)).2.2
          parse_status := PARSE_HEADER } := ⟨_, rfl⟩
      have hheader₁ : p₁.header = Header.construct := by rw [hp₁]; exact hheader
      rw [← hp₁] at h
      rcases hreply : parse_head K [] p₁ (x.drop k) with _ | _ | ⟨n', p₂⟩
      · rw [hreply] at h
        cases h
      · rw [hreply] at h
        cases h
      · rw [hreply] at h
        cases h
        rw [← List.drop_drop, Nat.zero_add]
        apply Framing.head_step hname hv (by rw [hp₁]) (by rw [hheader₁]; rfl)
          (by rw [hp₁]; exact hbody) _ _ _ _ hreply
        · rw [hscan, hend]
        · rw [hscan, hsize]
        · rw [hscan, hdrop, List.drop_append, List.drop_drop, hsize, List.drop_length,
            List.length_drop, ← hsize, Nat.add_sub_cancel_left, Nat.sub_self]
          rfl
        · rw [hscan, hheader₁]
          exact ha
  | header hs hparsed hbody hend hsize hrest ha =>
    rw [parse_from_header hs] at h
    exact Framing.head_step hname hv hs hparsed hbody hend hsize hrest ha h
  | body hstream hholds =>
    have hlate : p.Late := by
      unfold Holds at hholds
      split at hholds
      · exact Or.inl hholds.1
      · exact Or.inr hholds.1
    obtain ⟨j, p₁, hp₁, hframing⟩ : ∃ j p₁, p.parse_body x = .took j p₁ ∧
        Framing K fields head stream name v p₁ (x.drop j ++ y) _ :=
      Framing.body_step hstream hholds
    rw [parse_from_late hlate, hp₁] at h
    cases h
    exact hframing

/-- What one call on the head and some of the stream gives. -/
theorem LengthHead.parse_whole {n : Nat} (h : LengthHead K fields head n) (stream : Bytes) :
    ∃ p, parse K (construct fields) (head ++ stream) =
        .took (head.length + min (framed_length n) stream.length) p ∧
      p.Holds (framed_length n) (stream.take (framed_length n)) := by
  obtain ⟨k, hfind, hline, hend, hsize, hone⟩ := h.head_eq
  obtain ⟨name, v, hname, hv, rfl, ha⟩ := hone.announces
  have hk := find_http_line_end_bounds hfind
  have htake : (head ++ stream).take k = head.take k := List.take_append_of_le_length hk.2
  have hdrop : (head ++ stream).drop k = head.drop k ++ stream :=
    List.drop_append_of_le_length hk.2
  have hscan : Header.scan (head.drop k ++ stream) = Header.scan (head.drop k) := by
    rw [Header.scan_append, if_neg (by rw [hend]; nofun)]
  have hrest : (head.drop k ++ stream).drop (Header.scan (head.drop k)).size = stream := by
    rw [← hdrop, List.drop_drop, hsize, List.drop_left]
  have hall : (Header.construct.store_lines [] (Header.scan (head.drop k)).lines).Announces []
      name v := by
    apply Header.Announces.step
    rwa [List.append_nil]
  obtain ⟨p₀, hp₀⟩ : ∃ p₀ : Packet α, p₀ =
      ⟨(K.parse_line fields .VERSION_UNKNOWN (head.take k)).2.1,
        (K.parse_line fields .VERSION_UNKNOWN (head.take k)).2.2,
        { Header.construct.store_lines [] (Header.scan (head.drop k)).lines with
          header_parsed := true },
        none, PARSE_HEADER⟩ := ⟨_, rfl⟩
  have hann : p₀.header.Announces [] name v := by
    rw [hp₀]
    exact hall
  have hholds : (p₀.finish_header K).Holds (framed_length (numeral_value v)) [] :=
    finish_header_holds (by rw [hp₀]) (hann.announced hname hv) (framed_length_lt _)
  obtain ⟨p, hp, hholds'⟩ := parse_body_holds hholds stream
  rw [List.length_nil, Nat.sub_zero] at hp hholds'
  refine ⟨p, ?_, hholds'⟩
  unfold parse
  rw [parse_from_line (Or.inl rfl), find_http_line_end_append hfind]
  simp only [htake, hdrop, construct, if_pos hline]
  rw [parse_head_eq rfl rfl, hscan, hend]
  simp only [hrest]
  rw [← hp₀, hp, ← hsize, Nat.add_assoc]
  rfl

end

/-- In every run of `parse` on the head and a stream, in any segments, a
    message that is finished has taken exactly `n` bytes of the stream, and
    they are its body. -/
def FramesExactly (K : Kind α) (fields : α) (head : Bytes) (n : Nat) : Prop :=
  ∀ (stream : Bytes) (segs : List Bytes) (m : Nat) (p : Packet α),
    segs.flatten <+: head ++ stream →
    feed (parse K) (construct fields) [] segs = .took m p →
    p.parse_status = PARSE_FINISHED →
    m = head.length + n ∧ n ≤ stream.length ∧
      if n = 0 then p.body = none else ∃ body, p.body = some body ∧ body.data = stream.take n

/-- Every run ends the body where the length that is left of the numeral
    does. -/
theorem LengthHead.frames {fields : α} {head : Bytes} {n : Nat} (h : LengthHead K fields head n) :
    FramesExactly K fields head (framed_length n) := by
  intro stream segs m p hsegs hfeed hfin
  obtain ⟨k, hfind, hline, hend, hsize, hone⟩ := h.head_eq
  obtain ⟨name, v, hname, hv, rfl, ha⟩ := hone.announces
  obtain ⟨later, hlater⟩ := hsegs
  have hstart : Framing K fields head stream name v (construct fields) ([] ++ segs.flatten ++ later)
      0 := .line (Or.inl rfl) rfl rfl rfl rfl hlater
  obtain ⟨rest, hframing⟩ := feed_invariant
    (J := fun p x m => Framing K fields head stream name v p (x ++ later) m)
    (by
      intro s x y m n s' hJ hcall
      rw [List.append_assoc] at hJ ⊢
      exact hJ.step hfind hline hend hsize ha hname hv hcall)
    hstart hfeed
  rw [Nat.zero_add] at hframing
  -- a finished message is in the body stage
  cases hframing with
  | line hs =>
    rw [hfin] at hs
    rcases hs with hs | hs <;> cases hs
  | header hs =>
    rw [hfin] at hs
    cases hs
  | body hstream hholds =>
    have hlen := hholds.finished_iff.mp hfin
    unfold Holds at hholds
    rw [if_neg (by omega)] at hholds
    rw [← hlen]
    refine ⟨rfl, ?_, ?_⟩
    · rw [hstream, List.length_append]
      omega
    · rw [hstream, List.take_left, hlen]
      exact hholds.2.2

/-- The bytes that finish the message show what was left of the numeral. -/
theorem LengthHead.length_of_frames {fields : α} {head : Bytes} {n : Nat}
    (h : LengthHead K fields head n) (hexact : FramesExactly K fields head n) :
    framed_length n = n := by
  obtain ⟨p, hparse, hholds⟩ := h.parse_whole (List.replicate (framed_length n) 0)
  rw [List.length_replicate, Nat.min_self] at hparse
  have hfin := hholds.finished_iff.mpr (by simp)
  have hend := hexact _ [head ++ List.replicate (framed_length n) 0] _ p
    (by rw [List.flatten_singleton]) (by rw [feed_single, List.nil_append, hparse]) hfin
  omega

/-- **Content-Length framing.** Every run ends the body exactly where the
    numeral of `n` says, if and only if `n` is an `int32_t`. -/
theorem frames_exactly_iff {fields : α} {head : Bytes} {n : Nat}
    (h : LengthHead K fields head n) : FramesExactly K fields head n ↔ n < 2 ^ 31 := by
  rw [← framed_length_eq_iff]
  constructor
  · exact h.length_of_frames
  · intro heq
    have hframes := h.frames
    rwa [heq] at hframes

theorem frames_exactly_five :
    FramesExactly Request.kind ⟨Uri.construct, .METHOD_UNKNOWN⟩
      (ascii "POST / HTTP/1.1\r\nContent-Length: 5\r\n\r\n") 5 :=
  (frames_exactly_iff ⟨17, by decide, by decide, by decide,
    by decide, [], ascii "Content-Length", ascii "5", [], by decide,
    by decide, ⟨by decide, by decide +kernel⟩, by decide +kernel, by simp⟩).mpr (by decide)

/-- A response that announces `2 ^ 32 + 1` bytes is finished with the first
    of them. -/
theorem not_frames_exactly :
    LengthHead Response.kind ⟨0⟩
        (ascii "HTTP/1.1 200 OK\r\nContent-Length: 4294967297\r\n\r\n") 4294967297 ∧
      ¬ FramesExactly Response.kind ⟨0⟩
        (ascii "HTTP/1.1 200 OK\r\nContent-Length: 4294967297\r\n\r\n") 4294967297 := by
  have hhead : LengthHead Response.kind ⟨0⟩
      (ascii "HTTP/1.1 200 OK\r\nContent-Length: 4294967297\r\n\r\n") 4294967297 :=
    ⟨17, by decide, by decide, by decide, by decide, [],
      ascii "Content-Length", ascii "4294967297", [], by decide, by decide,
      ⟨by decide, by decide +kernel⟩, by decide +kernel, by simp⟩
  refine ⟨hhead, ?_⟩
  intro hexact
  have heq := hhead.length_of_frames hexact
  revert heq
  decide

end Packet

end Pump
