import Pump.Lts
import Pump.Http.RoundTrip

/-! # Header maps there and back

    Which header maps a new header reads back from what
    `header::__serialize_header` writes. Values are joined with `; ` on the
    way out; on the way in, blanks and colons before a value are skipped,
    and `split_string` skips the blanks behind a separator and an empty last
    value. -/

namespace Pump

/-! ## Section 1: Values in a map -/

/-- A value without separators, as `split_string` leaves them. -/
def Token (v : Bytes) : Prop := ∀ c ∈ v, head_sep.is_sep c = false

theorem split_string_tokens (src : Bytes) : ∀ v ∈ split_string src head_sep, Token v :=
  split_string_forall fun _ _ hc => hc

namespace Header

theorem int_value_token (value : Int) : Token (int_value value) := by
  have hdigit : ∀ n, ∀ c ∈ digits 10 n, head_sep.is_sep c = false := by
    intro n c hc
    obtain ⟨hlo, hhi⟩ := (isNumeral_digits n).2 c hc
    have h44 : c ≠ 44 := by
      rintro rfl
      exact absurd hlo (by decide)
    have h59 : c ≠ 59 := by
      rintro rfl
      exact absurd hhi (by decide)
    simp [head_sep, h44, h59]
  intro c hc
  replace hc : c ∈ format_dec value := List.mem_of_mem_take hc
  unfold format_dec at hc
  split at hc
  · rcases List.mem_cons.mp hc with rfl | hc
    · rfl
    · exact hdigit _ c hc
  · exact hdigit _ c hc

/-- Every name has values, and none of them a separator. -/
def Stored (h : Header) : Prop :=
  ∀ (name : Bytes) (vs : List Bytes), h.headers[name]? = some vs → vs ≠ [] ∧ ∀ v ∈ vs, Token v

theorem stored_construct : construct.Stored := by
  intro name vs hget
  cases hget

theorem Stored.insert {h : Header} (hs : h.Stored) {name : Bytes} {vs : List Bytes} (hne : vs ≠ [])
    (htok : ∀ v ∈ vs, Token v) : Stored { h with headers := h.headers.insert name vs } := by
  intro k ws hget
  rw [Std.ExtTreeMap.getElem?_insert] at hget
  split at hget
  · cases hget
    exact ⟨hne, htok⟩
  · exact hs k ws hget

/-- The values of a name, with more behind them. -/
theorem Stored.append {h : Header} (hs : h.Stored) {name : Bytes} {vs : List Bytes} (hne : vs ≠ [])
    (htok : ∀ v ∈ vs, Token v) :
    Stored { h with headers := h.headers.insert name (h.headers.getD name [] ++ vs) } := by
  apply hs.insert (List.append_ne_nil_of_right_ne_nil _ hne)
  intro v hv
  rcases List.mem_append.mp hv with hv | hv
  · rw [Std.ExtTreeMap.getD_eq_getD_getElem?] at hv
    rcases hget : h.headers[name]? with _ | ws
    · rw [hget] at hv
      cases hv
    · rw [hget, Option.getD_some] at hv
      exact (hs name ws hget).2 v hv
  · exact htok v hv

theorem Stored.set_head {h : Header} (hs : h.Stored) (name value : Bytes) :
    (h.set_head name value).Stored :=
  hs.append (split_string_ne_nil _ _) (split_string_tokens _)

theorem Stored.store_lines {h : Header} (hs : h.Stored) (value : Bytes)
    (lines : List (Bytes × Bytes)) : (h.store_lines value lines).Stored := by
  induction lines generalizing h value with
  | nil => exact hs
  | cons line lines ih => exact ih (hs.set_head _ _) _

/-- The calls that build a header map. -/
inductive Op where
  | set_head (name value : Bytes)
  | set_head_int (name : Bytes) (value : Int)
  | set_unique_head (name value : Bytes)
  | set_unique_head_int (name : Bytes) (value : Int)
  | parse_header (b : Bytes)

/-- One call; a failed one leaves what it has stored. -/
def step (h : Header) : Op → Option Header
  | .set_head name value => some (h.set_head name value)
  | .set_head_int name value => some (h.set_head_int name value)
  | .set_unique_head name value => some (h.set_unique_head name value)
  | .set_unique_head_int name value => some (h.set_unique_head_int name value)
  | .parse_header b => (h.parse_header [] b).state

/-- The headers that calls make from a new one. -/
def Built (h : Header) : Prop := Reachable step AnyStep construct h

theorem Stored.step {h h' : Header} {op : Op} (hs : h.Stored) (hstep : step h op = some h') :
    h'.Stored := by
  have hint : ∀ value : Int, ∀ v ∈ [int_value value], Token v := by
    intro value v hv
    rw [List.mem_singleton.mp hv]
    exact int_value_token value
  cases op with
  | set_head name value =>
    cases hstep
    exact hs.set_head name value
  | set_head_int name value =>
    cases hstep
    exact hs.append (List.cons_ne_nil _ _) (hint value)
  | set_unique_head name value =>
    cases hstep
    exact hs.insert (split_string_ne_nil _ _) (split_string_tokens _)
  | set_unique_head_int name value =>
    cases hstep
    exact hs.insert (List.cons_ne_nil _ _) (hint value)
  | parse_header b =>
    replace hstep : (h.parse_header [] b).state = some h' := hstep
    by_cases hp : h.header_parsed = true
    · unfold parse_header at hstep
      rw [if_pos hp] at hstep
      cases hstep
      exact hs
    · rw [parse_header_eq (Bool.eq_false_iff.mpr hp)] at hstep
      unfold scanned at hstep
      split at hstep <;> cases hstep <;> exact hs.store_lines [] (scan b).lines

theorem Built.stored {h : Header} (hb : h.Built) : h.Stored :=
  hb.invariant stored_construct fun _ _ _ hs _ hstep => hs.step hstep

end Header

/-! ## Section 2: Joined values, split again -/

/-- What comes back of joined tokens: the loop skips blanks before each but
    the first, and an empty token at the end. -/
def rejoined : Bool → List Bytes → List Bytes
  | _, [] => []
  | skipping, v :: vs =>
    let token := if skipping then v.dropWhile (· = 32) else v
    if vs = [] ∧ token = [] then [] else token :: rejoined true vs

/-- A token in front of the end or of a separator. -/
theorem split_loop_token {v tail : Bytes} (hv : Token v)
    (htail : tail = [] ∨ ∃ rest, tail = 59 :: rest) (skipping : Bool) :
    split_loop head_sep skipping [] (v ++ tail) =
      split_loop head_sep false (if skipping then v.dropWhile (· = 32) else v) tail := by
  have hrest : ∀ (w cur : Bytes), Token w →
      split_loop head_sep false cur (w ++ tail) = split_loop head_sep false (cur ++ w) tail := by
    intro w
    induction w with
    | nil =>
      intro cur _
      simp
    | cons c w ih =>
      intro cur hw
      have hc := hw c List.mem_cons_self
      have := ih (cur ++ [c]) fun d hd => hw d (List.mem_cons_of_mem c hd)
      simpa [split_loop, hc] using this
  cases skipping with
  | false => exact hrest v [] hv
  | true =>
    rw [if_pos rfl]
    induction v with
    | nil =>
      rcases htail with rfl | ⟨rest, rfl⟩
      · rfl
      · simp [split_loop, head_sep]
    | cons c v ih =>
      have hv' : Token v := fun d hd => hv d (List.mem_cons_of_mem c hd)
      by_cases hc : c = 32
      · subst hc
        rw [List.dropWhile_cons_of_pos (by decide), ← ih hv']
        simp [split_loop]
      · have hsep := hv c List.mem_cons_self
        rw [List.dropWhile_cons_of_neg (by simpa using hc), ← List.nil_append (c :: v),
          ← hrest (c :: v) [] hv]
        simp [split_loop, hc, hsep]

theorem split_loop_rejoined {vs : List Bytes} (hne : vs ≠ []) (hvs : ∀ v ∈ vs, Token v)
    (skipping : Bool) :
    split_loop head_sep skipping [] (join_strings vs Header.head_value_sep) =
      rejoined skipping vs := by
  induction vs generalizing skipping with
  | nil => exact absurd rfl hne
  | cons v vs ih =>
    have hv := hvs v List.mem_cons_self
    unfold rejoined
    cases vs with
    | nil =>
      have hend := split_loop_token hv (Or.inl rfl) skipping
      rw [List.append_nil] at hend
      show split_loop head_sep skipping [] v = _
      rw [hend]
      simp [split_loop, rejoined]
    | cons w vs =>
      have ih := ih (List.cons_ne_nil w vs) (fun u hu => hvs u (List.mem_cons_of_mem v hu)) true
      have hsep : Header.head_value_sep = [59, 32] := rfl
      have hjoin : join_strings (v :: w :: vs) Header.head_value_sep =
          v ++ 59 :: 32 :: join_strings (w :: vs) Header.head_value_sep := by
        simp [join_strings, hsep]
      rw [hjoin, split_loop_token hv (Or.inr ⟨_, rfl⟩), ← ih]
      simp [split_loop, head_sep]

theorem dropWhile_eq_iff_head {p : UInt8 → Bool} (v : Bytes) :
    v.dropWhile p = v ↔ ∀ c, v.head? = some c → p c = false := by
  rw [List.dropWhile_eq_self_iff]
  cases v with
  | nil => simp
  | cons c v => simp

theorem dropWhile_blank_eq_iff (v : Bytes) : v.dropWhile (· = 32) = v ↔ v.head? ≠ some 32 := by
  rw [dropWhile_eq_iff_head]
  constructor
  · intro h h32
    exact absurd (h 32 h32) (by decide)
  · intro hne c hc
    rw [decide_eq_false_iff_not]
    exact fun h32 => hne (h32 ▸ hc)

/-- Tokens behind a separator come back as they are exactly when none starts
    with a blank and the last is not empty. -/
theorem rejoined_true_iff (vs : List Bytes) :
    rejoined true vs = vs ↔ (∀ v ∈ vs, v.head? ≠ some 32) ∧ vs.getLast? ≠ some [] := by
  induction vs with
  | nil => simp [rejoined]
  | cons v vs ih =>
    unfold rejoined
    simp only [if_true]
    rw [List.forall_mem_cons, ← dropWhile_blank_eq_iff v]
    rcases vs with _ | ⟨w, vs⟩
    · by_cases hnil : v.dropWhile (· = 32) = []
      · rw [if_pos ⟨rfl, hnil⟩, hnil]
        constructor
        · nofun
        · rintro ⟨⟨heq, -⟩, hlast⟩
          exact absurd (by rw [← heq]; rfl) hlast
      · rw [if_neg fun h => hnil h.2]
        constructor
        · intro heq
          have heq := (List.cons.inj heq).1
          rw [heq] at hnil
          exact ⟨⟨heq, List.forall_mem_nil _⟩, by simpa using hnil⟩
        · rintro ⟨⟨heq, -⟩, -⟩
          rw [heq]
          rfl
    · rw [if_neg fun h => List.cons_ne_nil w vs h.1, List.cons.injEq, ih, List.getLast?_cons_cons,
        and_assoc]

namespace Header

theorem skipped_eq_iff (v : Bytes) :
    v.dropWhile (fun c => c = 32 || c = 58) = v ↔ v.head? ≠ some 32 ∧ v.head? ≠ some 58 := by
  rw [dropWhile_eq_iff_head]
  constructor
  · intro h
    exact ⟨fun h32 => absurd (h 32 h32) (by decide), fun h58 => absurd (h 58 h58) (by decide)⟩
  · rintro ⟨h32, h58⟩ c hc
    have hne : c ≠ 32 ∧ c ≠ 58 := ⟨fun heq => h32 (heq ▸ hc), fun heq => h58 (heq ▸ hc)⟩
    simp [hne]

/-- Only the first value loses what is before it. -/
theorem value_text_cons (name v : Bytes) (vs : List Bytes) :
    value_text (name, v :: vs) =
      join_strings (v.dropWhile (fun c => c = 32 || c = 58) :: vs) head_value_sep := by
  unfold value_text
  cases vs with
  | nil => rfl
  | cons w vs =>
    have hsep : head_value_sep = [59, 32] := rfl
    simp only [join_strings, hsep, List.append_assoc, List.cons_append]
    rw [List.dropWhile_append]
    split
    · next hnil =>
      rw [List.isEmpty_iff.mp hnil, List.dropWhile_cons_of_neg (by decide)]
      rfl
    · rfl

/-- The values come back from a line that has them. -/
def Kept (vs : List Bytes) : Prop :=
  ((vs.headD []).head? ≠ some 32 ∧ (vs.headD []).head? ≠ some 58) ∧
    (∀ v ∈ vs.tail, v.head? ≠ some 32) ∧ vs.getLast? ≠ some []

instance : DecidablePred Kept := fun _ => inferInstanceAs (Decidable (_ ∧ _))

theorem value_text_eq_nil_iff {name : Bytes} {vs : List Bytes} (hne : vs ≠ []) :
    value_text (name, vs) = [] ↔ ∃ v, vs = [v] ∧ v.dropWhile (fun c => c = 32 || c = 58) = [] := by
  obtain ⟨v, vs, rfl⟩ := List.exists_cons_of_ne_nil hne
  rw [value_text_cons]
  cases vs with
  | nil => simp [join_strings]
  | cons w vs =>
    have hsep : head_value_sep = [59, 32] := rfl
    simp [join_strings, hsep]

/-- **Splitting what is found on a line.** -/
theorem split_value_text_iff {name : Bytes} {vs : List Bytes} (hne : vs ≠ [])
    (hvs : ∀ v ∈ vs, Token v) (htext : value_text (name, vs) ≠ []) :
    split_string (value_text (name, vs)) head_sep = vs ↔ Kept vs := by
  obtain ⟨v, vs, rfl⟩ := List.exists_cons_of_ne_nil hne
  obtain ⟨token, htoken⟩ : ∃ token, token = v.dropWhile (fun c => c = 32 || c = 58) := ⟨_, rfl⟩
  have hkept := skipped_eq_iff v
  have hlist : ∀ u ∈ token :: vs, Token u := by
    intro u hu
    rcases List.mem_cons.mp hu with rfl | hu
    · intro c hc
      rw [htoken] at hc
      exact hvs v List.mem_cons_self c (List.dropWhile_subset _ hc)
    · exact hvs u (List.mem_cons_of_mem v hu)
  unfold split_string Kept
  rw [if_neg htext, value_text_cons, ← htoken, split_loop_rejoined (List.cons_ne_nil _ _) hlist]
  simp only [List.headD_cons, List.tail_cons]
  rw [← hkept, ← htoken]
  unfold rejoined
  rcases vs with _ | ⟨w, vs⟩
  · have hpos : token ≠ [] := by
      intro hnil
      exact htext ((value_text_eq_nil_iff hne).mpr ⟨v, rfl, htoken ▸ hnil⟩)
    rw [if_neg fun h => hpos h.2]
    constructor
    · intro heq
      have heq := (List.cons.inj heq).1
      rw [← heq]
      exact ⟨rfl, List.forall_mem_nil _, by simpa using hpos⟩
    · rintro ⟨heq, -⟩
      rw [heq]
      rfl
  · rw [if_neg fun h => List.cons_ne_nil w vs h.1, List.cons.injEq, rejoined_true_iff,
      List.getLast?_cons_cons]
    simp

/-! ## Section 3: Maps -/

/-- Every entry is a line of its own that fits its buffer. -/
def Clean (h : Header) : Prop := ∀ e ∈ h.headers.toList, CleanEntry e

/-- A new header takes all of what `__serialize_header` wrote and has the same
    map. -/
def RoundTrips (h : Header) : Prop :=
  ∃ h', parse_header [] construct h.serialize_header.1 = .took h.serialize_header.1.length h' ∧
    h'.header_parsed = true ∧ h'.headers = h.headers

/-- A line without a value does not come behind one with a value. -/
def Uncarried (h : Header) : Prop :=
  ∀ l₁ e l₂, h.headers.toList = l₁ ++ e :: l₂ → value_text e = [] → ∀ e' ∈ l₁, value_text e' = []

/-- The line of an entry, as the parser finds it. -/
def found (e : Bytes × List Bytes) : Bytes × Bytes := (e.1, value_text e)

theorem Built.values_ne_nil {h : Header} (hb : h.Built) :
    ∀ e ∈ h.headers.toList, e.2 ≠ [] ∧ ∀ v ∈ e.2, Token v := by
  intro e he
  exact hb.stored e.1 e.2 (Std.ExtTreeMap.mem_toList_iff_getElem?_eq_some.mp he)

/-- A line without a name ends the parse. -/
theorem scan_text_unnamed {entries : List (Bytes × List Bytes)} (h : ∀ e ∈ entries, CleanEntry e)
    {e : Bytes × List Bytes} (he : e ∈ entries) (hname : e.1 = []) (rest : Bytes) :
    (scan (text entries ++ http_crlf ++ rest)).ending = .malformed := by
  induction entries with
  | nil => cases he
  | cons e' entries ih =>
    have he' := h e' List.mem_cons_self
    have htext : text (e' :: entries) ++ http_crlf ++ rest =
        line_text e' ++ http_crlf ++ (text entries ++ http_crlf ++ rest) := by
      simp [text]
    rw [htext]
    by_cases hname' : e'.1 = []
    · rw [he'.scan_unnamed hname']
    · rw [he'.scan hname']
      rcases List.mem_cons.mp he with rfl | he
      · exact absurd hname hname'
      · exact ih (fun d hd => h d (List.mem_cons_of_mem e' hd)) he

/-- The map comes back when all names are there and the lines store it. -/
theorem round_trips_iff_stored {h : Header} (hb : h.Built) (hc : h.Clean) :
    RoundTrips h ↔ (∀ e ∈ h.headers.toList, e.1 ≠ []) ∧
      (construct.store_lines [] (h.headers.toList.map found)).headers = h.headers := by
  have hbytes : h.serialize_header.1 = text h.headers.toList ++ http_crlf ++ [] := by
    rw [serialize_clean hc fun e he => (hb.values_ne_nil e he).1, List.append_nil]
  have hparse := parse_header_eq (h := construct) rfl [] h.serialize_header.1
  unfold RoundTrips
  rw [hparse, hbytes]
  by_cases hname : ∀ e ∈ h.headers.toList, e.1 ≠ []
  · rw [scan_clean hc hname]
    simp only [scanned, List.append_nil, Nat.zero_add]
    constructor
    · rintro ⟨h', hreply, -, heq⟩
      cases hreply
      exact ⟨hname, heq⟩
    · rintro ⟨-, heq⟩
      exact ⟨_, rfl, rfl, heq⟩
  · push Not at hname
    obtain ⟨e, he, hnil⟩ := hname
    have hend := scan_text_unnamed hc he hnil []
    unfold scanned
    rw [hend]
    constructor
    · rintro ⟨h', hreply, -⟩
      cases hreply
    · rintro ⟨hname, -⟩
      exact absurd hnil (hname e he)

/-- What the lines of a map add to one of its names. -/
theorem added_found {h : Header} {l₁ l₂ : List (Bytes × List Bytes)} {e : Bytes × List Bytes}
    (hsplit : h.headers.toList = l₁ ++ e :: l₂) :
    added e.1 [] (h.headers.toList.map found) =
      split_string (if value_text e = [] then carried [] (l₁.map found) else value_text e)
        head_sep := by
  have hdistinct := entries_distinct h.headers
  rw [hsplit, List.pairwise_append] at hdistinct
  obtain ⟨-, hlater, hearlier⟩ := hdistinct
  have h₁ : ∀ line ∈ l₁.map found, line.1 ≠ e.1 := by
    intro line hline
    obtain ⟨e', he', rfl⟩ := List.mem_map.mp hline
    exact hearlier e' he' e List.mem_cons_self
  have h₂ : ∀ line ∈ l₂.map found, line.1 ≠ e.1 := by
    intro line hline
    obtain ⟨e', he', rfl⟩ := List.mem_map.mp hline
    exact ((List.pairwise_cons.mp hlater).1 e' he').symm
  rw [hsplit, List.map_append, added_append, added_none h₁, List.nil_append, List.map_cons]
  simp only [added, found, if_true]
  rw [added_none h₂, List.append_nil]
  rfl

/-- Two maps are equal when they give the same values, if no name is without
    any. -/
theorem headers_eq_iff {h h' : Header} (hs : h.Stored) (hs' : h'.Stored) :
    h.headers = h'.headers ↔ ∀ name, h.headers.getD name [] = h'.headers.getD name [] := by
  constructor
  · intro heq name
    rw [heq]
  · intro hvalues
    apply Std.ExtTreeMap.ext_getElem?
    intro name
    have hname := hvalues name
    rw [Std.ExtTreeMap.getD_eq_getD_getElem?, Std.ExtTreeMap.getD_eq_getD_getElem?] at hname
    rcases hget : h.headers[name]? with _ | vs
    · rcases hget' : h'.headers[name]? with _ | vs'
      · rfl
      · rw [hget, hget'] at hname
        exact absurd hname.symm (hs' name vs' hget').1
    · rcases hget' : h'.headers[name]? with _ | vs'
      · rw [hget, hget'] at hname
        exact absurd hname (hs name vs hget).1
      · rw [hget, hget'] at hname
        exact congrArg some hname

/-- The map comes back when every entry does, behind those before it. -/
theorem round_trips_iff_entries {h : Header} (hb : h.Built) (hc : h.Clean) :
    RoundTrips h ↔ (∀ e ∈ h.headers.toList, e.1 ≠ []) ∧
      ∀ l₁ e l₂, h.headers.toList = l₁ ++ e :: l₂ →
        split_string (if value_text e = [] then carried [] (l₁.map found) else value_text e)
          head_sep = e.2 := by
  rw [round_trips_iff_stored hb hc, headers_eq_iff (stored_construct.store_lines _ _) hb.stored]
  have hvalues : ∀ name, (construct.store_lines [] (h.headers.toList.map found)).headers.getD name [] =
      added name [] (h.headers.toList.map found) := by
    intro name
    rw [getD_store_lines]
    rfl
  -- the map and its list of entries have the same values
  have hentry : ∀ e ∈ h.headers.toList, h.headers.getD e.1 [] = e.2 := by
    intro e he
    rw [Std.ExtTreeMap.getD_eq_getD_getElem?, Std.ExtTreeMap.mem_toList_iff_getElem?_eq_some.mp he]
    rfl
  apply and_congr_right
  intro _
  constructor
  · intro heq l₁ e l₂ hsplit
    have he : e ∈ h.headers.toList := by
      rw [hsplit]
      exact List.mem_append_right _ List.mem_cons_self
    rw [← added_found hsplit, ← hvalues, heq, hentry e he]
  · intro hall name
    rw [hvalues]
    rcases hget : h.headers[name]? with _ | vs
    · -- no line has the name
      rw [added_none, Std.ExtTreeMap.getD_eq_getD_getElem?, hget]
      · rfl
      · intro line hline heq
        obtain ⟨e, he, rfl⟩ := List.mem_map.mp hline
        have hsome := Std.ExtTreeMap.mem_toList_iff_getElem?_eq_some.mp he
        replace heq : e.1 = name := heq
        rw [heq, hget] at hsome
        cases hsome
    · have he : (name, vs) ∈ h.headers.toList :=
        Std.ExtTreeMap.mem_toList_iff_getElem?_eq_some.mpr hget
      obtain ⟨l₁, l₂, hsplit⟩ := List.append_of_mem he
      have hadded := added_found hsplit
      rw [hall l₁ (name, vs) l₂ hsplit] at hadded
      rw [hadded, hentry (name, vs) he]

/-- Nothing is carried past lines without values. -/
theorem carried_nil {lines : List (Bytes × Bytes)} (h : ∀ line ∈ lines, line.2 = []) :
    carried [] lines = [] := by
  induction lines with
  | nil => rfl
  | cons line lines ih =>
    unfold carried
    rw [h line List.mem_cons_self, if_pos rfl]
    exact ih fun l hl => h l (List.mem_cons_of_mem line hl)

/-- **Header round trip.** A header map, where no value is carried from line
    to line, comes back if and only if every header has a name, and one empty
    value or values that come back from a line. -/
theorem round_trips_iff_kept {h : Header} (hb : h.Built) (hc : h.Clean) (hu : h.Uncarried) :
    RoundTrips h ↔ ∀ e ∈ h.headers.toList, e.1 ≠ [] ∧ (e.2 = [[]] ∨ Kept e.2) := by
  have hone : ∀ l₁ e l₂, h.headers.toList = l₁ ++ e :: l₂ →
      (split_string (if value_text e = [] then carried [] (l₁.map found) else value_text e)
        head_sep = e.2 ↔ e.2 = [[]] ∨ Kept e.2) := by
    intro l₁ e l₂ hsplit
    have he : e ∈ h.headers.toList := by
      rw [hsplit]
      exact List.mem_append_right _ List.mem_cons_self
    obtain ⟨hne, htok⟩ := hb.values_ne_nil e he
    by_cases htext : value_text e = []
    · -- the line has no value, and none is carried to it
      have hcarried : carried [] (l₁.map found) = [] := by
        apply carried_nil
        intro line hline
        obtain ⟨e', he', rfl⟩ := List.mem_map.mp hline
        exact hu l₁ e l₂ hsplit htext e' he'
      rw [if_pos htext, hcarried, split_empty]
      constructor
      · intro heq
        exact Or.inl heq.symm
      · rintro (heq | hkept)
        · exact heq.symm
        · obtain ⟨v, hvs, hnil⟩ := (@value_text_eq_nil_iff e.1 _ hne).mp htext
          rw [hvs] at hkept ⊢
          have hv := (skipped_eq_iff v).mpr hkept.1
          rw [← hv, hnil]
    · rw [if_neg htext, @split_value_text_iff e.1 _ hne htok htext]
      constructor
      · exact Or.inr
      · rintro (heq | hkept)
        · exfalso
          apply htext
          show value_text (e.1, e.2) = []
          rw [heq]
          rfl
        · exact hkept
  rw [round_trips_iff_entries hb hc]
  constructor
  · rintro ⟨hname, hall⟩ e he
    obtain ⟨l₁, l₂, hsplit⟩ := List.append_of_mem he
    exact ⟨hname e he, (hone l₁ e l₂ hsplit).mp (hall l₁ e l₂ hsplit)⟩
  · intro hall
    refine ⟨fun e he => (hall e he).1, ?_⟩
    intro l₁ e l₂ hsplit
    have he : e ∈ h.headers.toList := by
      rw [hsplit]
      exact List.mem_append_right _ List.mem_cons_self
    exact (hone l₁ e l₂ hsplit).mpr (hall e he).2

/-- A header with one name. -/
theorem clean_single {h : Header} {e : Bytes × List Bytes} (hlist : h.headers.toList = [e])
    (he : CleanEntry e) : h.Clean := by
  intro e' he'
  rw [hlist, List.mem_singleton] at he'
  exact he' ▸ he

theorem round_trips_two_values :
    RoundTrips (construct.set_head (ascii "a") (ascii "x, y")) := by
  have hlist : (construct.set_head (ascii "a") (ascii "x, y")).headers.toList =
      [(ascii "a", [ascii "x", ascii "y"])] := by
    decide
  have hbuilt : Built (construct.set_head (ascii "a") (ascii "x, y")) :=
    .step (l := .set_head (ascii "a") (ascii "x, y")) .init trivial rfl
  apply (round_trips_iff_kept hbuilt (clean_single hlist ?_) ?_).mpr
  · rw [hlist]
    decide
  · exact ⟨by decide, by decide, by decide, by decide,
      by decide, by decide⟩
  · intro l₁ e l₂ hsplit hnil
    have he : e ∈ [(ascii "a", [ascii "x", ascii "y"])] := by
      rw [← hlist, hsplit]
      exact List.mem_append_right _ List.mem_cons_self
    rw [List.mem_singleton.mp he] at hnil
    exact absurd hnil (by decide)

/-- A blank before the value is lost. -/
theorem not_round_trips_blank :
    Built (construct.set_head (ascii "a") (ascii " x")) ∧
      Clean (construct.set_head (ascii "a") (ascii " x")) ∧
      ¬ RoundTrips (construct.set_head (ascii "a") (ascii " x")) := by
  have hlist : (construct.set_head (ascii "a") (ascii " x")).headers.toList =
      [(ascii "a", [ascii " x"])] := by
    decide
  have hbuilt : Built (construct.set_head (ascii "a") (ascii " x")) :=
    .step (l := .set_head (ascii "a") (ascii " x")) .init trivial rfl
  have hclean : Clean (construct.set_head (ascii "a") (ascii " x")) :=
    clean_single hlist ⟨by decide, by decide, by decide,
      by decide, by decide, by decide⟩
  refine ⟨hbuilt, hclean, ?_⟩
  intro htrips
  have hvalue := ((round_trips_iff_entries hbuilt hclean).mp htrips).2 [] _ [] hlist
  revert hvalue
  decide

end Header

end Pump
