import Pump.Http.RoundTrip

/-! # Request lines

    The lines that `request::__parse_start_line` accepts: a method, a path,
    parameters behind a `?` if there are any, and a version. What stands
    behind the version is not looked at. -/

namespace Pump

open HttpMethod HttpVersion

/-! ## Section 1: The grammar -/

/-- What stands in front of the version. -/
structure RequestTarget where
  method : HttpMethod
  path : Bytes
  params : Option Bytes
  deriving DecidableEq

namespace RequestTarget

/-- The parameters with their `?`. -/
def query_text (t : RequestTarget) : Bytes :=
  match t.params with
  | none => []
  | some raw => 63 :: raw

/-- `METHOD SP path [? params] SP`. -/
def text (t : RequestTarget) : Bytes :=
  t.method.string ++ 32 :: (t.path ++ (t.query_text ++ [32]))

/-- The delimiters are where they should be. -/
structure Shaped (t : RequestTarget) : Prop where
  method_known : t.method ≠ METHOD_UNKNOWN
  path_ne : t.path ≠ []
  path_chars : ∀ c ∈ t.path, c ≠ 32 ∧ c ≠ 63
  params_ne : t.params ≠ some []
  params_chars : ∀ raw, t.params = some raw → (32 : UInt8) ∉ raw

/-- The parameters decode to an even number of tokens, and not to none. -/
def Decodes (t : RequestTarget) : Prop :=
  ∀ raw, t.params = some raw → ∃ params, url_decode raw = some params ∧
    (split_string params Pump.param_sep).length ≠ 0 ∧
    (split_string params Pump.param_sep).length % 2 = 0

end RequestTarget

/-- A request line. -/
structure RequestLine where
  target : RequestTarget
  version : HttpVersion

namespace RequestLine

def text (l : RequestLine) : Bytes := l.target.text ++ l.version.string

structure Valid (l : RequestLine) : Prop where
  shaped : l.target.Shaped
  decodes : l.target.Decodes
  version_known : l.version ≠ VERSION_UNKNOWN

end RequestLine

/-- The line is a request line and its `\r\n`. -/
def IsRequestLine (line : Bytes) : Prop :=
  ∃ l : RequestLine, l.Valid ∧ line = l.text ++ http_crlf

namespace Request

/-! ## Section 2: Cutting a line at its delimiters -/

/-- The target whose path has ended at `pos`, and the rest. -/
def split_params (method : HttpMethod) (path pos : Bytes) : Option (RequestTarget × Bytes) :=
  match pos with
  | 63 :: pos =>
    let raw := pos.takeWhile (· ≠ 32)
    let pos := pos.dropWhile (· ≠ 32)
    if raw = [] ∨ pos = [] then none else some (⟨method, path, some raw⟩, pos.drop 1)
  | _ => some (⟨method, path, none⟩, pos.drop 1)

/-- The method, path and parameters at the start of a line, and the rest. -/
def split_target (line : Bytes) : Option (RequestTarget × Bytes) :=
  match parse_method line with
  | none => none
  | some (method, pos) =>
    let path := pos.takeWhile fun c => c ≠ 32 && c ≠ 63
    let pos := pos.dropWhile fun c => c ≠ 32 && c ≠ 63
    if path = [] ∨ pos = [] then none else split_params method path pos

theorem split_params_path (method : HttpMethod) (path : Bytes) {c : UInt8} (hc : c ≠ 63)
    (rest : Bytes) :
    split_params method path (c :: rest) = some (⟨method, path, none⟩, rest) := by
  unfold split_params
  split
  · next heq =>
    cases heq
    exact absurd rfl hc
  · rfl

/-- A comparison with a word and the end of the line. -/
theorem of_starts_with {pos word : Bytes} (h : starts_with pos word = true) :
    pos = word ++ pos.drop word.length := by
  simp only [starts_with, Bool.and_eq_true, decide_eq_true_eq, List.isPrefixOf_iff_prefix] at h
  obtain ⟨rest, hrest⟩ := h.2
  rw [← hrest, List.drop_left]

theorem parse_method_some {line pos : Bytes} {m : HttpMethod} (h : parse_method line = some (m, pos)) :
    m ≠ METHOD_UNKNOWN ∧ line = m.string ++ 32 :: pos := by
  have hword : ∀ {word : Bytes}, starts_with line word = true → ∀ {k : Nat}, k = word.length →
      line = word ++ line.drop k := by
    intro word hw k hk
    rw [hk]
    exact of_starts_with hw
  unfold parse_method at h
  split at h
  · next hw =>
    cases h
    exact ⟨nofun, hword hw rfl⟩
  · split at h
    · next hw =>
      cases h
      exact ⟨nofun, hword hw rfl⟩
    · split at h
      · next hw =>
        cases h
        exact ⟨nofun, hword hw rfl⟩
      · split at h
        · next hw =>
          cases h
          exact ⟨nofun, hword hw rfl⟩
        · split at h
          · next hw =>
            cases h
            exact ⟨nofun, hword hw rfl⟩
          · cases h

/-- **Cutting.** It finds the target a line begins with, if there is one. -/
theorem split_target_iff {line rest : Bytes} {t : RequestTarget} :
    split_target line = some (t, rest) ↔ t.Shaped ∧ line = t.text ++ rest := by
  constructor
  · intro h
    unfold split_target at h
    split at h
    · cases h
    · next m pos hmethod =>
      obtain ⟨hm, hline⟩ := parse_method_some hmethod
      simp only at h
      split at h
      · cases h
      · next hne =>
        rw [not_or] at hne
        obtain ⟨path, c, rest₁, hpos, htake, hcut, hpath, hc⟩ := cut_at hne.2
        have hpath : ∀ d ∈ path, d ≠ 32 ∧ d ≠ 63 := fun d hd => by simpa using hpath d hd
        rw [htake] at hne h
        rw [hcut] at h
        unfold split_params at h
        split at h
        · next raw_pos heq =>
          -- a `?`
          cases heq
          simp only at h
          split at h
          · cases h
          · next hraw =>
            rw [not_or] at hraw
            obtain ⟨raw, d, rest₂, hpos', htake', hcut', hrawc, hd⟩ := cut_at hraw.2
            have hd32 : d = 32 := by simpa using hd
            rw [htake'] at hraw h
            rw [hcut'] at h
            cases h
            refine ⟨⟨hm, hne.1, hpath, ?_, ?_⟩, ?_⟩
            · intro hnil
              exact hraw.1 (Option.some.inj hnil)
            · rintro raw' ⟨⟩ hmem
              simpa using hrawc 32 hmem
            · rw [hline, hpos, hpos', hd32]
              simp [RequestTarget.text, RequestTarget.query_text]
        · next hno =>
          have hc32 : c = 32 := by
            have hc63 : c ≠ 63 := by
              rintro rfl
              exact hno rest₁ rfl
            simpa [hc63] using hc
          cases h
          refine ⟨⟨hm, hne.1, hpath, nofun, nofun⟩, ?_⟩
          rw [hline, hpos, hc32]
          simp [RequestTarget.text, RequestTarget.query_text]
  · rintro ⟨h, rfl⟩
    obtain ⟨method, path, params⟩ := t
    obtain ⟨c, path', hpath'⟩ := List.exists_cons_of_ne_nil h.path_ne
    have hall : ∀ d ∈ path, (d ≠ 32 && d ≠ 63) = true := by
      intro d hd
      have hd' : d ≠ 32 ∧ d ≠ 63 := h.path_chars d hd
      simp [hd']
    have hmethod : ∀ tail, parse_method (method.string ++ 32 :: (path ++ tail)) =
        some (method, path ++ tail) := by
      intro tail
      replace hpath' : path = c :: path' := hpath'
      rw [hpath']
      exact parse_method_string h.method_known
    have hpath_ne : path ≠ [] := h.path_ne
    rcases params with _ | raw
    · have htext : RequestTarget.text ⟨method, path, none⟩ ++ rest =
          method.string ++ 32 :: (path ++ 32 :: rest) := by
        simp [RequestTarget.text, RequestTarget.query_text]
      obtain ⟨htake, hdrop⟩ := scan_stops rest hall (c := 32) (by decide)
      unfold split_target
      rw [htext, hmethod]
      simp only [htake, hdrop]
      rw [if_neg (by simp [hpath_ne])]
      rfl
    · have htext : RequestTarget.text ⟨method, path, some raw⟩ ++ rest =
          method.string ++ 32 :: (path ++ 63 :: (raw ++ 32 :: rest)) := by
        simp [RequestTarget.text, RequestTarget.query_text]
      have hraw_ne : raw ≠ [] := by
        rintro rfl
        exact h.params_ne rfl
      have hrawall : ∀ d ∈ raw, decide (d ≠ 32) = true := by
        intro d hd
        rw [decide_eq_true_eq]
        rintro rfl
        exact h.params_chars raw rfl hd
      obtain ⟨htake, hdrop⟩ := scan_stops (raw ++ 32 :: rest) hall (c := 63) (by decide)
      obtain ⟨htake', hdrop'⟩ := scan_stops rest hrawall (c := 32) (by decide)
      unfold split_target
      rw [htext, hmethod]
      simp only [htake, hdrop]
      rw [if_neg (by simp [hpath_ne])]
      unfold split_params
      simp only [htake', hdrop']
      rw [if_neg (by simp [hraw_ne])]
      rfl

/-! ## Section 3: The parser -/

theorem parse_http_version_some {pos : Bytes} {v : HttpVersion} (h : parse_http_version pos = some v) :
    v ≠ VERSION_UNKNOWN ∧ ∃ tail, pos = v.string ++ tail := by
  have hword : ∀ {word : Bytes}, word.isPrefixOf pos = true → ∃ tail, pos = word ++ tail := by
    intro word hw
    obtain ⟨tail, htail⟩ := List.isPrefixOf_iff_prefix.mp hw
    exact ⟨tail, htail.symm⟩
  unfold parse_http_version at h
  split at h
  · next hw =>
    cases h
    exact ⟨nofun, hword hw⟩
  · split at h
    · next hw =>
      cases h
      exact ⟨nofun, hword hw⟩
    · split at h
      · next hw =>
        cases h
        exact ⟨nofun, hword hw⟩
      · cases h

/-- The loop over the parameters takes them two at a time. -/
theorem set_params_isSome (u : Uri) (vals : List Bytes) :
    (u.set_params vals).isSome = true ↔ vals.length % 2 = 0 := by
  induction u, vals using Uri.set_params.induct with
  | case1 u => exact iff_of_true rfl rfl
  | case2 u key => exact iff_of_false nofun (by simp)
  | case3 u key value vals ih =>
    rw [Uri.set_params, ih, List.length_cons, List.length_cons]
    omega

/-- `parse_params` behind a path that ends at a `?`. -/
theorem parse_params_query (u : Uri) {raw : Bytes} (hne : raw ≠ []) (hraw : (32 : UInt8) ∉ raw)
    (rest : Bytes) :
    parse_params u (63 :: (raw ++ 32 :: rest)) =
      ((url_decode raw).bind fun params =>
        u.set_params (split_string params param_sep)).map fun u => (u, 32 :: rest) := by
  have hall : ∀ d ∈ raw, decide (d ≠ 32) = true := by
    intro d hd
    rw [decide_eq_true_eq]
    rintro rfl
    exact hraw hd
  obtain ⟨htake, hdrop⟩ := scan_stops rest hall (c := 32) (by decide)
  unfold parse_params
  simp only [htake, hdrop]
  rw [if_neg (by simp [hne])]
  rcases url_decode raw with _ | params
  · rfl
  · rcases hset : u.set_params (split_string params param_sep) with _ | u'
    · simp [hset]
    · simp [hset]

theorem decodes_some {t : RequestTarget} {raw : Bytes} (ht : t.params = some raw) (u : Uri) :
    t.Decodes ↔ ((url_decode raw).bind fun params =>
      u.set_params (split_string params param_sep)).isSome = true := by
  have hone : t.Decodes ↔ ∃ params, url_decode raw = some params ∧
      (split_string params param_sep).length ≠ 0 ∧
      (split_string params param_sep).length % 2 = 0 := by
    constructor
    · intro h
      exact h raw ht
    · intro h raw' hraw'
      rw [ht, Option.some.injEq] at hraw'
      exact hraw' ▸ h
  rw [hone]
  rcases hdec : url_decode raw with _ | params
  · simp
  · have hne : (split_string params param_sep).length ≠ 0 := by
      rw [ne_eq, List.length_eq_zero_iff]
      exact split_string_ne_nil params param_sep
    rw [Option.bind_some, set_params_isSome]
    constructor
    · rintro ⟨_, ⟨⟩, -, heven⟩
      exact heven
    · intro heven
      exact ⟨params, rfl, hne, heven⟩

/-- Behind the path, the parameters decode and a space follows, or the line
    is refused. -/
theorem parse_params_cases (u : Uri) (m : HttpMethod) (path : Bytes) {c : UInt8} (rest₁ : Bytes)
    (hc : c = 32 ∨ c = 63) :
    (parse_params u (c :: rest₁) = none ∧
      ∀ t rest, split_params m path (c :: rest₁) = some (t, rest) → ¬ t.Decodes) ∨
    ∃ u' t rest, parse_params u (c :: rest₁) = some (u', 32 :: rest) ∧
      split_params m path (c :: rest₁) = some (t, rest) ∧ t.Decodes := by
  rcases hc with rfl | rfl
  · exact Or.inr ⟨u, ⟨m, path, none⟩, rest₁, rfl, split_params_path m path (by decide) rest₁,
      by simp [RequestTarget.Decodes]⟩
  · by_cases hraw : rest₁.takeWhile (fun d => decide (d ≠ 32)) = [] ∨
        rest₁.dropWhile (fun d => decide (d ≠ 32)) = []
    · left
      constructor
      · unfold parse_params
        simp only
        rw [if_pos hraw]
      · intro t rest hsplit
        simp only [split_params] at hsplit
        rw [if_pos hraw] at hsplit
        cases hsplit
    -- the parameters end at the next space
    · obtain ⟨raw, d, rest₂, hrest₁, htake, hcut, hall, hd⟩ := cut_at (not_or.mp hraw).2
      have hd32 : d = 32 := by simpa using hd
      have hrawne : raw ≠ [] := by
        rw [← htake]
        exact (not_or.mp hraw).1
      have hmem : (32 : UInt8) ∉ raw := fun hmem => by simpa using hall 32 hmem
      have hsplit : split_params m path (63 :: rest₁) = some (⟨m, path, some raw⟩, rest₂) := by
        simp only [split_params]
        rw [if_neg hraw, htake, hcut]
        rfl
      have hdec := decodes_some (t := ⟨m, path, some raw⟩) rfl u
      rw [hsplit, hrest₁, hd32, parse_params_query u hrawne hmem]
      rcases hset : (url_decode raw).bind fun params =>
        u.set_params (split_string params param_sep) with _ | u'
      · left
        refine ⟨rfl, ?_⟩
        rintro t rest ht hdecodes
        cases ht
        rw [hset] at hdec
        exact absurd (hdec.mp hdecodes) (by simp)
      · right
        rw [hset] at hdec
        exact ⟨u', _, rest₂, rfl, rfl, hdec.mpr rfl⟩

/-- A path ends at a space or at a `?`. -/
theorem path_end {pos : Bytes} (h : (pos.dropWhile fun c => c ≠ 32 && c ≠ 63) ≠ []) :
    ∃ c rest, (pos.dropWhile fun c => c ≠ 32 && c ≠ 63) = c :: rest ∧ (c = 32 ∨ c = 63) := by
  obtain ⟨path, c, rest, -, -, hcut, -, hc⟩ := cut_at h
  refine ⟨c, rest, hcut, ?_⟩
  by_cases h32 : c = 32
  · exact Or.inl h32
  · exact Or.inr (by simpa [h32] using hc)

/-- **The parser.** A line is accepted if it begins with a target whose
    parameters decode and goes on with a version. -/
theorem parse_line_iff (r : RequestFields) (version : HttpVersion) (line : Bytes) :
    (parse_line r version line).1 = true ↔
      ∃ t rest, split_target line = some (t, rest) ∧ t.Decodes ∧
        (parse_http_version rest).isSome = true := by
  unfold parse_line split_target
  rcases parse_method line with _ | ⟨m, pos⟩
  · simp
  simp only
  by_cases hnil : (pos.takeWhile fun c => c ≠ 32 && c ≠ 63) = [] ∨
      (pos.dropWhile fun c => c ≠ 32 && c ≠ 63) = []
  · rw [if_pos hnil, if_pos hnil]
    simp
  rw [if_neg hnil, if_neg hnil]
  obtain ⟨c, rest₁, hcut, hc⟩ := path_end (not_or.mp hnil).2
  rw [hcut]
  rcases parse_params_cases (r.uri.set_path (pos.takeWhile fun c => c ≠ 32 && c ≠ 63)) m
    (pos.takeWhile fun c => c ≠ 32 && c ≠ 63) rest₁ hc with ⟨hnone, hno⟩ | ⟨u, t, rest, hp, hs, hdec⟩
  · rw [hnone]
    refine iff_of_false nofun ?_
    rintro ⟨t, rest, hs, hdec, -⟩
    exact hno t rest hs hdec
  · -- what is left of the question is the version
    rw [hp, hs]
    simp only [List.drop_succ_cons, List.drop_zero]
    rcases hv : parse_http_version rest with _ | v
    · refine iff_of_false nofun ?_
      rintro ⟨t', rest', ht, -, hsome⟩
      cases ht
      rw [hv] at hsome
      cases hsome
    · exact iff_of_true rfl ⟨t, rest, rfl, hdec, by rw [hv]; rfl⟩

/-! ## Section 4: What is accepted -/

/-- The lines the parser accepts, whatever stands behind the version. -/
theorem accepts_iff (r : RequestFields) (version : HttpVersion) (line : Bytes) :
    (parse_line r version line).1 = true ↔
      ∃ (l : RequestLine) (tail : Bytes), l.Valid ∧ line = l.text ++ tail := by
  rw [parse_line_iff]
  constructor
  · rintro ⟨t, rest, hsplit, hdec, hversion⟩
    obtain ⟨hshaped, hline⟩ := split_target_iff.mp hsplit
    obtain ⟨v, hv⟩ := Option.isSome_iff_exists.mp hversion
    obtain ⟨hknown, tail, hrest⟩ := parse_http_version_some hv
    refine ⟨⟨t, v⟩, tail, ⟨hshaped, hdec, hknown⟩, ?_⟩
    rw [hline, hrest, RequestLine.text, List.append_assoc]
  · rintro ⟨⟨t, v⟩, tail, hvalid, hline⟩
    rw [RequestLine.text, List.append_assoc] at hline
    refine ⟨t, v.string ++ tail, split_target_iff.mpr ⟨hvalid.shaped, hline⟩, hvalid.decodes, ?_⟩
    rw [parse_version_string hvalid.version_known]
    rfl

theorem version_length {v : HttpVersion} (hv : v ≠ VERSION_UNKNOWN) : v.string.length = 8 := by
  cases v with
  | VERSION_UNKNOWN => exact absurd rfl hv
  | VERSION_10 => rfl
  | VERSION_11 => rfl
  | VERSION_20 => rfl

/-- What stands behind the version of a line is determined. -/
theorem tail_unique {l l' : RequestLine} {tail tail' : Bytes} (h : l.Valid) (h' : l'.Valid)
    (heq : l.text ++ tail = l'.text ++ tail') : tail = tail' := by
  have hsplit : split_target (l.text ++ tail) = some (l.target, l.version.string ++ tail) := by
    apply split_target_iff.mpr
    exact ⟨h.shaped, by rw [RequestLine.text, List.append_assoc]⟩
  have hsplit' : split_target (l.text ++ tail) = some (l'.target, l'.version.string ++ tail') := by
    apply split_target_iff.mpr
    exact ⟨h'.shaped, by rw [heq, RequestLine.text, List.append_assoc]⟩
  rw [hsplit, Option.some.injEq, Prod.mk.injEq] at hsplit'
  have hlen : l.version.string.length = l'.version.string.length := by
    rw [version_length h.version_known, version_length h'.version_known]
  exact (List.append_inj hsplit'.2 hlen).2

/-- `__parse_start_line` returns the length of the line if it is a request
    line, and `-1` if it is not. -/
def AcceptsExactly (r : Request) (b : Bytes) (n : Nat) : Prop :=
  ((∃ r', Packet.parse_start_line kind r b = .took n r') ↔ IsRequestLine (b.take n)) ∧
  (¬ IsRequestLine (b.take n) → ∃ r', Packet.parse_start_line kind r b = .failed r')

/-- With a complete line, the parser takes it or fails. -/
theorem parse_start_line_cases (r : Request) {b : Bytes} {n : Nat}
    (h : find_http_line_end b = some n) :
    ((parse_line r.fields r.version (b.take n)).1 = true ∧
      ∃ r', Packet.parse_start_line kind r b = .took n r') ∨
    ((parse_line r.fields r.version (b.take n)).1 = false ∧
      ∃ r', Packet.parse_start_line kind r b = .failed r') := by
  obtain ⟨r', hr'⟩ : ∃ r' : Request, r' = { r with
      fields := (parse_line r.fields r.version (b.take n)).2.1
      version := (parse_line r.fields r.version (b.take n)).2.2 } := ⟨_, rfl⟩
  have heq : Packet.parse_start_line kind r b =
      if (parse_line r.fields r.version (b.take n)).1 then .took n r' else .failed r' := by
    unfold Packet.parse_start_line
    rw [h, hr']
    rfl
  rw [heq]
  rcases (parse_line r.fields r.version (b.take n)).1 with _ | _
  · exact Or.inr ⟨rfl, r', rfl⟩
  · exact Or.inl ⟨rfl, r', rfl⟩

/-- **The request line.** The parser accepts exactly the request lines among
    the lines that have nothing between the version and the `\r\n`. -/
theorem accepts_exactly_iff (r : Request) (b : Bytes) (n : Nat)
    (h : find_http_line_end b = some n) :
    AcceptsExactly r b n ↔
      ∀ (l : RequestLine) (tail : Bytes), l.Valid → b.take n = l.text ++ tail → tail = http_crlf := by
  have hacc := accepts_iff r.fields r.version (b.take n)
  constructor
  · rintro ⟨hiff, -⟩ l tail hvalid hline
    rcases parse_start_line_cases r h with ⟨-, htook⟩ | ⟨hfalse, -⟩
    · obtain ⟨l', hvalid', hline'⟩ := hiff.mp htook
      exact tail_unique hvalid hvalid' (hline.symm.trans hline')
    · rw [hacc.mpr ⟨l, tail, hvalid, hline⟩] at hfalse
      cases hfalse
  · intro hall
    rcases parse_start_line_cases r h with ⟨htrue, htook⟩ | ⟨hfalse, hfailed⟩
    · obtain ⟨l, tail, hvalid, hline⟩ := hacc.mp htrue
      have hline' : IsRequestLine (b.take n) := ⟨l, hvalid, by rw [hline, hall l tail hvalid hline]⟩
      exact ⟨iff_of_true htook hline', fun hno => absurd hline' hno⟩
    · have hno : ¬ IsRequestLine (b.take n) := by
        rintro ⟨l, hvalid, hline⟩
        rw [hacc.mpr ⟨l, http_crlf, hvalid, hline⟩] at hfalse
        cases hfalse
      refine ⟨iff_of_false ?_ hno, fun _ => hfailed⟩
      rintro ⟨r', htook⟩
      obtain ⟨r'', hfailed⟩ := hfailed
      rw [hfailed] at htook
      cases htook

/-- `GET / HTTP/1.1`. -/
theorem accepts_exactly_get :
    AcceptsExactly construct (ascii "GET / HTTP/1.1\r\n") 16 ↔
      ∀ (l : RequestLine) (tail : Bytes), l.Valid →
        (ascii "GET / HTTP/1.1\r\n").take 16 = l.text ++ tail → tail = http_crlf :=
  accepts_exactly_iff construct (ascii "GET / HTTP/1.1\r\n") 16 (by decide)

/-- `GET / HTTP/1.1x` is accepted. -/
theorem not_accepts_exactly :
    find_http_line_end (ascii "GET / HTTP/1.1x\r\n") = some 17 ∧
    (∃ r', Packet.parse_start_line kind construct (ascii "GET / HTTP/1.1x\r\n") = .took 17 r') ∧
    ¬ IsRequestLine ((ascii "GET / HTTP/1.1x\r\n").take 17) := by
  have hfind : find_http_line_end (ascii "GET / HTTP/1.1x\r\n") = some 17 := by decide
  have hsplit : split_target ((ascii "GET / HTTP/1.1x\r\n").take 17) =
      some (⟨METHOD_GET, [47], none⟩, ascii "HTTP/1.1x\r\n") := by decide
  refine ⟨hfind, ?_, ?_⟩
  · rcases parse_start_line_cases construct hfind with ⟨-, htook⟩ | ⟨hfalse, -⟩
    · exact htook
    · rw [(parse_line_iff _ _ _).mpr ⟨_, _, hsplit, nofun, by decide⟩] at hfalse
      cases hfalse
  · rintro ⟨l, hvalid, hline⟩
    have hsplit' : split_target ((ascii "GET / HTTP/1.1x\r\n").take 17) =
        some (l.target, l.version.string ++ http_crlf) := by
      apply split_target_iff.mpr
      exact ⟨hvalid.shaped, by rw [hline, RequestLine.text, List.append_assoc]⟩
    rw [hsplit, Option.some.injEq, Prod.mk.injEq] at hsplit'
    -- eleven bytes are not eight and a line end
    have hlen := congrArg List.length hsplit'.2
    rw [List.length_append, version_length hvalid.version_known] at hlen
    exact absurd hlen (by decide)

end Request

end Pump
