import Pump.Regex
import Pump.Http.Query

/-! # Urls

    `uri::parse` and `uri::to_url`, and which urls come back from the text of
    the uri they make. -/

namespace Pump

open Regex

/-! ## Section 1: Model -/

/-- `\w`. -/
def is_word (c : UInt8) : Bool := isalnum c || c = 95

def is_digit (c : UInt8) : Bool := 48 ≤ c && c ≤ 57

/-- `[-\w~@#$%&+=|.]` -/
def host_char (c : UInt8) : Bool := is_word c || (ascii "-~@#$%&+=|.").contains c

/-- `[-\w~@#$%&+=|./]` -/
def path_char (c : UInt8) : Bool := is_word c || (ascii "-~@#$%&+=|./").contains c

/-- `[\w~!@#$%&+=|:;,.]` -/
def param_char (c : UInt8) : Bool := is_word c || (ascii "~!@#$%&+=|:;,.").contains c

/-- `https?` and its like. -/
def scheme_word (w : Bytes) (c : UInt8) : Regex UInt8 := seq (word w) (opt (word [c]))

/-- `(https?|HTTPS?|wss?|WSS?)://` in its group; `reg_proto` makes it
    optional. -/
def reg_proto : Regex UInt8 :=
  group 1 (seq
    (group 2 (alt (scheme_word (ascii "http") 115) (alt (scheme_word (ascii "HTTP") 83)
      (alt (scheme_word (ascii "ws") 115) (scheme_word (ascii "WS") 83)))))
    (word (ascii "://")))

/-- `([-\w~@#$%&+=|.]+(:[\d]{0,5})?)` -/
def reg_host : Regex UInt8 :=
  group 3 (seq (seq (one host_char) (many host_char))
    (opt (group 4 (seq (word [58]) (upto 5 is_digit)))))

/-- `(/[-\w~@#$%&+=|./]*)?` -/
def reg_path : Regex UInt8 := opt (group 5 (seq (word [47]) (many path_char)))

/-- `(\?([\w~!@#$%&+=|:;,.]*))?` -/
def reg_param : Regex UInt8 := opt (group 6 (seq (word [63]) (group 7 (many param_char))))

def reg : Regex UInt8 := seq (opt reg_proto) (seq reg_host (seq reg_path reg_param))

namespace Uri

def uri_http : Bytes := ascii "http"

/-- `uri::parse`. -/
def parse (u : Uri) (url : Bytes) : Bool × Uri :=
  match regex_match reg url with
  | none => (false, u)
  | some sm =>
    let u := { u with tp := ((sm.lookup 2).map (·.map tolower)).getD uri_http }
    match sm.lookup 3 with
    | none => (false, u)
    | some host =>
      let u := u.set_host host
      let u := u.set_path ((sm.lookup 5).getD (ascii "/"))
      match sm.lookup 6 with
      | none => (true, u)
      | some raw_params =>
        match url_decode raw_params with
        | none => (false, u)
        | some new_params =>
          match u.set_params (split_string new_params param_sep) with
          | none => (false, u)
          | some u => (true, u)

/-- `uri::to_url`. -/
def to_url (u : Uri) : Bytes :=
  if u.tp = [] then []
  else
    let url := u.tp ++ ascii "://" ++ u.host ++ u.path
    let param_val := u.params.toList.map fun p => p.1 ++ ascii "=" ++ p.2
    if param_val = [] then url else url ++ ascii "?" ++ join_strings param_val (ascii "&")

end Uri

/-! ## Section 2: The parts of a url -/

/-- The texts of the optional scheme. -/
def schemes : List Bytes :=
  [ascii "https", ascii "http", ascii "HTTPS", ascii "HTTP", ascii "wss", ascii "ws", ascii "WSS",
    ascii "WS"]

theorem parses_scheme_word {w : Bytes} {c : UInt8} {s : Bytes} {sm : Captures UInt8} :
    Parses (scheme_word w c) s sm ↔ (s = w ++ [c] ∨ s = w) ∧ sm = [] := by
  constructor
  · rintro ⟨s₁, s₂, sm₁, sm₂, rfl, rfl, h₁, h₂⟩
    obtain ⟨rfl, rfl⟩ := parses_word_iff.mp h₁
    rcases h₂ with h₂ | ⟨rfl, rfl⟩
    · obtain ⟨rfl, rfl⟩ := parses_word_iff.mp h₂
      exact ⟨Or.inl rfl, rfl⟩
    · exact ⟨Or.inr (List.append_nil _), rfl⟩
  · rintro ⟨rfl | rfl, rfl⟩
    · exact ⟨w, [c], [], [], rfl, rfl, parses_word_iff.mpr ⟨rfl, rfl⟩,
        Or.inl (parses_word_iff.mpr ⟨rfl, rfl⟩)⟩
    · exact ⟨s, [], [], [], (List.append_nil _).symm, rfl, parses_word_iff.mpr ⟨rfl, rfl⟩,
        Or.inr ⟨rfl, rfl⟩⟩

theorem mem_schemes_iff (t : Bytes) :
    t ∈ schemes ↔
      (t = ascii "http" ++ [115] ∨ t = ascii "http") ∨ (t = ascii "HTTP" ++ [83] ∨ t = ascii "HTTP") ∨
        (t = ascii "ws" ++ [115] ∨ t = ascii "ws") ∨ t = ascii "WS" ++ [83] ∨ t = ascii "WS" := by
  have hs : ascii "https" = ascii "http" ++ [115] ∧ ascii "HTTPS" = ascii "HTTP" ++ [83] ∧
      ascii "wss" = ascii "ws" ++ [115] ∧ ascii "WSS" = ascii "WS" ++ [83] := by
    decide
  simp only [schemes, List.mem_cons, List.not_mem_nil, or_false, hs, or_assoc]

theorem parses_proto_iff {s : Bytes} {sm : Captures UInt8} :
    Parses reg_proto s sm ↔ ∃ t ∈ schemes, s = t ++ ascii "://" ∧ sm = [(1, s), (2, t)] := by
  have hword : ∀ (t : Bytes) (sm : Captures UInt8),
      Parses (alt (scheme_word (ascii "http") 115) (alt (scheme_word (ascii "HTTP") 83)
        (alt (scheme_word (ascii "ws") 115) (scheme_word (ascii "WS") 83)))) t sm ↔
      t ∈ schemes ∧ sm = [] := by
    intro t sm
    rw [mem_schemes_iff]
    simp only [Parses, parses_scheme_word, or_and_right]
  constructor
  · rintro ⟨sm', rfl, t, s₂, sm₁, sm₂, rfl, rfl, ⟨sm₃, rfl, ht⟩, h₂⟩
    obtain ⟨rfl, rfl⟩ := parses_word_iff.mp h₂
    obtain ⟨hmem, rfl⟩ := (hword t sm₃).mp ht
    exact ⟨t, hmem, rfl, rfl⟩
  · rintro ⟨t, hmem, rfl, rfl⟩
    exact ⟨[(2, t)], rfl, t, ascii "://", [(2, t)], [], rfl, rfl,
      ⟨[], rfl, (hword t []).mpr ⟨hmem, rfl⟩⟩, parses_word_iff.mpr ⟨rfl, rfl⟩⟩

theorem host_char_ne : ∀ c, host_char c = true → c ≠ 47 ∧ c ≠ 63 := by
  have hmarks : ascii "-~@#$%&+=|." = [45, 126, 64, 35, 36, 37, 38, 43, 61, 124, 46] := by
    decide
  unfold host_char
  rw [hmarks]
  apply forall_byte
  decide

theorem path_char_ne : ∀ c, path_char c = true → c ≠ 63 := by
  have hmarks : ascii "-~@#$%&+=|./" = [45, 126, 64, 35, 36, 37, 38, 43, 61, 124, 46, 47] := by
    decide
  unfold path_char
  rw [hmarks]
  apply forall_byte
  decide

theorem param_char_ne : ∀ c, param_char c = true → c ≠ 63 := by
  have hmarks : ascii "~!@#$%&+=|:;,." =
      [126, 33, 64, 35, 36, 37, 38, 43, 61, 124, 58, 59, 44, 46] := by
    decide
  unfold param_char
  rw [hmarks]
  apply forall_byte
  decide

/-- A host has neither `/` nor `?`. -/
theorem parses_host {s : Bytes} {sm : Captures UInt8} (h : Parses reg_host s sm) :
    s ≠ [] ∧ (∀ c ∈ s, c ≠ 47 ∧ c ≠ 63) ∧
      (sm = [(3, s)] ∨ ∃ port, sm = [(3, s), (4, port)]) := by
  obtain ⟨sm', rfl, s₁, s₂, sm₁, sm₂, rfl, rfl,
    ⟨s₃, s₄, sm₃, sm₄, rfl, rfl, ⟨⟨c, rfl, hc⟩, rfl⟩, hmany, rfl⟩, hport⟩ := h
  have hname : ∀ d ∈ [c] ++ s₄, d ≠ 47 ∧ d ≠ 63 := by
    intro d hd
    rcases List.mem_append.mp hd with hd | hd
    · rw [List.mem_singleton.mp hd]
      exact host_char_ne c hc
    · exact host_char_ne d (hmany d hd)
  refine ⟨by simp, ?_⟩
  rcases hport with ⟨sm', rfl, s₅, s₆, sm₅, sm₆, rfl, rfl, hcolon, -, hdigits, rfl⟩ | ⟨rfl, rfl⟩
  · obtain ⟨rfl, rfl⟩ := parses_word_iff.mp hcolon
    refine ⟨?_, Or.inr ⟨_, rfl⟩⟩
    intro d hd
    rcases List.mem_append.mp hd with hd | hd
    · exact hname d hd
    · rcases List.mem_append.mp hd with hd | hd
      · rw [List.mem_singleton.mp hd]
        decide
      · have hdigit := hdigits d hd
        constructor
        · rintro rfl
          exact absurd hdigit (by decide)
        · rintro rfl
          exact absurd hdigit (by decide)
  · rw [List.append_nil]
    exact ⟨hname, Or.inl rfl⟩

/-- A path starts with `/` and has no `?`. -/
theorem parses_path {s : Bytes} {sm : Captures UInt8} (h : Parses reg_path s sm) :
    (∀ c ∈ s, c ≠ 63) ∧
      ((s = [] ∧ sm = []) ∨ (∃ rest, s = 47 :: rest) ∧ sm = [(5, s)]) := by
  rcases h with ⟨sm', rfl, s₁, s₂, sm₁, sm₂, rfl, rfl, hslash, hmany, rfl⟩ | ⟨rfl, rfl⟩
  · obtain ⟨rfl, rfl⟩ := parses_word_iff.mp hslash
    refine ⟨?_, Or.inr ⟨⟨s₂, rfl⟩, rfl⟩⟩
    intro c hc
    rcases List.mem_append.mp hc with hc | hc
    · rw [List.mem_singleton.mp hc]
      decide
    · exact path_char_ne c (hmany c hc)
  · exact ⟨List.forall_mem_nil _, Or.inl ⟨rfl, rfl⟩⟩

/-- Parameters start with the one `?` they have. -/
theorem parses_param {s : Bytes} {sm : Captures UInt8} (h : Parses reg_param s sm) :
    (s = [] ∧ sm = []) ∨
      ∃ text, s = 63 :: text ∧ (63 : UInt8) ∉ text ∧ sm = [(6, s), (7, text)] := by
  rcases h with ⟨sm', rfl, s₁, s₂, sm₁, sm₂, rfl, rfl, hmark, sm₃, rfl, hmany, rfl⟩ | ⟨rfl, rfl⟩
  · obtain ⟨rfl, rfl⟩ := parses_word_iff.mp hmark
    refine Or.inr ⟨s₂, rfl, ?_, rfl⟩
    intro hmem
    exact param_char_ne 63 (hmany 63 hmem) rfl
  · exact Or.inl ⟨rfl, rfl⟩

/-- The parts of a url. -/
structure Parts where
  scheme : Option Bytes
  host : Bytes
  path : Bytes
  query : Bytes

namespace Parts

/-- The text of a scheme. -/
def lead : Option Bytes → Bytes
  | some t => t ++ ascii "://"
  | none => []

def text (x : Parts) : Bytes := lead x.scheme ++ (x.host ++ (x.path ++ x.query))

/-- The parts are ones that the expression matches. -/
structure Ok (x : Parts) : Prop where
  scheme : ∀ t, x.scheme = some t → t ∈ schemes
  host : ∃ sm, Parses reg_host x.host sm
  path : ∃ sm, Parses reg_path x.path sm
  query : ∃ sm, Parses reg_param x.query sm

/-- The groups show the parts. -/
structure Shown (x : Parts) (sm : Captures UInt8) : Prop where
  scheme : sm.lookup 2 = x.scheme
  host : sm.lookup 3 = some x.host
  path : sm.lookup 5 = if x.path = [] then none else some x.path
  query : sm.lookup 6 = if x.query = [] then none else some x.query

end Parts

/-- What follows the scheme. -/
theorem parses_rest {s : Bytes} {sm : Captures UInt8}
    (h : Parses (seq reg_host (seq reg_path reg_param)) s sm) :
    ∃ x : Parts, x.scheme = none ∧ x.Ok ∧ s = x.text ∧ x.Shown sm := by
  obtain ⟨host, s₂, sm₁, sm₂, rfl, rfl, hhost, path, query, sm₃, sm₄, rfl, rfl, hpath, hquery⟩ := h
  refine ⟨⟨none, host, path, query⟩, rfl,
    ⟨nofun, ⟨sm₁, hhost⟩, ⟨sm₃, hpath⟩, ⟨sm₄, hquery⟩⟩, rfl, ?_⟩
  have hshow : ∀ k, (sm₁ ++ (sm₃ ++ sm₄)).lookup k =
      (sm₁.lookup k).or ((sm₃.lookup k).or (sm₄.lookup k)) := by
    intro k
    rw [List.lookup_append, List.lookup_append]
  have h₁ : sm₁.lookup 2 = none ∧ sm₁.lookup 3 = some host ∧ sm₁.lookup 5 = none ∧
      sm₁.lookup 6 = none := by
    rcases (parses_host hhost).2.2 with rfl | ⟨port, rfl⟩ <;> exact ⟨rfl, rfl, rfl, rfl⟩
  have h₃ : sm₃.lookup 2 = none ∧ (sm₃.lookup 5 = if path = [] then none else some path) ∧
      sm₃.lookup 6 = none := by
    rcases (parses_path hpath).2 with ⟨rfl, rfl⟩ | ⟨⟨rest, rfl⟩, rfl⟩ <;> exact ⟨rfl, rfl, rfl⟩
  have h₄ : sm₄.lookup 2 = none ∧ sm₄.lookup 5 = none ∧
      (sm₄.lookup 6 = if query = [] then none else some query) := by
    rcases parses_param hquery with ⟨rfl, rfl⟩ | ⟨text, rfl, -, rfl⟩ <;> exact ⟨rfl, rfl, rfl⟩
  constructor
  · rw [hshow, h₁.1, h₃.1, h₄.1]
    rfl
  · rw [hshow, h₁.2.1]
    rfl
  · rw [hshow, h₁.2.2.1, h₃.2.1, h₄.2.1, Option.or_none]
    rfl
  · rw [hshow, h₁.2.2.2, h₃.2.2, h₄.2.2]
    rfl

/-- A scheme and what follows it. -/
theorem parses_schemed {s : Bytes} {sm : Captures UInt8}
    (h : Parses (seq reg_proto (seq reg_host (seq reg_path reg_param))) s sm) :
    ∃ x : Parts, x.scheme.isSome ∧ x.Ok ∧ s = x.text ∧ x.Shown sm := by
  obtain ⟨s₁, s₂, sm₁, sm₂, rfl, rfl, hproto, hrest⟩ := h
  obtain ⟨t, ht, rfl, rfl⟩ := parses_proto_iff.mp hproto
  obtain ⟨x, hnone, hok, rfl, hshown⟩ := parses_rest hrest
  refine ⟨{ x with scheme := some t }, rfl, ⟨?_, hok.host, hok.path, hok.query⟩, ?_, ?_⟩
  · intro t' ht'
    cases ht'
    exact ht
  · unfold Parts.text
    rw [hnone]
    rfl
  · exact ⟨rfl, hshown.host, hshown.path, hshown.query⟩

/-- **What the expression says of a url.** -/
theorem parses_reg {s : Bytes} {sm : Captures UInt8} (h : regex_match reg s = some sm) :
    ∃ x : Parts, x.Ok ∧ s = x.text ∧ x.Shown sm := by
  unfold reg at h
  rw [regex_match_seq_opt, Option.or_eq_some_iff] at h
  rcases h with h | ⟨-, h⟩
  · obtain ⟨x, -, hx⟩ := parses_schemed (regex_match_parses h)
    exact ⟨x, hx⟩
  · obtain ⟨x, -, hx⟩ := parses_rest (regex_match_parses h)
    exact ⟨x, hx⟩

/-- A url with a scheme is matched with it. -/
theorem Parts.Ok.match_schemed {x : Parts} (hok : x.Ok) (hscheme : x.scheme.isSome) :
    ∃ (sm : Captures UInt8) (y : Parts), regex_match reg x.text = some sm ∧ y.scheme.isSome ∧
      y.Ok ∧ x.text = y.text ∧ y.Shown sm := by
  obtain ⟨t, ht⟩ := Option.isSome_iff_exists.mp hscheme
  obtain ⟨smh, hhost⟩ := hok.host
  obtain ⟨smp, hpath⟩ := hok.path
  obtain ⟨smq, hquery⟩ := hok.query
  have hlead : Parses reg_proto (Parts.lead x.scheme) [(1, t ++ ascii "://"), (2, t)] :=
    parses_proto_iff.mpr ⟨t, hok.scheme t ht, by rw [ht]; rfl, by rw [ht]; rfl⟩
  have hparses : Parses (seq reg_proto (seq reg_host (seq reg_path reg_param))) x.text
      ([(1, t ++ ascii "://"), (2, t)] ++ (smh ++ (smp ++ smq))) :=
    ⟨_, _, _, _, rfl, rfl, hlead, _, _, _, _, rfl, rfl, hhost, _, _, _, _, rfl, rfl, hpath, hquery⟩
  obtain ⟨sm, hsm⟩ := exists_regex_match hparses
  obtain ⟨y, hy⟩ := parses_schemed (regex_match_parses hsm)
  refine ⟨sm, y, ?_, hy⟩
  unfold reg
  rw [regex_match_seq_opt, hsm]
  rfl

/-- No scheme has a `:`, or a `?`. -/
theorem schemes_chars : ∀ t ∈ schemes, (58 : UInt8) ∉ t ∧ (63 : UInt8) ∉ t ∧ t ≠ [] ∧
    t.map tolower ∈ schemes ∧ (t.map tolower).map tolower = t.map tolower := by
  decide

/-- Two urls with schemes and without parameters have the same text only if
    they have the same parts. -/
theorem Parts.text_inj {x y : Parts} (hx : x.Ok) (hy : y.Ok) (hsx : x.scheme.isSome)
    (hsy : y.scheme.isSome) (hqx : x.query = []) (hqy : y.query = []) (h : x.text = y.text) :
    x = y := by
  obtain ⟨xs, xh, xp, xq⟩ := x
  obtain ⟨ys, yh, yp, yq⟩ := y
  obtain ⟨t, rfl⟩ := Option.isSome_iff_exists.mp hsx
  obtain ⟨t', rfl⟩ := Option.isSome_iff_exists.mp hsy
  obtain rfl : xq = [] := hqx
  obtain rfl : yq = [] := hqy
  have hsep : ascii "://" = [58, 47, 47] := by decide
  -- the scheme ends at the first `:`
  have ht : t = t' := by
    have htake := congrArg (List.takeWhile (· ≠ (58 : UInt8))) h
    simp only [text, lead, hsep, List.append_assoc, List.cons_append] at htake
    rwa [takeWhile_ne_append (schemes_chars t (hx.scheme t rfl)).1 (Or.inr ⟨_, rfl⟩),
      takeWhile_ne_append (schemes_chars t' (hy.scheme t' rfl)).1 (Or.inr ⟨_, rfl⟩)] at htake
  subst ht
  -- and the host at the `/` of the path
  have hrest : xh ++ xp = yh ++ yp := by
    simp only [text, lead, List.append_nil] at h
    exact List.append_cancel_left h
  have hpath : ∀ {x : Parts}, x.Ok → x.path = [] ∨ ∃ rest, x.path = 47 :: rest := by
    intro x hx
    obtain ⟨sm, hsm⟩ := hx.path
    rcases (parses_path hsm).2 with ⟨hnil, -⟩ | ⟨hslash, -⟩
    · exact Or.inl hnil
    · exact Or.inr hslash
  have hhost : ∀ {x : Parts}, x.Ok → (47 : UInt8) ∉ x.host := by
    intro x hx hmem
    obtain ⟨sm, hsm⟩ := hx.host
    exact ((parses_host hsm).2.1 47 hmem).1 rfl
  have hh : xh = yh := by
    have htake := congrArg (List.takeWhile (· ≠ (47 : UInt8))) hrest
    rwa [takeWhile_ne_append (hhost hx) (hpath hx), takeWhile_ne_append (hhost hy) (hpath hy)]
      at htake
  subst hh
  rw [List.append_cancel_left hrest]

/-- The `?` of the parameters is the only one. -/
theorem Parts.Ok.count_mark {x : Parts} (hok : x.Ok) :
    x.text.count 63 = if x.query = [] then 0 else 1 := by
  have hlead : (Parts.lead x.scheme).count 63 = 0 := by
    rw [List.count_eq_zero]
    rcases hs : x.scheme with _ | t
    · exact List.not_mem_nil
    · have hsep : (63 : UInt8) ∉ ascii "://" := by decide
      have ht := (schemes_chars t (hok.scheme t hs)).2.1
      simp [Parts.lead, ht, hsep]
  have hhost : x.host.count 63 = 0 := by
    obtain ⟨sm, hsm⟩ := hok.host
    rw [List.count_eq_zero]
    exact fun hmem => ((parses_host hsm).2.1 63 hmem).2 rfl
  have hpath : x.path.count 63 = 0 := by
    obtain ⟨sm, hsm⟩ := hok.path
    rw [List.count_eq_zero]
    exact fun hmem => (parses_path hsm).1 63 hmem rfl
  have hquery : x.query.count 63 = if x.query = [] then 0 else 1 := by
    obtain ⟨sm, hsm⟩ := hok.query
    rcases parses_param hsm with ⟨hnil, -⟩ | ⟨text, hquery, hmark, -⟩
    · rw [hnil]
      rfl
    · rw [hquery, if_neg (List.cons_ne_nil _ _), List.count_cons_self,
        List.count_eq_zero.mpr hmark]
  unfold Parts.text
  rw [List.count_append, List.count_append, List.count_append, hlead, hhost, hpath, hquery]
  omega

/-! ## Section 3: There and back -/

/-- The first token starts with what the loop has of it. -/
theorem split_loop_head {sep : Separator} {skipping : Bool} {cur src : Bytes} (hcur : cur ≠ []) :
    ∃ t ts, split_loop sep skipping cur src = (cur ++ t) :: ts := by
  induction src generalizing skipping cur with
  | nil => exact ⟨[], [], by simp [split_loop, hcur]⟩
  | cons c src ih =>
    unfold split_loop
    split
    · exact ih hcur
    · split
      · exact ⟨[], _, by rw [List.append_nil]⟩
      · obtain ⟨t, ts, heq⟩ := @ih false (cur ++ [c]) (by simp)
        exact ⟨[c] ++ t, ts, by rw [heq, List.append_assoc]⟩

theorem mem_join_strings {vs : List Bytes} {sep v : Bytes} (hv : v ∈ vs) {c : UInt8} (hc : c ∈ v) :
    c ∈ join_strings vs sep := by
  induction vs with
  | nil => cases hv
  | cons w vs ih =>
    cases vs with
    | nil =>
      rw [List.mem_singleton.mp hv] at hc
      exact hc
    | cons w' vs =>
      simp only [join_strings, List.mem_append]
      rcases List.mem_cons.mp hv with rfl | hv
      · exact Or.inl (Or.inl hc)
      · exact Or.inr (ih hv)

namespace Uri

/-- A key that is set stays. -/
theorem set_params_key {u u' : Uri} {vals : List Bytes} (h : u.set_params vals = some u') {k : Bytes}
    (hk : (u.params[k]?).isSome ∨ vals.head? = some k) : (u'.params[k]?).isSome := by
  induction vals using List.twoStepInduction generalizing u with
  | nil =>
    cases h
    rcases hk with hk | hk
    · exact hk
    · cases hk
  | singleton => cases h
  | cons_cons key value vals ih _ =>
    apply ih h
    left
    show ((u.params.insert key value)[k]?).isSome
    rw [Std.ExtTreeMap.getElem?_insert]
    split
    · rfl
    · next hcmp =>
      rcases hk with hk | hk
      · exact hk
      · cases hk
        exact absurd Std.ReflOrd.compare_self hcmp

theorem set_params_kept {u u' : Uri} {vals : List Bytes} (h : u.set_params vals = some u') :
    u'.tp = u.tp ∧ u'.host = u.host ∧ u'.path = u.path := by
  induction vals using List.twoStepInduction generalizing u with
  | nil =>
    cases h
    exact ⟨rfl, rfl, rfl⟩
  | singleton => cases h
  | cons_cons key value vals ih _ =>
    replace h : (u.set_param key value).set_params vals = some u' := h
    obtain ⟨htp, hhost, hpath⟩ := ih h
    exact ⟨htp, hhost, hpath⟩

/-- What a url without parameters sets. -/
theorem parse_shown {x : Parts} {sm : Captures UInt8} {url : Bytes}
    (h : regex_match reg url = some sm) (hshown : x.Shown sm) (hquery : x.query = []) (u : Uri) :
    u.parse url = (true, ⟨(x.scheme.map (·.map tolower)).getD uri_http, x.host,
      if x.path = [] then ascii "/" else x.path, u.params⟩) := by
  have hpath : (if x.path = [] then none else some x.path).getD (ascii "/") =
      if x.path = [] then ascii "/" else x.path := by
    split <;> rfl
  unfold parse
  rw [h]
  simp only [hshown.scheme, hshown.host, hshown.path, hshown.query, hquery, if_true, hpath]
  rfl

theorem scheme_kept {x : Parts} (hok : x.Ok) :
    (x.scheme.map (·.map tolower)).getD uri_http ∈ schemes ∧
      ((x.scheme.map (·.map tolower)).getD uri_http).map tolower =
        (x.scheme.map (·.map tolower)).getD uri_http := by
  rcases hs : x.scheme with _ | t
  · decide
  · exact (schemes_chars t (hok.scheme t hs)).2.2.2

/-- The parameters of a url have a `?` in the first key. -/
theorem parse_params_mark {x : Parts} {sm : Captures UInt8} {url : Bytes} {u u' : Uri}
    (h : regex_match reg url = some sm) (hok : x.Ok) (hshown : x.Shown sm) (hquery : x.query ≠ [])
    (hparse : u.parse url = (true, u')) :
    u'.tp ≠ [] ∧ ∃ k : Bytes, (63 : UInt8) ∈ k ∧ (u'.params[k]?).isSome := by
  obtain ⟨smq, hsmq⟩ := hok.query
  rcases parses_param hsmq with ⟨hnil, -⟩ | ⟨raw, hraw, -, -⟩
  · exact absurd hnil hquery
  have hdecode : url_decode x.query = (url_decode raw).map (63 :: ·) := by
    rw [hraw]
    exact url_decode_cons (by decide) (by decide) raw
  unfold parse at hparse
  rw [h] at hparse
  simp only [hshown.scheme, hshown.host, hshown.query, if_neg hquery, hdecode] at hparse
  rcases hnew : url_decode raw with _ | new_params
  · rw [hnew] at hparse
    cases hparse
  · rw [hnew] at hparse
    simp only [Option.map_some] at hparse
    have hsplit : split_string (63 :: new_params) param_sep =
        split_loop param_sep false [63] new_params := by
      unfold split_string
      rw [if_neg (List.cons_ne_nil _ _)]
      simp [split_loop, param_sep]
    obtain ⟨t, ts, hhead⟩ := @split_loop_head param_sep false [63] new_params (List.cons_ne_nil _ _)
    rw [hsplit, hhead] at hparse
    split at hparse
    · cases hparse
    · next u'' hset =>
      cases hparse
      constructor
      · rw [(set_params_kept hset).1]
        exact (schemes_chars _ (scheme_kept hok).1).2.2.1
      · exact ⟨[63] ++ t, List.mem_append_left _ List.mem_cons_self, set_params_key hset (Or.inr rfl)⟩

/-- The text of a uri with such a key has two `?`. -/
theorem count_to_url {u : Uri} (htp : u.tp ≠ []) {k : Bytes} (hmark : (63 : UInt8) ∈ k)
    (hk : (u.params[k]?).isSome) : 2 ≤ u.to_url.count 63 := by
  obtain ⟨v, hv⟩ := Option.isSome_iff_exists.mp hk
  have hmem : k ++ ascii "=" ++ v ∈ u.params.toList.map fun p => p.1 ++ ascii "=" ++ p.2 :=
    List.mem_map.mpr ⟨(k, v), Std.ExtTreeMap.mem_toList_iff_getElem?_eq_some.mpr hv, rfl⟩
  have hjoin : 1 ≤ (join_strings (u.params.toList.map fun p => p.1 ++ ascii "=" ++ p.2)
      (ascii "&")).count 63 := by
    rw [List.one_le_count_iff]
    exact mem_join_strings hmem
      (List.mem_append_left _ (List.mem_append_left _ hmark))
  have hone : (ascii "?").count 63 = 1 := by decide
  unfold to_url
  rw [if_neg htp, if_neg (List.ne_nil_of_mem hmem)]
  simp only [List.count_append, hone]
  omega

/-- **Url round trip.** The text of the uri of a url is parsed to the same uri
    if and only if the url has no `?`. -/
theorem parse_to_url_iff {s : Bytes} {u : Uri} (h : construct.parse s = (true, u)) :
    construct.parse u.to_url = (true, u) ↔ (63 : UInt8) ∉ s := by
  obtain ⟨sm, hsm⟩ : ∃ sm, regex_match reg s = some sm := by
    rcases hsm : regex_match reg s with _ | sm
    · unfold parse at h
      rw [hsm] at h
      cases h
    · exact ⟨sm, rfl⟩
  obtain ⟨x, hok, hs, hshown⟩ := parses_reg hsm
  have hcount := hok.count_mark
  rw [← hs] at hcount
  by_cases hquery : x.query = []
  · -- no parameters: the text has the same parts
    rw [if_pos hquery, List.count_eq_zero] at hcount
    refine iff_of_true ?_ hcount
    rw [parse_shown hsm hshown hquery] at h
    obtain ⟨hscheme, hlower⟩ := scheme_kept hok
    obtain ⟨tp, htp⟩ : ∃ tp, tp = (x.scheme.map (·.map tolower)).getD uri_http := ⟨_, rfl⟩
    obtain ⟨path, hpath⟩ : ∃ path, path = if x.path = [] then ascii "/" else x.path := ⟨_, rfl⟩
    rw [← htp] at hscheme hlower h
    rw [← hpath] at h
    cases h
    obtain ⟨y, hy⟩ : ∃ y : Parts, y = ⟨some tp, x.host, path, []⟩ := ⟨_, rfl⟩
    have hne : path ≠ [] := by
      rw [hpath]
      split
      · decide
      · assumption
    have hoky : y.Ok := by
      rw [hy]
      refine ⟨fun t ht => by cases ht; exact hscheme, hok.host, ?_, ⟨[], Or.inr ⟨rfl, rfl⟩⟩⟩
      show ∃ sm, Parses reg_path path sm
      rw [hpath]
      split
      · exact ⟨[(5, [47])], Or.inl ⟨[], rfl, [47], [], [], [], rfl, rfl,
          parses_word_iff.mpr ⟨rfl, rfl⟩, List.forall_mem_nil _, rfl⟩⟩
      · exact hok.path
    have htext : to_url ⟨tp, x.host, path, construct.params⟩ = y.text := by
      rw [hy]
      unfold to_url
      rw [if_neg (schemes_chars tp hscheme).2.2.1]
      have hempty : construct.params.toList = [] := rfl
      simp only [hempty, List.map_nil, if_true, Parts.text, Parts.lead, List.append_nil,
        List.append_assoc]
    obtain ⟨sm', y', hsm', hsome, hoky', htext', hshown'⟩ :=
      hoky.match_schemed (by rw [hy]; rfl)
    have hquery' : y'.query = [] := by
      have hzero := hoky.count_mark
      rw [htext', hoky'.count_mark, hy] at hzero
      by_contra hne
      rw [if_neg hne] at hzero
      cases hzero
    have heq := Parts.text_inj hoky hoky' (by rw [hy]; rfl) hsome (by rw [hy]) hquery' htext'
    rw [← htext] at hsm'
    rw [parse_shown hsm' hshown' hquery', ← heq, hy]
    simp only [Option.map_some, Option.getD_some, hlower, if_neg hne]
  · -- the `?` of the parameters is also part of the first key
    rw [if_neg hquery] at hcount
    have hmark : (63 : UInt8) ∈ s := List.one_le_count_iff.mp (by omega)
    refine iff_of_false ?_ fun hno => hno hmark
    intro hagain
    obtain ⟨htp, k, hk, hsome⟩ := parse_params_mark hsm hok hshown hquery h
    have htwo := count_to_url htp hk hsome
    obtain ⟨sm', hsm'⟩ : ∃ sm', regex_match reg u.to_url = some sm' := by
      rcases hsm' : regex_match reg u.to_url with _ | sm'
      · unfold parse at hagain
        rw [hsm'] at hagain
        cases hagain
      · exact ⟨sm', rfl⟩
    obtain ⟨y, hoky, hy, -⟩ := parses_reg hsm'
    have hone := hoky.count_mark
    rw [← hy] at hone
    split at hone <;> omega

theorem parse_to_url_host :
    construct.parse (construct.parse (ascii "a.b:80/x")).2.to_url =
      (true, (construct.parse (ascii "a.b:80/x")).2) := by
  have haccepted : construct.parse (ascii "a.b:80/x") =
      (true, (construct.parse (ascii "a.b:80/x")).2) := by
    decide
  exact (parse_to_url_iff haccepted).mpr (by decide)

/-- The key of `ws://a?k=v` is kept with its `?`, and its text is refused. -/
theorem not_parse_to_url_param :
    (construct.parse (ascii "ws://a?k=v")).1 = true ∧
      (construct.parse (construct.parse (ascii "ws://a?k=v")).2.to_url).1 = false := by
  decide

end Uri

end Pump
