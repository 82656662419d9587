import Pump.Http.RoundTrip

/-! # Parameters of a request

    What is left of parameters that are coded by `url_encode` and sent in the
    start line of a request. `__parse_start_line` decodes them before it
    splits them at `=` and `&`. -/

namespace Pump

/-! ## Section 1: Coding and decoding -/

/-- What comes back of a byte: of a negative `char`, the low half. -/
def decoded (c : UInt8) : UInt8 := if c < 128 then c else c &&& 0x0f

theorem isalnum_ne : ∀ c, isalnum c = true → c ≠ 37 ∧ c ≠ 43 ∧ c ≠ 32 ∧ c ≠ 13 ∧ c < 128 := by
  apply forall_byte
  decide

theorem dec_to_hex_ne : ∀ dec, dec_to_hex dec ≠ 32 ∧ dec_to_hex dec ≠ 13 := by
  apply forall_byte
  decide

/-- What the two digits of a byte stand for. -/
theorem hex_digits_decoded : ∀ c : UInt8,
    (UInt8.ofNat (hex_to_dec (dec_to_hex (c.toInt8 >>> 4).toUInt8)) <<< 4 |||
      UInt8.ofNat (hex_to_dec (dec_to_hex (c &&& 0x0f)))) = decoded c := by
  apply forall_byte
  decide

/-- The three shapes of a coded byte. -/
theorem url_encode_char_cases (c : UInt8) :
    (url_encode_char c = [c] ∧ c ≠ 37 ∧ c ≠ 43 ∧ c ≠ 32 ∧ c ≠ 13 ∧ c < 128) ∨
      (url_encode_char c = [43] ∧ c = 32) ∨
      url_encode_char c =
        [37, dec_to_hex (c.toInt8 >>> 4).toUInt8, dec_to_hex (c &&& 0x0f)] := by
  have hmarks : ascii "_-." = [95, 45, 46] := by decide
  unfold url_encode_char
  rw [hmarks]
  split
  · next hraw =>
    left
    refine ⟨rfl, ?_⟩
    simp only [Bool.or_eq_true, List.contains_iff_mem, List.mem_cons, List.not_mem_nil, or_false,
      decide_eq_true_eq] at hraw
    rcases hraw with (hc | rfl | rfl | rfl) | rfl
    · exact isalnum_ne c hc
    · decide
    · decide
    · decide
    · decide
  · split
    · next h32 => exact Or.inr (Or.inl ⟨rfl, h32⟩)
    · exact Or.inr (Or.inr rfl)

/-- No coded byte is a blank or a `\r`. -/
theorem mem_url_encode_char (c : UInt8) : ∀ d ∈ url_encode_char c, d ≠ 32 ∧ d ≠ 13 := by
  intro d hd
  rcases url_encode_char_cases c with ⟨hc, -, -, h32, h13, -⟩ | ⟨hc, -⟩ | hc
  · rw [hc, List.mem_singleton] at hd
    exact hd ▸ ⟨h32, h13⟩
  · rw [hc, List.mem_singleton] at hd
    exact hd ▸ by decide
  · rw [hc] at hd
    rcases List.mem_cons.mp hd with rfl | hd
    · decide
    · rcases List.mem_cons.mp hd with rfl | hd
      · exact dec_to_hex_ne _
      · rw [List.mem_singleton.mp hd]
        exact dec_to_hex_ne _

theorem url_decode_cons {c : UInt8} (h37 : c ≠ 37) (h43 : c ≠ 43) (rest : Bytes) :
    url_decode (c :: rest) = (url_decode rest).map (c :: ·) := by
  conv_lhs => unfold url_decode
  split
  · next heq => cases heq
  · next heq => exact absurd (List.cons.inj heq).1 h37
  · next heq => exact absurd (List.cons.inj heq).1 h37
  · next heq => exact absurd (List.cons.inj heq).1 h43
  · next heq =>
    cases heq
    rfl

theorem url_decode_encode_char (c : UInt8) (rest : Bytes) :
    url_decode (url_encode_char c ++ rest) = (url_decode rest).map (decoded c :: ·) := by
  rcases url_encode_char_cases c with ⟨hc, h37, h43, -, -, hlt⟩ | ⟨hc, rfl⟩ | hc
  · have hd : decoded c = c := if_pos hlt
    rw [hc, hd, List.cons_append, List.nil_append, url_decode_cons h37 h43]
  · rw [hc]
    rfl
  · rw [hc, ← hex_digits_decoded]
    rfl

/-- Decoding what `url_encode` made, in front of more. -/
theorem url_decode_encode (s rest : Bytes) :
    url_decode (url_encode s ++ rest) = (url_decode rest).map (s.map decoded ++ ·) := by
  induction s with
  | nil =>
    show url_decode rest = _
    simp
  | cons c s ih =>
    have hcons : url_encode (c :: s) = url_encode_char c ++ url_encode s := rfl
    rw [hcons, List.append_assoc, url_decode_encode_char, ih, Option.map_map]
    rfl

/-- `url_decode` of a string, whose length it keeps in a `uint32_t`. -/
def url_decode_string (src : Bytes) : Option Bytes := url_decode (src.take (src.length % 2 ^ 32))

theorem decoded_eq_iff : ∀ c : UInt8, decoded c = c ↔ c < 128 := by
  apply forall_byte
  decide

theorem map_decoded_eq_iff (s : Bytes) : s.map decoded = s ↔ ∀ c ∈ s, c < 128 := by
  induction s with
  | nil => simp
  | cons c s ih => rw [List.map_cons, List.cons.injEq, List.forall_mem_cons, decoded_eq_iff, ih]

/-- What has been decoded does not depend on what follows. -/
theorem url_decode_append {src des : Bytes} (h : url_decode src = some des) (rest : Bytes) :
    url_decode (src ++ rest) = (url_decode rest).map (des ++ ·) := by
  induction src using url_decode.induct generalizing des with
  | case1 =>
    cases h
    show url_decode rest = _
    simp
  | case2 a b src ih =>
    obtain ⟨des, hdes, rfl⟩ := Option.map_eq_some_iff.mp h
    show (url_decode (src ++ rest)).map _ = _
    rw [ih hdes, Option.map_map]
    rfl
  | case3 src hno =>
    -- a `%` without two digits
    rw [url_decode] at h
    · cases h
    · exact hno
  | case4 src ih =>
    obtain ⟨des, hdes, rfl⟩ := Option.map_eq_some_iff.mp h
    show (url_decode (src ++ rest)).map _ = _
    rw [ih hdes, Option.map_map]
    rfl
  | case5 c src h37 h37' h43 ih =>
    have hc : c ≠ 37 := h37'
    rw [url_decode_cons hc h43] at h
    obtain ⟨des, hdes, rfl⟩ := Option.map_eq_some_iff.mp h
    rw [List.cons_append, url_decode_cons hc h43, ih hdes, Option.map_map]
    rfl

theorem nil_of_url_decode {src : Bytes} (h : url_decode src = some []) : src = [] := by
  induction src using url_decode.induct with
  | case1 => rfl
  | case2 a b src ih =>
    obtain ⟨des, -, hcons⟩ := Option.map_eq_some_iff.mp h
    cases hcons
  | case3 src hno =>
    rw [url_decode] at h
    · cases h
    · exact hno
  | case4 src ih =>
    obtain ⟨des, -, hcons⟩ := Option.map_eq_some_iff.mp h
    cases hcons
  | case5 c src h37 h37' h43 ih =>
    rw [url_decode_cons h37' h43] at h
    obtain ⟨des, -, hcons⟩ := Option.map_eq_some_iff.mp h
    cases hcons

/-- **Url coding.** A string comes back exactly if none of its bytes is
    negative and its code is counted by a `uint32_t`. -/
theorem url_decode_encode_iff (s : Bytes) :
    url_decode_string (url_encode s) = some s ↔
      (∀ c ∈ s, c < 128) ∧ (url_encode s).length < 2 ^ 32 := by
  have hwhole : url_decode (url_encode s) = some (s.map decoded) := by
    have h := url_decode_encode s []
    rw [List.append_nil] at h
    rw [h]
    simp [url_decode]
  unfold url_decode_string
  by_cases hlen : (url_encode s).length < 2 ^ 32
  · rw [Nat.mod_eq_of_lt hlen, List.take_length, hwhole, Option.some.injEq, map_decoded_eq_iff]
    exact (and_iff_left hlen).symm
  · -- the bytes not counted are missing
    refine iff_of_false ?_ fun h => hlen h.2
    intro hcut
    have happend := url_decode_append hcut
      ((url_encode s).drop ((url_encode s).length % 2 ^ 32))
    rw [List.take_append_drop, hwhole] at happend
    obtain ⟨des, hdes, heq⟩ := Option.map_eq_some_iff.mp happend.symm
    have hnil : des = [] := by
      have hl := congrArg List.length heq
      rw [List.length_append, List.length_map] at hl
      exact List.eq_nil_of_length_eq_zero (by omega)
    have hdrop := nil_of_url_decode (hnil ▸ hdes)
    have hl := congrArg List.length hdrop
    rw [List.length_drop, List.length_nil] at hl
    omega

/-- `0x80` is coded as `%`, a NUL and `0`, and comes back as NUL. -/
theorem not_url_decode_encode :
    url_decode_string (url_encode [128]) = some [0] ∧
    url_decode_string (url_encode [128]) ≠ some [128] := by
  have h : url_decode_string (url_encode [128]) = some [0] := by decide
  exact ⟨h, by rw [h]; decide⟩

/-! ## Section 2: Queries -/

/-- The text `k=v&...` of some pairs. -/
def pair_text (pairs : List (Bytes × Bytes)) : Bytes :=
  join_strings (pairs.map fun p => p.1 ++ 61 :: p.2) [38]

/-- The query of some pairs, with `url_encode` on keys and values. -/
def query (pairs : List (Bytes × Bytes)) : Bytes :=
  pair_text (pairs.map fun p => (url_encode p.1, url_encode p.2))

theorem pair_text_cons (p q : Bytes × Bytes) (pairs : List (Bytes × Bytes)) :
    pair_text (p :: q :: pairs) = p.1 ++ 61 :: p.2 ++ 38 :: pair_text (q :: pairs) := by
  simp [pair_text, join_strings]

/-- What decoding makes of a query. -/
theorem url_decode_query (pairs : List (Bytes × Bytes)) :
    url_decode (query pairs) =
      some (pair_text (pairs.map fun p => (p.1.map decoded, p.2.map decoded))) := by
  induction pairs with
  | nil => rfl
  | cons p pairs ih =>
    have hvalue : ∀ rest, url_decode (url_encode p.1 ++ 61 :: (url_encode p.2 ++ rest)) =
        (url_decode rest).map fun text => p.1.map decoded ++ 61 :: (p.2.map decoded ++ text) := by
      intro rest
      rw [url_decode_encode, url_decode_cons (by decide) (by decide), url_decode_encode,
        Option.map_map, Option.map_map]
      rfl
    rcases pairs with _ | ⟨q, pairs⟩
    · have hone := hvalue []
      rw [List.append_nil] at hone
      show url_decode (url_encode p.1 ++ 61 :: url_encode p.2) = _
      rw [hone]
      simp [url_decode, pair_text, join_strings]
    · have hquery : query (p :: q :: pairs) =
          url_encode p.1 ++ 61 :: (url_encode p.2 ++ 38 :: query (q :: pairs)) := by
        unfold query
        rw [List.map_cons, List.map_cons, pair_text_cons, List.append_assoc]
        rfl
      rw [hquery, hvalue, url_decode_cons (by decide) (by decide), ih]
      simp only [List.map_cons, pair_text_cons, Option.map_some, List.append_assoc, List.cons_append]

/-- The tokens of some pairs; an empty one at the end is not. -/
def pair_tokens : List (Bytes × Bytes) → List Bytes
  | [] => []
  | [p] => if p.2 = [] then [p.1] else [p.1, p.2]
  | p :: q :: pairs => p.1 :: p.2 :: pair_tokens (q :: pairs)

/-- A byte that does not split a query. -/
def Plainly (s : Bytes) : Prop := ∀ c ∈ s, param_sep.is_sep c = false

theorem split_loop_plainly {s : Bytes} (hs : Plainly s) (cur tail : Bytes) :
    split_loop param_sep false cur (s ++ tail) = split_loop param_sep false (cur ++ s) tail := by
  induction s generalizing cur with
  | nil => simp
  | cons c s ih =>
    have hc := hs c List.mem_cons_self
    have ih := ih (fun d hd => hs d (List.mem_cons_of_mem c hd)) (cur ++ [c])
    simpa [split_loop, hc] using ih

/-- Splitting undoes joining, for pairs without separators. -/
theorem split_pair_text {pairs : List (Bytes × Bytes)} (hne : pairs ≠ [])
    (hpairs : ∀ p ∈ pairs, Plainly p.1 ∧ Plainly p.2) :
    split_string (pair_text pairs) param_sep = pair_tokens pairs := by
  have hloop : split_loop param_sep false [] (pair_text pairs) = pair_tokens pairs := by
    induction pairs with
    | nil => exact absurd rfl hne
    | cons p pairs ih =>
      obtain ⟨hkey, hvalue⟩ := hpairs p List.mem_cons_self
      have hkeyed : ∀ tail, split_loop param_sep false [] (p.1 ++ 61 :: tail) =
          p.1 :: split_loop param_sep false [] tail := by
        intro tail
        rw [split_loop_plainly hkey]
        simp [split_loop, param_sep]
      rcases pairs with _ | ⟨q, pairs⟩
      · have hend := split_loop_plainly hvalue [] []
        rw [List.append_nil, List.nil_append] at hend
        show split_loop param_sep false [] (p.1 ++ 61 :: p.2) = _
        rw [hkeyed, hend]
        unfold pair_tokens split_loop
        split <;> rfl
      · have ih := ih (List.cons_ne_nil _ _) fun p' hp' => hpairs p' (List.mem_cons_of_mem p hp')
        rw [pair_text_cons, List.append_assoc, List.cons_append, hkeyed, split_loop_plainly hvalue,
          List.nil_append]
        unfold pair_tokens
        rw [← ih]
        simp [split_loop, param_sep]
  obtain ⟨p, pairs', rfl⟩ := List.exists_cons_of_ne_nil hne
  have htext : pair_text (p :: pairs') ≠ [] := by
    cases pairs' with
    | nil => simp [pair_text, join_strings]
    | cons q pairs => simp [pair_text_cons]
  unfold split_string
  rw [if_neg htext, hloop]

/-! ## Section 3: Parameters -/

namespace Uri

/-- The parameters that are set are among the values. -/
theorem set_params_mem {u u' : Uri} {vals : List Bytes} (h : u.set_params vals = some u')
    {k v : Bytes} (hget : u'.params[k]? = some v) :
    u.params[k]? = some v ∨ (k ∈ vals ∧ v ∈ vals) := by
  induction vals using List.twoStepInduction generalizing u with
  | nil =>
    cases h
    exact Or.inl hget
  | singleton => cases h
  | cons_cons key value vals ih _ =>
    rcases ih h with hset | ⟨hk, hv⟩
    · replace hset : (u.params.insert key value)[k]? = some v := hset
      rw [Std.ExtTreeMap.getElem?_insert] at hset
      split at hset
      · next hcmp =>
        cases hset
        rw [← Std.LawfulEqOrd.eq_of_compare hcmp]
        exact Or.inr ⟨List.mem_cons_self, List.mem_cons_of_mem _ List.mem_cons_self⟩
      · exact Or.inl hset
    · exact Or.inr ⟨List.mem_cons_of_mem _ (List.mem_cons_of_mem _ hk),
        List.mem_cons_of_mem _ (List.mem_cons_of_mem _ hv)⟩

/-- The tokens of pairs are set when the last value is not empty. -/
theorem set_params_pair_tokens {u : Uri} {pairs : List (Bytes × Bytes)} :
    u.set_params (pair_tokens pairs) =
      if ∃ p, pairs.getLast? = some p ∧ p.2 = [] then none
      else some (pairs.foldl (fun u p => u.set_param p.1 p.2) u) := by
  induction pairs generalizing u with
  | nil => simp [pair_tokens, set_params]
  | cons p pairs ih =>
    rcases pairs with _ | ⟨q, pairs⟩
    · by_cases hp : p.2 = []
      · simp [pair_tokens, set_params, hp]
      · simp [pair_tokens, set_params, hp]
    · have ih := @ih (u.set_param p.1 p.2)
      rw [List.getLast?_cons_cons]
      exact ih

/-- Parameters with different keys are the pairs that were set. -/
theorem params_foldl {u : Uri} {pairs : List (Bytes × Bytes)}
    (hnodup : (pairs.map Prod.fst).Nodup) (hnew : ∀ p ∈ pairs, u.params[p.1]? = none)
    (k v : Bytes) :
    (pairs.foldl (fun u p => u.set_param p.1 p.2) u).params[k]? = some v ↔
      u.params[k]? = some v ∨ (k, v) ∈ pairs := by
  induction pairs generalizing u with
  | nil => simp
  | cons p pairs ih =>
    obtain ⟨hp, hnodup⟩ := List.nodup_cons.mp hnodup
    have hget : ∀ k, (u.set_param p.1 p.2).params[k]? = if p.1 = k then some p.2 else u.params[k]? := by
      intro k
      show (u.params.insert p.1 p.2)[k]? = _
      rw [Std.ExtTreeMap.getElem?_insert]
      by_cases hk : p.1 = k
      · rw [if_pos hk, if_pos (by rw [hk]; exact Std.ReflOrd.compare_self)]
      · rw [if_neg hk, if_neg fun hcmp => hk (Std.LawfulEqOrd.eq_of_compare hcmp)]
    have hnew' : ∀ q ∈ pairs, (u.set_param p.1 p.2).params[q.1]? = none := by
      intro q hq
      have hne : p.1 ≠ q.1 := fun heq => hp (List.mem_map.mpr ⟨q, hq, heq.symm⟩)
      rw [hget, if_neg hne]
      exact hnew q (List.mem_cons_of_mem p hq)
    rw [List.foldl_cons, ih hnodup hnew', hget, List.mem_cons]
    by_cases hk : p.1 = k
    · subst hk
      rw [if_pos rfl, hnew p List.mem_cons_self]
      have hpair : (p.1, v) = p ↔ p.2 = v := by
        constructor
        · intro heq
          rw [← heq]
        · intro heq
          rw [← heq]
      simp [hpair]
    · have hpair : (k, v) ≠ p := fun heq => hk (by rw [← heq])
      simp [hk, hpair]

end Uri

namespace Request

open HttpMethod HttpVersion

/-- The start line with the query of some pairs. -/
def query_line (pairs : List (Bytes × Bytes)) : Bytes :=
  ascii "GET /p?" ++ query pairs ++ ascii " HTTP/1.1" ++ http_crlf

/-- A new request accepts the start line, and its parameters are the pairs. -/
def ParamsSurvive (pairs : List (Bytes × Bytes)) : Prop :=
  ∃ r, Packet.parse_start_line kind construct (query_line pairs) =
      .took (query_line pairs).length r ∧
    ∀ k v, r.fields.uri.params[k]? = some v ↔ (k, v) ∈ pairs

/-- Nothing in a query ends it. -/
theorem mem_query {pairs : List (Bytes × Bytes)} : ∀ c ∈ query pairs, c ≠ 32 ∧ c ≠ 13 := by
  have hencode : ∀ s, ∀ c ∈ url_encode s, c ≠ 32 ∧ c ≠ 13 := by
    intro s c hc
    obtain ⟨d, -, hd⟩ := List.mem_flatMap.mp hc
    exact mem_url_encode_char d c hd
  induction pairs with
  | nil => exact List.forall_mem_nil _
  | cons p pairs ih =>
    have hone : ∀ c ∈ url_encode p.1 ++ 61 :: url_encode p.2, c ≠ 32 ∧ c ≠ 13 := by
      intro c hc
      rcases List.mem_append.mp hc with hc | hc
      · exact hencode p.1 c hc
      · rcases List.mem_cons.mp hc with rfl | hc
        · decide
        · exact hencode p.2 c hc
    rcases pairs with _ | ⟨q, pairs⟩
    · exact hone
    · intro c hc
      unfold query at hc ih
      rw [List.map_cons, List.map_cons, pair_text_cons, List.mem_append] at hc
      rcases hc with hc | hc
      · exact hone c hc
      · rcases List.mem_cons.mp hc with rfl | hc
        · decide
        · exact ih c hc

/-- What the start line parser does with a query line: there is a query, and
    its decoded text splits into pairs. -/
theorem params_survive_iff_set {pairs : List (Bytes × Bytes)}
    (hline : (query_line pairs).length ≤ http_line_max_length) :
    ParamsSurvive pairs ↔ query pairs ≠ [] ∧ ∃ u,
      (Uri.construct.set_path (ascii "/p")).set_params (split_string
        (pair_text (pairs.map fun p => (p.1.map decoded, p.2.map decoded))) param_sep) = some u ∧
      ∀ k v, u.params[k]? = some v ↔ (k, v) ∈ pairs := by
  -- the line in the parts that the parser cuts it into
  obtain ⟨tail, htail⟩ : ∃ tail, tail = ascii "HTTP/1.1" ++ http_crlf := ⟨_, rfl⟩
  have hbytes : query_line pairs = METHOD_GET.string ++ 32 :: 47 ::
      (112 :: 63 :: (query pairs ++ 32 :: tail)) := by
    have hget : ascii "GET /p?" = METHOD_GET.string ++ [32, 47, 112, 63] := by decide
    have hversion : ascii " HTTP/1.1" = 32 :: ascii "HTTP/1.1" := by decide
    unfold query_line
    rw [hget, hversion, htail]
    simp
  have hfind : find_http_line_end (query_line pairs) = some (query_line pairs).length := by
    refine find_http_line_end_iff.mpr
      ⟨ascii "GET /p?" ++ query pairs ++ ascii " HTTP/1.1", [], rfl, ?_, ?_, hline⟩
    · have hget : (13 : UInt8) ∉ ascii "GET /p?" := by decide
      have hversion : (13 : UInt8) ∉ ascii " HTTP/1.1" := by decide
      have hquery : (13 : UInt8) ∉ query pairs := not_mem_of_ne fun c hc => (mem_query c hc).2
      simp [hget, hversion, hquery]
    · simp [query_line, http_crlf, Nat.add_assoc]
  -- no byte of the query ends the scan for the space
  have hblank : ∀ c ∈ query pairs, decide (c ≠ 32) = true :=
    fun c hc => decide_eq_true (mem_query c hc).1
  obtain ⟨vals, hvals⟩ : ∃ vals, vals = split_string (pair_text (pairs.map fun p =>
      (p.1.map decoded, p.2.map decoded))) param_sep := ⟨_, rfl⟩
  have hparams : ∀ u : Uri, parse_params u (63 :: (query pairs ++ 32 :: tail)) =
      if query pairs = [] then none else (u.set_params vals).map fun u => (u, 32 :: tail) := by
    intro u
    rw [hvals]
    unfold parse_params
    simp only [List.takeWhile_append_of_pos hblank, List.dropWhile_append_of_pos hblank]
    rw [List.takeWhile_cons_of_neg (by decide), List.dropWhile_cons_of_neg (by decide),
      List.append_nil, url_decode_query]
    by_cases hnil : query pairs = []
    · rw [if_pos (Or.inl hnil), if_pos hnil]
    · rw [if_neg (by simp [hnil]), if_neg hnil]
      rcases hset : u.set_params (split_string (pair_text (pairs.map fun p =>
        (p.1.map decoded, p.2.map decoded))) param_sep) with _ | u'
      · simp [hset]
      · simp [hset]
  obtain ⟨u, hu⟩ : ∃ u, u = Uri.construct.set_path (ascii "/p") := ⟨_, rfl⟩
  have hpath : ascii "/p" = [47, 112] := by decide
  have hmethod : parse_method (query_line pairs) =
      some (METHOD_GET, 47 :: 112 :: 63 :: (query pairs ++ 32 :: tail)) := by
    rw [hbytes]
    exact parse_method_string (by simp)
  have hrefused : parse_params u (63 :: (query pairs ++ 32 :: tail)) = none →
      kind.parse_line construct.fields construct.version (query_line pairs) =
        (false, ⟨u, METHOD_GET⟩, VERSION_UNKNOWN) := by
    intro h
    rw [hu, hpath] at h ⊢
    show parse_line ⟨Uri.construct, METHOD_UNKNOWN⟩ VERSION_UNKNOWN (query_line pairs) = _
    simp [parse_line, hmethod, h]
  have hread : ∀ u' pos, parse_params u (63 :: (query pairs ++ 32 :: tail)) = some (u', pos) →
      parse_http_version (pos.drop 1) = some VERSION_11 →
      kind.parse_line construct.fields construct.version (query_line pairs) =
        (true, ⟨u', METHOD_GET⟩, VERSION_11) := by
    intro u' pos h hversion
    rw [hu, hpath] at h
    rw [List.drop_one] at hversion
    show parse_line ⟨Uri.construct, METHOD_UNKNOWN⟩ VERSION_UNKNOWN (query_line pairs) = _
    simp [parse_line, hmethod, h, hversion]
  have hversion : parse_http_version tail = some VERSION_11 := by
    rw [htail]
    rfl
  -- the parser has come to set_params with the decoded query
  rw [← hu, ← hvals]
  unfold ParamsSurvive Packet.parse_start_line
  rw [hfind]
  simp only [List.take_length]
  by_cases hnil : query pairs = []
  · rw [hrefused (by rw [hparams, if_pos hnil])]
    constructor
    · rintro ⟨r, hr, -⟩
      cases hr
    · rintro ⟨hne, -⟩
      exact absurd hnil hne
  · rcases hset : u.set_params vals with _ | u'
    · rw [hrefused (by rw [hparams, if_neg hnil, hset]; rfl)]
      constructor
      · rintro ⟨r, hr, -⟩
        cases hr
      · rintro ⟨-, u'', hset', -⟩
        cases hset'
    · rw [hread u' (32 :: tail) (by rw [hparams, if_neg hnil, hset]; rfl) hversion, if_pos rfl]
      constructor
      · rintro ⟨r, hr, hget⟩
        cases hr
        exact ⟨hnil, u', rfl, hget⟩
      · rintro ⟨-, u'', hset', hget⟩
        cases hset'
        exact ⟨_, rfl, hget⟩

theorem decoded_lt (c : UInt8) : decoded c < 128 := by
  revert c
  apply forall_byte
  decide

/-- The bytes of a joined text. -/
theorem pair_text_forall {P : UInt8 → Prop} (h61 : P 61) (h38 : P 38)
    {pairs : List (Bytes × Bytes)} (hpairs : ∀ p ∈ pairs, (∀ c ∈ p.1, P c) ∧ ∀ c ∈ p.2, P c) :
    ∀ c ∈ pair_text pairs, P c := by
  induction pairs with
  | nil => exact List.forall_mem_nil _
  | cons p pairs ih =>
    obtain ⟨hkey, hvalue⟩ := hpairs p List.mem_cons_self
    have hone : ∀ c ∈ p.1 ++ 61 :: p.2, P c := by
      intro c hc
      rcases List.mem_append.mp hc with hc | hc
      · exact hkey c hc
      · rcases List.mem_cons.mp hc with rfl | hc
        · exact h61
        · exact hvalue c hc
    rcases pairs with _ | ⟨q, pairs⟩
    · exact hone
    · intro c hc
      rw [pair_text_cons, List.mem_append] at hc
      rcases hc with hc | hc
      · exact hone c hc
      · rcases List.mem_cons.mp hc with rfl | hc
        · exact h38
        · exact ih (fun p' hp' => hpairs p' (List.mem_cons_of_mem p hp')) c hc

/-- A byte that comes back: no separator and no negative `char`. -/
def Survives (c : UInt8) : Prop := c ≠ 61 ∧ c ≠ 38 ∧ c < 128

instance : DecidablePred Survives := fun _ => inferInstanceAs (Decidable (_ ∧ _))

/-- Pairs that come back have such bytes only. -/
theorem ParamsSurvive.bytes {pairs : List (Bytes × Bytes)}
    (hline : (query_line pairs).length ≤ http_line_max_length) (h : ParamsSurvive pairs) :
    ∀ p ∈ pairs, (∀ c ∈ p.1, Survives c) ∧ ∀ c ∈ p.2, Survives c := by
  obtain ⟨-, u, hset, hget⟩ := (params_survive_iff_set hline).mp h
  -- the parameters are tokens of the decoded text
  have htokens : ∀ v ∈ split_string (pair_text (pairs.map fun p =>
      (p.1.map decoded, p.2.map decoded))) param_sep, ∀ c ∈ v, Survives c := by
    apply split_string_forall
    intro c hc hsep
    have hlt : c < 128 := by
      apply pair_text_forall (P := fun c => c < 128) (by decide) (by decide) _ c hc
      intro p hp
      obtain ⟨p', -, rfl⟩ := List.mem_map.mp hp
      constructor <;> intro d hd <;> obtain ⟨d', -, rfl⟩ := List.mem_map.mp hd <;>
        exact decoded_lt d'
    have hne : c ≠ 61 ∧ c ≠ 38 := by simpa [param_sep] using hsep
    exact ⟨hne.1, hne.2, hlt⟩
  intro p hp
  rcases Uri.set_params_mem hset ((hget p.1 p.2).mpr hp) with hnone | ⟨hk, hv⟩
  · cases hnone
  · exact ⟨htokens p.1 hk, htokens p.2 hv⟩

/-- **Query parameters.** Pairs with different keys come back if and only if
    there are some, the last value is not empty, and no byte of a key or a
    value is `=`, `&` or a negative `char`. -/
theorem params_survive_iff {pairs : List (Bytes × Bytes)} (hnodup : (pairs.map Prod.fst).Nodup)
    (hline : (query_line pairs).length ≤ http_line_max_length) :
    ParamsSurvive pairs ↔ pairs ≠ [] ∧ (∀ p, pairs.getLast? = some p → p.2 ≠ []) ∧
      ∀ p ∈ pairs, (∀ c ∈ p.1, Survives c) ∧ ∀ c ∈ p.2, Survives c := by
  have hquery : query pairs ≠ [] ↔ pairs ≠ [] := by
    rcases pairs with _ | ⟨p, _ | ⟨q, pairs⟩⟩
    · exact iff_of_false (fun h => h rfl) (fun h => h rfl)
    · simp [query, pair_text, join_strings]
    · simp [query, pair_text_cons]
  -- for pairs of such bytes, the decoded text is split into the pairs
  have hset : pairs ≠ [] → (∀ p ∈ pairs, (∀ c ∈ p.1, Survives c) ∧ ∀ c ∈ p.2, Survives c) →
      (Uri.construct.set_path (ascii "/p")).set_params (split_string
        (pair_text (pairs.map fun p => (p.1.map decoded, p.2.map decoded))) param_sep) =
      if ∃ p, pairs.getLast? = some p ∧ p.2 = [] then none
      else some (pairs.foldl (fun u p => u.set_param p.1 p.2)
        (Uri.construct.set_path (ascii "/p"))) := by
    intro hne hbytes
    have hid : ∀ s : Bytes, (∀ c ∈ s, Survives c) → s.map decoded = s := by
      intro s hs
      have hmap : s.map decoded = s.map id := by
        apply List.map_congr_left
        intro c hc
        exact if_pos (hs c hc).2.2
      rw [hmap, List.map_id]
    have hmap : pairs.map (fun p => (p.1.map decoded, p.2.map decoded)) = pairs.map id := by
      apply List.map_congr_left
      intro p hp
      rw [hid _ (hbytes p hp).1, hid _ (hbytes p hp).2]
      rfl
    have hplain : ∀ s : Bytes, (∀ c ∈ s, Survives c) → Plainly s := by
      intro s hs c hc
      obtain ⟨h61, h38, -⟩ := hs c hc
      simp [param_sep, h61, h38]
    rw [hmap, List.map_id, split_pair_text hne fun p hp => ⟨hplain _ (hbytes p hp).1, hplain _ (hbytes p hp).2⟩,
      Uri.set_params_pair_tokens]
  constructor
  · intro h
    have hbytes := h.bytes hline
    obtain ⟨hne, u, hu, -⟩ := (params_survive_iff_set hline).mp h
    rw [hquery] at hne
    refine ⟨hne, ?_, hbytes⟩
    intro p hp hnil
    rw [hset hne hbytes, if_pos ⟨p, hp, hnil⟩] at hu
    cases hu
  · rintro ⟨hne, hlast, hbytes⟩
    refine (params_survive_iff_set hline).mpr ⟨hquery.mpr hne,
      pairs.foldl (fun u p => u.set_param p.1 p.2) (Uri.construct.set_path (ascii "/p")), ?_, ?_⟩
    · rw [hset hne hbytes, if_neg]
      rintro ⟨p, hp, hnil⟩
      exact hlast p hp hnil
    · intro k v
      rw [Uri.params_foldl hnodup (fun _ _ => rfl)]
      simp [Uri.construct, Uri.set_path]

theorem params_survive_one : ParamsSurvive [(ascii "a b", ascii "1+1")] :=
  (params_survive_iff (by decide) (by decide)).mpr
    ⟨by decide, by decide +kernel, by decide +kernel⟩

/-- A value with an `&`, and one with a byte that is a negative `char`. -/
theorem not_params_survive :
    ¬ ParamsSurvive [(ascii "k", ascii "a&b")] ∧ ¬ ParamsSurvive [(ascii "k", [0xe9])] := by
  constructor
  · intro h
    have hbytes := (h.bytes (by decide) _ List.mem_cons_self).2
    exact absurd hbytes (by decide)
  · intro h
    have hbytes := (h.bytes (by decide) _ List.mem_cons_self).2
    exact absurd hbytes (by decide +kernel)

end Request

end Pump
