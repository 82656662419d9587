import Pump.Http.Request
import Pump.Http.Response

/-! # Messages and segments

    How far the result of parsing a message depends on the segments its
    bytes arrive in. The one thing a call keeps from its earlier bytes, and
    a new call does not, is the local `value` of `__parse_header`. -/

namespace Pump

open ParseStatus

/-! ## Section 1: Bodies by length -/

namespace Body

/-- Invariant of an unfinished body in length mode. -/
structure Awaiting (body : Body) : Prop where
  mode : body.is_chunk_mode = false
  unfinished : body.is_parse_finished = false
  short : (body.data.length : Int) < body.expected_size
  expected_lt : body.expected_size < 2 ^ 31

/-- The bytes still to come. -/
def missing (body : Body) : Nat := (body.expected_size - body.data.length).toNat

/-- The body with more data. -/
def extended (body : Body) (b : Bytes) : Body :=
  { body with
    data := body.data ++ b
    is_parse_finished := decide (body.missing ≤ b.length) }

theorem wrap32_eq {x : Int} (h₀ : 0 ≤ x) (h : x < 2 ^ 31) : wrap32 x = x := by
  unfold wrap32
  rw [Int.bmod_def]
  omega

theorem parse_awaiting {body : Body} (h : Awaiting body) (b : Bytes) :
    body.parse b =
      .took (min body.missing b.length) (body.extended (b.take (min body.missing b.length))) := by
  obtain ⟨hmode, hfin, hshort, hlt⟩ := h
  have hwrap : wrap32 body.data.length = body.data.length := wrap32_eq (by omega) (by omega)
  have hmissing : (body.missing : Int) = body.expected_size - body.data.length := by
    unfold missing
    omega
  have hsize : (if body.expected_size - wrap32 body.data.length > b.length then (b.length : Int)
      else body.expected_size - wrap32 body.data.length) = (min body.missing b.length : Nat) := by
    rw [hwrap]
    split <;> omega
  unfold parse parse_by_length
  simp only [hmode, Bool.false_eq_true, if_false, hsize, Int.toNat_natCast]
  rw [if_neg (by omega)]
  have htake : (b.take (min body.missing b.length)).length = min body.missing b.length := by
    simp
  have hall : wrap32 (body.data ++ b.take (min body.missing b.length)).length =
      (body.data.length : Int) + (min body.missing b.length : Nat) := by
    rw [List.length_append, htake, wrap32_eq (by omega) (by omega)]
    simp
  rw [hall]
  by_cases hdone : body.missing ≤ b.length
  · rw [if_pos (by omega)]
    simp [extended, hmode, hdone]
  · rw [if_neg (by omega)]
    simp [extended, hmode, hfin, hdone]

theorem awaiting_extended {body : Body} (h : Awaiting body) {b : Bytes}
    (hb : b.length < body.missing) : Awaiting (body.extended b) := by
  obtain ⟨hmode, hfin, hshort, hlt⟩ := h
  unfold missing at hb
  refine ⟨hmode, by simp [extended, missing]; omega, ?_, hlt⟩
  simp only [extended, List.length_append]
  omega

theorem missing_extended (body : Body) (b : Bytes) :
    (body.extended b).missing = body.missing - b.length := by
  simp only [missing, extended, List.length_append]
  omega

theorem extended_extended {body : Body} (b c : Bytes) :
    (body.extended b).extended c = body.extended (b ++ c) := by
  have hm := missing_extended body b
  unfold extended at hm ⊢
  simp only [hm, List.append_assoc, List.length_append, Body.mk.injEq, true_and]
  congr 1
  simp only [eq_iff_iff]
  omega

/-- Bytes that do not finish the body are taken up by the next call. -/
theorem parse_awaiting_append {body : Body} (h : Awaiting body) {x : Bytes}
    (hx : x.length < body.missing) (y : Bytes) :
    body.parse (x ++ y) = ((body.extended x).parse y).after x.length := by
  have hm := missing_extended body x
  rw [parse_awaiting h, parse_awaiting (awaiting_extended h hx), extended_extended, hm]
  simp only [Reply.after, List.length_append]
  have hmin : min body.missing (x.length + y.length) =
      x.length + min (body.missing - x.length) y.length := by omega
  rw [hmin, List.take_append, List.take_of_length_le (by omega)]
  congr 4
  omega

end Body

/-! ## Section 2: One call -/

namespace Packet

variable {α : Type} {K : Kind α}

/-- The message has no chunked body. -/
def NotChunked (p : Packet α) : Prop := ∀ body, p.body = some body → body.is_chunk_mode = false

instance : DecidablePred (NotChunked : Packet α → Prop) := fun p =>
  match hb : p.body with
  | none => isTrue fun _ h => by simp [hb] at h
  | some body =>
    if hm : body.is_chunk_mode = false then isTrue fun body' h => by
      rw [hb, Option.some.injEq] at h
      rw [← h, hm]
    else isFalse fun h => hm (h body hb)

/-- Invariant of a message between calls, when its body is not chunked. -/
def Resumable (p : Packet α) : Prop :=
  match p.parse_status with
  | PARSE_NONE | PARSE_LINE | PARSE_HEADER => p.header.header_parsed = false ∧ p.body = none
  | PARSE_BODY => ∃ body, p.body = some body ∧ body.Awaiting
  | PARSE_FINISHED => p.NotChunked
  | PARSE_FAILED => False

theorem resumable_construct (fields : α) : (construct fields).Resumable := ⟨rfl, rfl⟩

/-- The header lines that a call stores. -/
def header_lines (K : Kind α) (p : Packet α) (b : Bytes) : List (Bytes × Bytes) :=
  match p.parse_status with
  | PARSE_NONE | PARSE_LINE =>
    match p.parse_start_line K b with
    | .took n _ => if n = 0 then [] else (Header.scan (b.drop n)).lines
    | _ => []
  | PARSE_HEADER => (Header.scan b).lines
  | _ => []

theorem scan_size_pos {b : Bytes} (h : (Header.scan b).lines ≠ [] ∨ (Header.scan b).ending = .blank) :
    (Header.scan b).size ≠ 0 := by
  cases hfind : find_http_line_end b with
  | none => simp [Header.scan_of_not_found hfind] at h
  | some n =>
    have hn := find_http_line_end_bounds hfind
    rw [Header.scan_of_found hfind] at h ⊢
    split at h
    · next h2 => simp [h2, http_crlf_length]
    · next h2 =>
      rw [if_neg h2]
      cases hsplit : Header.split_line (b.take n) with
      | none => simp [hsplit] at h
      | some line =>
        simp only
        omega

/-- The header stage, from a scan of its bytes. -/
theorem parse_head_eq {p : Packet α} (hs : p.parse_status = PARSE_HEADER)
    (hp : p.header.header_parsed = false) (value b : Bytes) :
    p.parse_head K value b =
      match (Header.scan b).ending with
      | .more => .took (Header.scan b).size
          { p with header := p.header.store_lines value (Header.scan b).lines }
      | .blank =>
          ((finish_header K { p with header :=
            { p.header.store_lines value (Header.scan b).lines with
              header_parsed := true } }).parse_body (b.drop (Header.scan b).size)).after
            (Header.scan b).size
      | .malformed => .failed
          { p with header := p.header.store_lines value (Header.scan b).lines } := by
  unfold parse_head
  rw [if_pos hs, Header.parse_header_eq hp]
  unfold Header.scanned
  cases hend : (Header.scan b).ending with
  | more =>
    simp only [Nat.zero_add, Header.store_lines_parsed, hp]
    by_cases h0 : (Header.scan b).size = 0
    · have hnil : (Header.scan b).lines = [] := by
        by_contra hne
        exact scan_size_pos (Or.inl hne) h0
      simp [h0, hnil]
    · simp [h0]
  | blank =>
    have h0 := scan_size_pos (Or.inr hend)
    simp [h0]
  | malformed => rfl

theorem get_head_int_lt {h : Header} {name : Bytes} {length : Int}
    (hget : h.get_head_int name = some length) : length < 2 ^ 31 := by
  unfold Header.get_head_int at hget
  obtain ⟨vs, -, rfl⟩ := Option.map_eq_some_iff.mp hget
  rw [Int.bmod_def]
  omega

/-- A body that a header announces is new. -/
theorem announced_body_cases {h : Header} {body : Body} (ha : announced_body h = some body) :
    body.Awaiting ∨ body.is_chunk_mode = true := by
  unfold announced_body at ha
  split at ha
  · next length hget =>
    split at ha
    · next hpos =>
      cases ha
      left
      have hlt : length < 2 ^ 31 := by
        rcases Option.or_eq_some_iff.mp hget with hget | ⟨-, hget⟩
        · exact get_head_int_lt hget
        · exact get_head_int_lt hget
      exact ⟨rfl, rfl, by simpa [Body.construct, Body.set_expected_size] using hpos, hlt⟩
    · cases ha
  · split at ha
    · split at ha
      · cases ha
        exact Or.inr rfl
      · cases ha
    · cases ha

/-- The message is past its header. -/
def Late (p : Packet α) : Prop := p.parse_status = PARSE_BODY ∨ p.parse_status = PARSE_FINISHED

/-- The stages of a message between calls. -/
theorem Resumable.stage {p : Packet α} (h : p.Resumable) :
    ((p.parse_status = PARSE_NONE ∨ p.parse_status = PARSE_LINE) ∧
        p.header.header_parsed = false ∧ p.body = none) ∨
      (p.parse_status = PARSE_HEADER ∧ p.header.header_parsed = false ∧ p.body = none) ∨ p.Late := by
  unfold Late
  cases hs : p.parse_status <;> simp [Resumable, hs] at h ⊢ <;> assumption

theorem finish_header_late (p : Packet α) : (p.finish_header K).Late := by
  unfold Late finish_header
  simp only
  split
  · exact Or.inl rfl
  · exact Or.inr rfl

theorem finish_header_resumable {p : Packet α} (hb : p.body = none)
    (hn : (p.finish_header K).NotChunked) : (p.finish_header K).Resumable := by
  have hbody : (p.finish_header K).body = announced_body p.header := by
    simp [finish_header, hb]
  cases ha : announced_body p.header with
  | none =>
    have hs : (p.finish_header K).parse_status = PARSE_FINISHED := by
      simp [finish_header, hb, ha]
    unfold Resumable
    rw [hs]
    exact hn
  | some body =>
    have hs : (p.finish_header K).parse_status = PARSE_BODY := by
      simp [finish_header, ha]
    rw [ha] at hbody
    unfold Resumable
    rw [hs]
    rcases announced_body_cases ha with hlen | hchunk
    · exact ⟨body, hbody, hlen⟩
    · rw [hn body hbody] at hchunk
      cases hchunk

theorem parse_body_finished {p : Packet α} (h : p.parse_status ≠ PARSE_BODY) (b : Bytes) :
    p.parse_body b = .took 0 p := by
  unfold parse_body
  rw [if_neg h]

theorem parse_from_header {p : Packet α} (h : p.parse_status = PARSE_HEADER) (value b : Bytes) :
    p.parse_from K value b = p.parse_head K value b := by
  simp [parse_from, h]

theorem parse_from_late {p : Packet α} (h : p.Late) (value b : Bytes) :
    p.parse_from K value b = p.parse_body b := by
  rcases h with h | h
  · simp [parse_from, parse_head, h]
  · simp [parse_from, parse_body, h]

theorem header_lines_late {p : Packet α} (h : p.Late) (b : Bytes) : p.header_lines K b = [] := by
  unfold header_lines
  rcases h with h | h <;> rw [h]

/-- **The body stage resumes.** -/
theorem parse_body_append {p : Packet α} (h : p.Resumable) (hl : p.Late) (x y : Bytes) :
    ∃ n p', p.parse_body x = .took n p' ∧ n ≤ x.length ∧ p'.Resumable ∧ p'.Late ∧
      p.parse_body (x ++ y) = (p'.parse_body (x.drop n ++ y)).after n := by
  rcases hl with hs | hs
  · unfold Resumable at h
    rw [hs] at h
    obtain ⟨body, hbody, hawait⟩ := h
    -- the call is that of the body, which tells when the message is finished
    have hparse : ∀ b, p.parse_body b = (body.parse b).map fun body => { p with
        body := some body
        parse_status := if body.is_parse_finished then PARSE_FINISHED else PARSE_BODY } := by
      intro b
      simp [parse_body, hs, hbody]
    rw [hparse, hparse]
    by_cases hx : x.length < body.missing
    · -- all of `x` is body, and more is missing
      have hfin : (body.extended x).is_parse_finished = false := by
        simpa [Body.extended] using hx
      rw [Body.parse_awaiting_append hawait hx, Body.parse_awaiting hawait x,
        Nat.min_eq_right (Nat.le_of_lt hx), List.take_length]
      refine ⟨x.length, { p with body := some (body.extended x) }, ?_, Nat.le_refl _, ?_, Or.inl hs,
        ?_⟩
      · simp [Reply.map, hfin, hs]
      · unfold Resumable
        simp only [hs]
        exact ⟨_, rfl, Body.awaiting_extended hawait hx⟩
      · simp [parse_body, hs]
    · -- the body ends in `x`
      have hle : body.missing ≤ x.length := Nat.le_of_not_lt hx
      have htake : (x ++ y).take body.missing = x.take body.missing :=
        List.take_append_of_le_length hle
      have hfin : (body.extended (x.take body.missing)).is_parse_finished = true := by
        simp [Body.extended, hle]
      have hmode : (body.extended (x.take body.missing)).is_chunk_mode = false := hawait.mode
      rw [Body.parse_awaiting hawait x, Body.parse_awaiting hawait (x ++ y), List.length_append,
        Nat.min_eq_left hle, Nat.min_eq_left (by omega), htake]
      refine ⟨body.missing, { p with
        body := some (body.extended (x.take body.missing))
        parse_status := PARSE_FINISHED }, by simp [Reply.map, hfin], hle, ?_, Or.inr rfl, ?_⟩
      · intro body' hbody'
        cases hbody'
        exact hmode
      · rw [parse_body_finished (by simp)]
        simp [Reply.map, Reply.after, hfin]
  · refine ⟨0, p, ?_, Nat.zero_le _, h, Or.inr hs, ?_⟩
    · exact parse_body_finished (by simp [hs]) x
    · simp

theorem parse_body_notChunked {p : Packet α} {b : Bytes}
    (h : (p.parse_body b).All NotChunked) : p.NotChunked := by
  intro body hbody
  unfold parse_body at h
  split at h
  · simp only [hbody, Reply.all_map] at h
    obtain ⟨body', hstate, hn⟩ := h.exists_state
    rw [← Body.parse_mode hstate]
    exact hn body' rfl
  · exact h body hbody

/-- What a call that can be taken up again leaves. -/
structure Resumed (K : Kind α) (value : Bytes) (p : Packet α) (x y : Bytes) (n : Nat)
    (p' : Packet α) : Prop where
  size_le : n ≤ x.length
  resumable : p'.Resumable
  resumes : p.parse_from K value (x ++ y) =
    (p'.parse_from K (Header.carried value (p.header_lines K x)) (x.drop n ++ y)).after n
  lines : p.header_lines K (x ++ y) = p.header_lines K x ++ p'.header_lines K (x.drop n ++ y)

/-- The reply to `x` against the one to `x ++ y`. -/
def Law (K : Kind α) (value : Bytes) (p : Packet α) (x y : Bytes) : Prop :=
  match p.parse_from K value x with
  | .aborted => False
  | .failed p' => p.parse_from K value (x ++ y) = .failed p' ∧
      p.header_lines K (x ++ y) = p.header_lines K x
  | .took n p' => Resumed K value p x y n p'

theorem law_late {p : Packet α} (h : p.Resumable) (hl : p.Late) (value x y : Bytes) :
    Law K value p x y := by
  obtain ⟨n, p', hx, hn, hr, hl', hxy⟩ := parse_body_append h hl x y
  unfold Law
  rw [parse_from_late hl, hx]
  refine ⟨hn, hr, ?_, ?_⟩
  · rw [parse_from_late hl, parse_from_late hl', hxy]
  · rw [header_lines_late hl, header_lines_late hl, header_lines_late hl']
    rfl

/-- **The header stage resumes**, with the carried value. -/
theorem law_header {p : Packet α} (hs : p.parse_status = PARSE_HEADER)
    (hp : p.header.header_parsed = false) (hb : p.body = none) {value x y : Bytes}
    (hn : (p.parse_from K value (x ++ y)).All NotChunked) : Law K value p x y := by
  have hsize := Header.scan_size_le x
  have happend := Header.scan_append x y
  have hlines : ∀ b, p.header_lines K b = (Header.scan b).lines := fun b => by
    simp [header_lines, hs]
  unfold Law
  rw [parse_from_header hs] at hn ⊢
  rw [parse_head_eq hs hp] at hn ⊢
  cases hend : (Header.scan x).ending with
  | more =>
    -- the lines end in `x`, and the scan goes on with the rest of it
    rw [hend, if_pos rfl] at happend
    obtain ⟨t, ht⟩ : ∃ t, Header.scan (x.drop (Header.scan x).size ++ y) = t := ⟨_, rfl⟩
    rw [ht] at happend
    obtain ⟨p', hp'⟩ : ∃ p', p' = { p with
        header := p.header.store_lines value (Header.scan x).lines } := ⟨_, rfl⟩
    have hs' : p'.parse_status = PARSE_HEADER := by rw [hp', ← hs]
    have hparsed' : p'.header.header_parsed = false := by rw [hp']; simpa using hp
    have hdrop : (x ++ y).drop ((Header.scan x).size + t.size) =
        (x.drop (Header.scan x).size ++ y).drop t.size := by
      rw [← List.drop_drop, List.drop_append_of_le_length hsize]
    simp only
    rw [← hp']
    refine ⟨hsize, ?_, ?_, ?_⟩
    · unfold Resumable
      rw [hs']
      exact ⟨hparsed', by rw [hp']; exact hb⟩
    · rw [parse_from_header hs, parse_from_header hs', parse_head_eq hs hp,
        parse_head_eq hs' hparsed', happend, ht, hlines]
      simp only [Header.Scan.followed, Header.store_lines_append, hdrop, hp']
      cases t.ending with
      | more => rfl
      | blank => simp only [Reply.after_after]
        -- the header ends in `x`, and the body takes the rest
      | malformed => rfl
        -- refused already in `x`
    · rw [hlines, hlines, happend]
      simp [Header.Scan.followed, header_lines, hs', ht]
  | blank =>
    rw [hend, if_neg (by simp)] at happend
    rw [happend, hend] at hn
    obtain ⟨p₁, hp₁⟩ : ∃ p₁, p₁ = finish_header K { p with header :=
        { p.header.store_lines value (Header.scan x).lines with header_parsed := true } } :=
      ⟨_, rfl⟩
    simp only [Reply.all_after] at hn ⊢
    rw [← hp₁] at hn ⊢
    have hl : p₁.Late := by rw [hp₁]; exact finish_header_late _
    have hr : p₁.Resumable := by
      have hnot := parse_body_notChunked hn
      rw [hp₁] at hnot ⊢
      exact finish_header_resumable hb hnot
    obtain ⟨n, p', hx, hle, hr', hl', hxy⟩ :=
      parse_body_append hr hl (x.drop (Header.scan x).size) y
    rw [hx]
    rw [List.length_drop] at hle
    refine ⟨by omega, hr', ?_, ?_⟩
    · rw [parse_from_header hs, parse_head_eq hs hp, happend, hend, parse_from_late hl']
      simp only
      rw [← hp₁, List.drop_append_of_le_length hsize, hxy, List.drop_drop, Reply.after_after]
    · rw [header_lines_late hl', hlines, hlines, happend, List.append_nil]
  | malformed =>
    rw [hend, if_neg (by simp)] at happend
    simp only
    rw [parse_from_header hs, parse_head_eq hs hp, hlines, hlines, happend, hend]
    exact ⟨rfl, rfl⟩

/-- The stage a call starts in. -/
theorem parse_from_line {p : Packet α} (hs : p.parse_status = PARSE_NONE ∨ p.parse_status = PARSE_LINE)
    (value b : Bytes) :
    p.parse_from K value b =
      match find_http_line_end b with
      | none => .took 0 { p with parse_status := PARSE_LINE }
      | some n =>
        let r := K.parse_line p.fields p.version (b.take n)
        if r.1 then
          (parse_head K value { p with
            fields := r.2.1
            version := r.2.2
            parse_status := PARSE_HEADER } (b.drop n)).after n
        else .failed { p with
          fields := r.2.1
          version := r.2.2
          parse_status := PARSE_LINE } := by
  have hp : (if p.parse_status = PARSE_NONE then { p with parse_status := PARSE_LINE } else p) =
      { p with parse_status := PARSE_LINE } := by
    rcases hs with hs | hs
    · rw [if_pos hs]
    · rw [if_neg (by simp [hs]), ← hs]
  have hfin : p.parse_status ≠ PARSE_FINISHED := by
    rcases hs with hs | hs <;> simp [hs]
  unfold parse_from
  rw [if_neg hfin]
  simp only [hp, if_true, parse_start_line]
  cases hfind : find_http_line_end b with
  | none => rfl
  | some n =>
    have hn := find_http_line_end_bounds hfind
    by_cases hok : (K.parse_line p.fields p.version (b.take n)).1 = true
    · simp only [if_pos hok]
      rw [if_neg (by omega)]
    · simp only [if_neg hok]

theorem header_lines_line {p : Packet α}
    (hs : p.parse_status = PARSE_NONE ∨ p.parse_status = PARSE_LINE) (b : Bytes) :
    p.header_lines K b =
      match find_http_line_end b with
      | none => []
      | some n =>
        if (K.parse_line p.fields p.version (b.take n)).1 then (Header.scan (b.drop n)).lines
        else [] := by
  have hlines : p.header_lines K b =
      match p.parse_start_line K b with
      | .took n _ => if n = 0 then [] else (Header.scan (b.drop n)).lines
      | _ => [] := by
    unfold header_lines
    rcases hs with hs | hs <;> rw [hs]
  rw [hlines]
  unfold parse_start_line
  cases hfind : find_http_line_end b with
  | none => rfl
  | some n =>
    have hn := find_http_line_end_bounds hfind
    simp only
    by_cases hok : (K.parse_line p.fields p.version (b.take n)).1 = true
    · simp only [hok, if_true]
      rw [if_neg (by omega)]
    · simp only [hok]
      rfl

/-- **One call resumes.** -/
theorem law {p : Packet α} (h : p.Resumable) {value x y : Bytes}
    (hn : (p.parse_from K value (x ++ y)).All NotChunked) : Law K value p x y := by
  rcases h.stage with ⟨hs, hparsed, hb⟩ | ⟨hs, hparsed, hb⟩ | hl
  · -- the start line
    rw [parse_from_line hs] at hn
    unfold Law
    rw [parse_from_line hs]
    cases hfind : find_http_line_end x with
    | none =>
      -- no start line yet
      have hs' : (Packet.mk p.fields p.version p.header p.body PARSE_LINE).parse_status = PARSE_NONE ∨
          (Packet.mk p.fields p.version p.header p.body PARSE_LINE).parse_status = PARSE_LINE :=
        Or.inr rfl
      have hnil : p.header_lines K x = [] := by rw [header_lines_line hs, hfind]
      refine ⟨Nat.zero_le _, ⟨hparsed, hb⟩, ?_, ?_⟩
      · rw [parse_from_line hs, parse_from_line hs', hnil, Reply.after_zero]
        rfl
      · rw [header_lines_line hs, header_lines_line hs', hnil]
        rfl
    | some n =>
      have hbounds := find_http_line_end_bounds hfind
      have hfind' := find_http_line_end_append hfind y
      have htake : (x ++ y).take n = x.take n := List.take_append_of_le_length hbounds.2
      have hdrop : (x ++ y).drop n = x.drop n ++ y := List.drop_append_of_le_length hbounds.2
      rw [hfind'] at hn
      simp only [htake, hdrop] at hn
      simp only
      by_cases hok : (K.parse_line p.fields p.version (x.take n)).1 = true
      · obtain ⟨p₁, hp₁⟩ : ∃ p₁ : Packet α, p₁ = { p with
            fields := (K.parse_line p.fields p.version (x.take n)).2.1
            version := (K.parse_line p.fields p.version (x.take n)).2.2
            parse_status := PARSE_HEADER } := ⟨_, rfl⟩
        have hs₁ : p₁.parse_status = PARSE_HEADER := by rw [hp₁]
        have hlines₁ : ∀ b, p₁.header_lines K b = (Header.scan b).lines := fun b => by
          simp [header_lines, hs₁]
        rw [if_pos hok, Reply.all_after, ← hp₁, ← parse_from_header hs₁] at hn
        rw [if_pos hok, ← hp₁, ← parse_from_header hs₁]
        have hlaw := law_header hs₁ (by rw [hp₁]; exact hparsed) (by rw [hp₁]; exact hb) hn
        have hwhole : p.parse_from K value (x ++ y) = (p₁.parse_from K value (x.drop n ++ y)).after n := by
          rw [parse_from_line hs, hfind']
          simp only [htake, hdrop]
          rw [if_pos hok, ← hp₁, ← parse_from_header hs₁]
        have hx : p.header_lines K x = p₁.header_lines K (x.drop n) := by
          rw [header_lines_line hs, hfind, hlines₁]
          simp only
          rw [if_pos hok]
        have hxy : p.header_lines K (x ++ y) = p₁.header_lines K (x.drop n ++ y) := by
          rw [header_lines_line hs, hfind', hlines₁]
          simp only [htake, hdrop]
          rw [if_pos hok]
        unfold Law at hlaw
        cases hcall : p₁.parse_from K value (x.drop n) with
        | aborted =>
          rw [hcall] at hlaw
          exact hlaw.elim
        | failed p' =>
          rw [hcall] at hlaw
          simp only [Reply.after]
          rw [hwhole, hlaw.1, hx, hxy, hlaw.2]
          exact ⟨rfl, rfl⟩
        | took m p' =>
          rw [hcall] at hlaw
          obtain ⟨hle, hr, hres, hl⟩ := hlaw
          rw [List.length_drop] at hle
          rw [List.drop_drop] at hres hl
          simp only [Reply.after]
          refine ⟨by omega, hr, ?_, ?_⟩
          · rw [hwhole, hres, Reply.after_after, hx]
          · rw [hxy, hl, hx]
      · rw [if_neg hok, parse_from_line hs, header_lines_line hs, header_lines_line hs, hfind, hfind']
        simp only [htake]
        simp [hok]
  · exact law_header hs hparsed hb hn
  · exact law_late h hl value x y

/-! ## Section 3: All calls -/

theorem parse_head_carry_free {p : Packet α} (hs : p.parse_status = PARSE_HEADER)
    (hp : p.header.header_parsed = false) {value b : Bytes}
    (hfree : Header.CarryFree value (Header.scan b).lines) :
    p.parse_head K value b = p.parse_head K [] b := by
  rw [parse_head_eq hs hp, parse_head_eq hs hp, Header.store_lines_carry_free hfree]

/-- Without a value to carry, a call does not depend on it. -/
theorem parse_from_carry_free {p : Packet α} (h : p.Resumable) {value b : Bytes}
    (hfree : Header.CarryFree value (p.header_lines K b)) :
    p.parse_from K value b = p.parse_from K [] b := by
  rcases h.stage with ⟨hs, hp, -⟩ | ⟨hs, hp, -⟩ | hl
  · rw [header_lines_line hs] at hfree
    rw [parse_from_line hs, parse_from_line hs]
    cases hfind : find_http_line_end b with
    | none => rfl
    | some n =>
      rw [hfind] at hfree
      simp only at hfree ⊢
      split
      · next hok =>
        rw [if_pos hok] at hfree
        congr 1
        exact parse_head_carry_free (p := { p with
          fields := (K.parse_line p.fields p.version (b.take n)).2.1
          version := (K.parse_line p.fields p.version (b.take n)).2.2
          parse_status := PARSE_HEADER }) rfl hp hfree
      · rfl
  · rw [parse_from_header hs, parse_from_header hs]
    refine parse_head_carry_free hs hp ?_
    simpa [header_lines, hs] using hfree
  · rw [parse_from_late hl, parse_from_late hl]

/-- `parse` with the carried value in its state. -/
def parse_carrying (K : Kind α) (s : Packet α × Bytes) (b : Bytes) : Reply (Packet α × Bytes) :=
  (s.1.parse_from K s.2 b).map fun p => (p, Header.carried s.2 (s.1.header_lines K b))

/-- Invariant of a message and the stream still to come. -/
def Carrying (K : Kind α) (s : Packet α × Bytes) (b : Bytes) : Prop :=
  s.1.Resumable ∧ (s.1.parse_from K s.2 b).All NotChunked ∧
    Header.CarryFree s.2 (s.1.header_lines K b)

theorem carrying_resumes {s : Packet α × Bytes} {x y : Bytes} (h : Carrying K s (x ++ y)) :
    ResumesAt (parse_carrying K) s x y := by
  obtain ⟨p, value⟩ := s
  obtain ⟨hr, hn, -⟩ := h
  have hlaw := law hr hn
  unfold Law at hlaw
  unfold ResumesAt parse_carrying
  simp only
  cases hx : p.parse_from K value x with
  | aborted =>
    rw [hx] at hlaw
    exact hlaw.elim
  | failed p' =>
    rw [hx] at hlaw
    simp only [Reply.map, hlaw.1, hlaw.2]
  | took n p' =>
    rw [hx] at hlaw
    change (p.parse_from K value (x ++ y)).map _ =
      ((p'.parse_from K _ (x.drop n ++ y)).map _).after n
    rw [hlaw.resumes, hlaw.lines, Header.carried_append, Reply.map_after]

theorem carrying_took {s s' : Packet α × Bytes} {x y : Bytes} {n : Nat}
    (h : Carrying K s (x ++ y)) (hx : parse_carrying K s x = .took n s') :
    Carrying K s' (x.drop n ++ y) := by
  obtain ⟨p, value⟩ := s
  obtain ⟨hr, hn, hfree⟩ := h
  have hlaw := law hr hn
  unfold Law at hlaw
  unfold parse_carrying at hx
  cases hcall : p.parse_from K value x with
  | aborted => simp [hcall, Reply.map] at hx
  | failed p' => simp [hcall, Reply.map] at hx
  | took m p' =>
    simp only [hcall, Reply.map, Reply.took.injEq] at hx
    obtain ⟨rfl, rfl⟩ := hx
    rw [hcall] at hlaw
    simp only at hn hfree
    rw [hlaw.resumes, Reply.all_after] at hn
    rw [hlaw.lines, Header.carry_free_append] at hfree
    exact ⟨hlaw.resumable, hn, hfree.2⟩

theorem carrying_parse {s : Packet α × Bytes} {x y : Bytes} (h : Carrying K s (x ++ y)) :
    s.1.parse K x = (parse_carrying K s x).map Prod.fst := by
  obtain ⟨p, value⟩ := s
  obtain ⟨hr, hn, hfree⟩ := h
  have hlaw := law hr hn
  unfold Law at hlaw
  -- the lines of `x` are the first of those of `x ++ y`
  have hx : Header.CarryFree value (p.header_lines K x) := by
    simp only at hfree
    cases hcall : p.parse_from K value x with
    | aborted =>
      rw [hcall] at hlaw
      exact hlaw.elim
    | failed p' =>
      rw [hcall] at hlaw
      rwa [hlaw.2] at hfree
    | took n p' =>
      rw [hcall] at hlaw
      rw [hlaw.lines, Header.carry_free_append] at hfree
      exact hfree.1
  have hid : (Prod.fst ∘ fun p' => (p', Header.carried value (p.header_lines K x))) =
      (id : Packet α → Packet α) := rfl
  simp only [parse_carrying, parse]
  rw [Reply.map_map, hid, Reply.map_id, parse_from_carry_free hr hx]

/-- Without carried values the segments do not matter. -/
theorem feed_eq_parse_of_carry_free {p : Packet α} (h : p.Resumable) {segs : List Bytes}
    (hne : segs ≠ []) (hn : (p.parse K segs.flatten).All NotChunked)
    (hfree : Header.CarryFree [] (p.header_lines K segs.flatten)) :
    feed (parse K) p [] segs = p.parse K segs.flatten := by
  have hinv : Carrying K (p, []) ([] ++ segs.flatten) := ⟨h, hn, hfree⟩
  have hmap := feed_map (parse K) Prod.fst
    (fun _ _ _ _ _ => carrying_took) (fun _ _ _ => carrying_parse) hinv
  have hfeed := feed_eq_parse (fun _ _ _ _ _ => carrying_took) (fun _ _ _ => carrying_resumes)
    hinv hne
  rw [hmap, hfeed]
  exact (carrying_parse (y := []) (by simpa using hinv)).symm

/-! ## Section 4: The segments matter when a value is carried -/

/-- The body stage leaves everything but the body and the status. -/
theorem parse_body_kept {p p' : Packet α} {b : Bytes} (h : (p.parse_body b).state = some p') :
    p'.fields = p.fields ∧ p'.version = p.version ∧ p'.header = p.header := by
  unfold parse_body at h
  split at h
  · split at h
    · cases h
    · rw [Reply.state_map] at h
      obtain ⟨body, -, rfl⟩ := Option.map_eq_some_iff.mp h
      exact ⟨rfl, rfl, rfl⟩
  · cases h
    exact ⟨rfl, rfl, rfl⟩

/-- The header map after the header stage. -/
theorem parse_from_headers {p p' : Packet α} (hs : p.parse_status = PARSE_HEADER)
    (hp : p.header.header_parsed = false) {value b : Bytes}
    (h : (p.parse_from K value b).state = some p') :
    p'.header.headers = (p.header.store_lines value (Header.scan b).lines).headers := by
  rw [parse_from_header hs, parse_head_eq hs hp] at h
  split at h
  · cases h
    rfl
  · rw [Reply.state_after] at h
    rw [(parse_body_kept h).2.2]
    rfl
  · cases h
    rfl

/-- The first call of a message, up to the end of some of its lines. -/
theorem parse_cut {fields : α} {s : Bytes} {l₁ l₂ : List (Bytes × Bytes)}
    (hl : (construct fields).header_lines K s = l₁ ++ l₂) (hne : l₂ ≠ []) :
    ∃ k p, 0 < k ∧ k ≤ s.length ∧ (construct fields).parse K (s.take k) = .took k p ∧
      p.parse_status = PARSE_HEADER ∧ p.header.header_parsed = false ∧
      (construct fields).header_lines K (s.take k) = l₁ := by
  have hs : (construct fields).parse_status = PARSE_NONE ∨
      (construct fields).parse_status = PARSE_LINE := Or.inl rfl
  rw [header_lines_line hs] at hl
  cases hfind : find_http_line_end s with
  | none => simp [hfind, hne] at hl
  | some n =>
    have hn := find_http_line_end_bounds hfind
    rw [hfind] at hl
    simp only at hl
    split at hl
    · next hok =>
      obtain ⟨k, hk, hscan⟩ := Header.scan_take hl
      rw [List.length_drop] at hk
      -- the cut leaves the start line as it is
      have hfind' : find_http_line_end (s.take (n + k)) = some n := by
        apply find_http_line_end_of_append (y := s.drop (n + k))
        · rw [List.take_append_drop, hfind]
        · rw [List.length_take]
          omega
      have htake : (s.take (n + k)).take n = s.take n := by
        rw [List.take_take, Nat.min_eq_left (by omega)]
      have hdrop : (s.take (n + k)).drop n = (s.drop n).take k := by
        rw [List.drop_take, Nat.add_sub_cancel_left]
      obtain ⟨p₁, hp₁⟩ : ∃ p₁ : Packet α, p₁ = { construct fields with
          fields := (K.parse_line (construct fields).fields (construct fields).version (s.take n)).2.1
          version := (K.parse_line (construct fields).fields (construct fields).version (s.take n)).2.2
          parse_status := PARSE_HEADER } := ⟨_, rfl⟩
      have hs₁ : p₁.parse_status = PARSE_HEADER := by rw [hp₁]
      have hparsed₁ : p₁.header.header_parsed = false := by rw [hp₁]; rfl
      refine ⟨n + k, { p₁ with header := p₁.header.store_lines [] l₁ }, by omega, by omega, ?_, hs₁,
        ?_, ?_⟩
      · unfold parse
        rw [parse_from_line hs, hfind']
        simp only [htake, hdrop]
        rw [if_pos hok, ← hp₁, parse_head_eq hs₁ hparsed₁, hscan]
        rfl
      · simpa using hparsed₁
      · rw [header_lines_line hs, hfind']
        simp only [htake, hdrop]
        rw [if_pos hok, hscan]
    · exact absurd (List.append_eq_nil_iff.mp hl.symm).2 hne

/-- A carried value shows in the header map when the stream is cut before
    the line it is carried to. -/
theorem carry_shows {fields : α} {s : Bytes}
    (hn : ((construct fields).parse K s).All NotChunked)
    (hcarry : ¬ Header.CarryFree [] ((construct fields).header_lines K s)) :
    ∃ a b, a ≠ [] ∧ b ≠ [] ∧ a ++ b = s ∧ ∀ p₁ p₂,
      (feed (parse K) (construct fields) [] [a, b]).state = some p₁ →
      ((construct fields).parse K s).state = some p₂ → p₁.header.headers ≠ p₂.header.headers := by
  obtain ⟨l₁, name, l₂, hl, hne⟩ := Header.exists_carry hcarry
  -- the stream is cut in front of the line that a value is carried to
  obtain ⟨k, p, hpos, hk, hcall, hs, hp, hlines⟩ := parse_cut hl (List.cons_ne_nil _ _)
  have hsplit := List.take_append_drop k s
  have hr := resumable_construct fields
  have hlaw : Law K [] (construct fields) (s.take k) (s.drop k) := law hr (by rwa [hsplit])
  have htake : (s.take k).drop k = [] := by simp
  unfold Law at hlaw
  unfold parse at hcall
  rw [hcall] at hlaw
  obtain ⟨-, -, hresumes, hl'⟩ := hlaw
  rw [hsplit, htake, List.nil_append] at hresumes hl'
  rw [hl, hlines, List.append_cancel_left_eq] at hl'
  rw [hlines] at hresumes
  have hscan : (Header.scan (s.drop k)).lines = (name, []) :: l₂ := by
    rw [hl']
    simp [header_lines, hs]
  refine ⟨s.take k, s.drop k, ?_, ?_, hsplit, ?_⟩
  · intro h0
    have := congrArg List.length h0
    simp only [List.length_take, List.length_nil] at this
    omega
  · intro h0
    rw [h0, Header.scan_of_not_found rfl] at hscan
    cases hscan
  · intro p₁ p₂ h₁ h₂ heq
    unfold parse at h₂
    rw [hresumes, Reply.state_after] at h₂
    have h₁' : (p.parse_from K [] (s.drop k)).state = some p₁ := by
      unfold feed at h₁
      rw [List.nil_append] at h₁
      unfold parse at h₁
      simp only [hcall, htake, feed_single, List.nil_append, Reply.state_after] at h₁
      exact h₁
    rw [parse_from_headers hs hp h₁', parse_from_headers hs hp h₂, hscan] at heq
    exact Header.store_carry_ne hne heq.symm

/-! ## Section 5: Segmentation -/

/-- What a caller sees of a message. -/
structure View (β : Type) where
  parse_status : ParseStatus
  fields : β
  version : HttpVersion
  headers : HeadMap
  data : Option Bytes
  deriving DecidableEq

/-- The view of a message, `obs` being that of the members of the subclass. -/
def observed {β : Type} (obs : α → β) (p : Packet α) : View β :=
  ⟨p.parse_status, obs p.fields, p.version, p.header.headers, p.body.map (·.data)⟩

/-- The calls on the segments come out as one call on the stream. -/
def SameOutcome {β : Type} (K : Kind α) (obs : α → β) (p : Packet α) (segs : List Bytes) : Prop :=
  (feed (parse K) p [] segs).map (observed obs) = (p.parse K segs.flatten).map (observed obs)

instance {β : Type} [DecidableEq β] (K : Kind α) (obs : α → β) (p : Packet α)
    (segs : List Bytes) : Decidable (SameOutcome K obs p segs) :=
  inferInstanceAs (Decidable (_ = _))

/-- The ways of cutting a stream into segments. -/
def Cut (s : Bytes) (segs : List Bytes) : Prop :=
  segs ≠ [] ∧ (∀ seg ∈ segs, seg ≠ []) ∧ segs.flatten = s

theorem same_outcome_iff {β : Type} {obs : α → β} {fields : α} {s : Bytes}
    (hn : ((construct fields).parse K s).All NotChunked) :
    (∀ segs, Cut s segs → SameOutcome K obs (construct fields) segs) ↔
      Header.CarryFree [] ((construct fields).header_lines K s) := by
  constructor
  · intro hall
    by_contra hcarry
    obtain ⟨a, b, ha, hb, hab, hdiff⟩ := carry_shows hn hcarry
    have hsame := hall [a, b] ⟨List.cons_ne_nil _ _, by simp [ha, hb], by simpa using hab⟩
    unfold SameOutcome at hsame
    rw [show [a, b].flatten = s by simpa using hab] at hsame
    obtain ⟨p₂, h₂, -⟩ := hn.exists_state
    have hstate := congrArg Reply.state hsame
    rw [Reply.state_map, Reply.state_map, h₂] at hstate
    obtain ⟨p₁, h₁, hobs⟩ := Option.map_eq_some_iff.mp hstate
    have hheaders : p₁.header.headers = p₂.header.headers := congrArg View.headers hobs
    exact hdiff p₁ p₂ h₁ h₂ hheaders
  · rintro hfree segs ⟨hne, -, rfl⟩
    unfold SameOutcome
    rw [feed_eq_parse_of_carry_free (resumable_construct fields) hne hn hfree]

end Packet

/-- What a caller sees of a request line. -/
def Request.obs (r : RequestFields) : HttpMethod × Bytes × ParamMap :=
  (r.method, r.uri.path, r.uri.params)

/-- **Messages and segments.** The segments of a message without a chunked
    body do not matter exactly when no header line without a value comes
    after one that has a value to carry to it. -/
theorem message_segmentation (s : Bytes) :
    (((Request.parse Request.construct s).All Packet.NotChunked) →
      ((∀ segs, Packet.Cut s segs →
          Packet.SameOutcome Request.kind Request.obs Request.construct segs) ↔
        Header.CarryFree [] (Packet.header_lines Request.kind Request.construct s))) ∧
      (((Response.parse Response.construct s).All Packet.NotChunked) →
        ((∀ segs, Packet.Cut s segs →
            Packet.SameOutcome Response.kind ResponseFields.status_code Response.construct segs) ↔
          Header.CarryFree [] (Packet.header_lines Response.kind Response.construct s))) :=
  ⟨fun hn => Packet.same_outcome_iff hn, fun hn => Packet.same_outcome_iff hn⟩

theorem same_outcome_two_segments :
    Packet.SameOutcome Request.kind Request.obs Request.construct
      [ascii "GET /?k=v HTTP/1.1\r\nA:x", ascii "\r\nB:y\r\n\r\n"] :=
  (((message_segmentation (ascii "GET /?k=v HTTP/1.1\r\nA:x\r\nB:y\r\n\r\n")).1
    (by decide)).mpr (by decide)) _ (by unfold Packet.Cut; decide)

/-- The header `B` has no value of its own: one call gives it that of `A`,
    two calls do not. -/
theorem not_same_outcome_empty_header :
    (Request.parse Request.construct (ascii "GET / HTTP/1.1\r\nA:x\r\nB:\r\n\r\n")).All
        Packet.NotChunked ∧
      ¬ Packet.SameOutcome Request.kind Request.obs Request.construct
        [ascii "GET / HTTP/1.1\r\nA:x\r\n", ascii "B:\r\n\r\n"] := by
  decide

end Pump
