import Mathlib
import Pump.Incremental
import Pump.Http.Utils

/-! # header

    The header map of a message, `proto/http/header.cpp`: storing and
    looking up values, and parsing and serializing the header lines. -/

namespace Pump

/-! ## Section 1: Model -/

abbrev HeadMap := Std.ExtTreeMap Bytes (List Bytes) compare

/-- `http::header`. -/
structure Header where
  header_parsed : Bool
  headers : HeadMap
  deriving DecidableEq

namespace Header

/-- The constructor. -/
def construct : Header := ⟨false, ∅⟩

def head_value_sep : Bytes := ascii "; "

/-- `header::set_head` with a string value. -/
def set_head (h : Header) (name value : Bytes) : Header :=
  let vals := split_string value head_sep
  { h with headers := h.headers.insert name (h.headers.getD name [] ++ vals) }

/-- The text that `set_head` and `set_unique_head` store for an `int32_t`. -/
def int_value (value : Int) : Bytes := (snprintf 63 (format_dec value)).1

/-- `header::set_head` with an `int32_t`. -/
def set_head_int (h : Header) (name : Bytes) (value : Int) : Header :=
  { h with headers := h.headers.insert name (h.headers.getD name [] ++ [int_value value]) }

/-- `header::set_unique_head` with a string value. -/
def set_unique_head (h : Header) (name value : Bytes) : Header :=
  { h with headers := h.headers.insert name (split_string value head_sep) }

/-- `header::set_unique_head` with an `int32_t`. -/
def set_unique_head_int (h : Header) (name : Bytes) (value : Int) : Header :=
  { h with headers := h.headers.insert name [int_value value] }

/-- `header::get_head` of a list of values. -/
def get_head_values (h : Header) (name : Bytes) : Option (List Bytes) :=
  match h.headers[name]? with
  | some (v :: vs) => some (v :: vs)
  | _ => none

/-- `header::get_head` of an `int32_t`. -/
def get_head_int (h : Header) (name : Bytes) : Option Int :=
  (h.get_head_values name).map fun vs => (atol (c_str (vs.headD []))).bmod (2 ^ 32)

/-- `header::get_head` of a string. -/
def get_head (h : Header) (name : Bytes) : Option Bytes :=
  (h.get_head_values name).map fun vs => join_strings vs head_value_sep

/-- The name of a header line and what follows the colon; `none` when there
    is no name or no colon. -/
def split_line (line : Bytes) : Option (Bytes × Bytes) :=
  let name := line.takeWhile (· ≠ 58)
  let tail := line.dropWhile (· ≠ 58)
  if tail = [] ∨ name = [] then none
  else some (name, tail.dropWhile fun c => c = 32 || c = 58)

/-- The loop of `header::__parse_header` at the bytes `b`, `value` being the
    local of the same name: it keeps its content when a line has no value. -/
def parse_header_loop : Nat → Header → Bytes → Bytes → Nat → Reply Header
  | 0, h, _, _, size => .took size h
  | fuel + 1, h, value, b, size =>
    match find_http_line_end b with
    | none => .took size h
    | some n =>
      if n = http_crlf_length then .took (size + http_crlf_length) { h with header_parsed := true }
      else
        match split_line (b.take n) with
        | none => .failed h
        | some (name, rest) =>
          let value := if rest.length > http_crlf_length
            then rest.take (rest.length - http_crlf_length) else value
          parse_header_loop fuel (h.set_head name value) value (b.drop n) (size + n)

/-- `header::__parse_header`, with the content `value` its local starts
    from: none in the code. Every turn of the loop takes a byte or more. -/
def parse_header (value : Bytes) (h : Header) (b : Bytes) : Reply Header :=
  if h.header_parsed then .took 0 h else parse_header_loop b.length h value b 0

/-- The line of one header in `header::__serialize_header`. -/
def header_line (name : Bytes) (values : List Bytes) : Bytes × Nat :=
  snprintf http_line_max_length
    (c_str name ++ ascii ": " ++ c_str (join_strings values head_value_sep) ++ http_crlf)

/-- `header::__serialize_header`: the bytes appended and the size returned. -/
def serialize_header (h : Header) : Bytes × Nat :=
  let lines := (h.headers.toList.filter fun e => e.2 ≠ []).map fun e => header_line e.1 e.2
  ((lines.map (·.1)).flatten ++ http_crlf, (lines.map (·.2)).sum + http_crlf_length)

/-! ## Section 2: The lines of a header

    The loop of `__parse_header` does two things at once: it cuts the bytes
    into lines, and stores each line with a value that may come from an
    earlier one. -/

/-- Why the loop stops. -/
inductive Ending where
  | more
  | blank
  | malformed
  deriving DecidableEq

/-- The lines the loop stores, with their own values; the bytes it takes. -/
structure Scan where
  lines : List (Bytes × Bytes)
  size : Nat
  ending : Ending

def scan_loop : Nat → Bytes → Scan
  | 0, _ => ⟨[], 0, .more⟩
  | fuel + 1, b =>
    match find_http_line_end b with
    | none => ⟨[], 0, .more⟩
    | some n =>
      if n = http_crlf_length then ⟨[], http_crlf_length, .blank⟩
      else
        match split_line (b.take n) with
        | none => ⟨[], 0, .malformed⟩
        | some (name, rest) =>
          let s := scan_loop fuel (b.drop n)
          ⟨(name, rest.take (rest.length - http_crlf_length)) :: s.lines, n + s.size, s.ending⟩

def scan (b : Bytes) : Scan := scan_loop b.length b

/-- Store `lines`; an empty value is replaced by the carried one. -/
def store_lines (h : Header) (value : Bytes) : List (Bytes × Bytes) → Header
  | [] => h
  | (name, v) :: lines =>
    let value := if v = [] then value else v
    store_lines (h.set_head name value) value lines

/-- The value carried past `lines`. -/
def carried (value : Bytes) : List (Bytes × Bytes) → Bytes
  | [] => value
  | (_, v) :: lines => carried (if v = [] then value else v) lines

/-- The result of the loop from a scan of its bytes. -/
def scanned (h : Header) (value : Bytes) (size : Nat) (s : Scan) : Reply Header :=
  match s.ending with
  | .more => .took (size + s.size) (store_lines h value s.lines)
  | .blank => .took (size + s.size) { store_lines h value s.lines with header_parsed := true }
  | .malformed => .failed (store_lines h value s.lines)

theorem parse_header_loop_eq (fuel : Nat) (h : Header) (value b : Bytes) (size : Nat) :
    parse_header_loop fuel h value b size = scanned h value size (scan_loop fuel b) := by
  induction fuel generalizing h value b size with
  | zero => simp [parse_header_loop, scan_loop, scanned, store_lines]
  | succ fuel ih =>
    unfold parse_header_loop scan_loop
    cases hfind : find_http_line_end b with
    | none => simp [scanned, store_lines]
    | some n =>
      by_cases hn : n = http_crlf_length
      · simp [hn, scanned, store_lines]
      · simp only [if_neg hn]
        cases hsplit : split_line (b.take n) with
        | none => simp [scanned, store_lines]
        | some line =>
          obtain ⟨name, rest⟩ := line
          have hvalue : (if rest.length > http_crlf_length
              then rest.take (rest.length - http_crlf_length) else value) =
              if rest.take (rest.length - http_crlf_length) = [] then value
                else rest.take (rest.length - http_crlf_length) := by
            by_cases hlen : rest.length > http_crlf_length
            · have hne : rest.take (rest.length - http_crlf_length) ≠ [] := by
                rw [ne_eq, List.take_eq_nil_iff]
                rintro (h0 | h0)
                · omega
                · simp [h0] at hlen
              rw [if_pos hlen, if_neg hne]
            · have hnil : rest.take (rest.length - http_crlf_length) = [] := by
                rw [List.take_eq_nil_iff]
                omega
              rw [if_neg hlen, if_pos hnil]
          simp only [ih, hvalue]
          simp only [scanned, store_lines]
          cases (scan_loop fuel (b.drop n)).ending <;> simp [Nat.add_assoc]

/-- The fuel is enough. -/
theorem scan_loop_fuel {fuel : Nat} {b : Bytes} (h : b.length ≤ fuel) :
    scan_loop fuel b = scan b := by
  suffices hs : ∀ m fuel b, b.length ≤ m → m ≤ fuel → scan_loop fuel b = scan_loop m b from
    hs b.length fuel b (Nat.le_refl _) h
  intro m
  induction m with
  | zero =>
    intro fuel b hb _
    obtain rfl : b = [] := by simpa using hb
    cases fuel <;> rfl
  | succ m ih =>
    intro fuel b hb hfuel
    obtain ⟨fuel, rfl⟩ : ∃ k, fuel = k + 1 := ⟨fuel - 1, by omega⟩
    unfold scan_loop
    cases hfind : find_http_line_end b with
    | none => rfl
    | some n =>
      have hn := find_http_line_end_bounds hfind
      have hdrop : (b.drop n).length ≤ m := by
        rw [List.length_drop]
        omega
      simp only [ih fuel (b.drop n) hdrop (by omega)]

theorem parse_header_eq {h : Header} (hp : h.header_parsed = false) (value b : Bytes) :
    parse_header value h b = scanned h value 0 (scan b) := by
  unfold parse_header scan
  rw [hp, parse_header_loop_eq]
  rfl

theorem scan_of_not_found {b : Bytes} (h : find_http_line_end b = none) :
    scan b = ⟨[], 0, .more⟩ := by
  rw [← scan_loop_fuel (Nat.le_succ b.length)]
  simp [scan_loop, h]

theorem scan_of_found {b : Bytes} {n : Nat} (h : find_http_line_end b = some n) :
    scan b =
      if n = http_crlf_length then ⟨[], http_crlf_length, .blank⟩
      else
        match split_line (b.take n) with
        | none => ⟨[], 0, .malformed⟩
        | some (name, rest) =>
          let s := scan (b.drop n)
          ⟨(name, rest.take (rest.length - http_crlf_length)) :: s.lines, n + s.size, s.ending⟩ := by
  have hdrop : (b.drop n).length ≤ b.length := by
    rw [List.length_drop]
    omega
  rw [← scan_loop_fuel (Nat.le_succ b.length)]
  simp only [scan_loop, h, scan_loop_fuel hdrop]

/-- The scan of `x ++ y` goes on from where the scan of `x` waits. -/
def Scan.followed (s t : Scan) : Scan := ⟨s.lines ++ t.lines, s.size + t.size, t.ending⟩

theorem scan_append (x y : Bytes) :
    scan (x ++ y) =
      if (scan x).ending = .more then (scan x).followed (scan (x.drop (scan x).size ++ y))
      else scan x := by
  induction hlen : x.length using Nat.strong_induction_on generalizing x with
  | _ m ih =>
    cases hfind : find_http_line_end x with
    | none => simp [scan_of_not_found hfind, Scan.followed]
    | some n =>
      have hn := find_http_line_end_bounds hfind
      have hfind' := find_http_line_end_append hfind y
      have htake : (x ++ y).take n = x.take n := List.take_append_of_le_length hn.2
      have hdrop : (x ++ y).drop n = x.drop n ++ y := List.drop_append_of_le_length hn.2
      rw [scan_of_found hfind, scan_of_found hfind', htake, hdrop]
      by_cases hblank : n = http_crlf_length
      · simp [hblank]
      · simp only [if_neg hblank]
        cases hsplit : split_line (x.take n) with
        | none => simp
        | some line =>
          obtain ⟨name, rest⟩ := line
          have hrec := ih (x.drop n).length (by rw [List.length_drop]; omega) (x.drop n) rfl
          simp only [hrec]
          split
          · simp [Scan.followed, List.drop_drop, Nat.add_assoc]
          · rfl

/-- What follows the colon ends with the line's own `\r\n`: the assertion
    of the loop holds. -/
theorem split_line_rest {line name rest : Bytes}
    (h : split_line (line ++ http_crlf) = some (name, rest)) :
    ∃ value, rest = value ++ http_crlf := by
  have hcrlf : http_crlf.dropWhile (fun c => decide (c ≠ 58)) = [] := by decide
  have hkeep : http_crlf.dropWhile (fun c => decide (c = 32) || decide (c = 58)) = http_crlf := by
    decide
  by_cases hline : line.dropWhile (fun c => decide (c ≠ 58)) = []
  · have htail : (line ++ http_crlf).dropWhile (fun c => decide (c ≠ 58)) = [] := by
      rw [List.dropWhile_append, hline, hcrlf]
      rfl
    simp only [split_line, htail, true_or, if_true] at h
    cases h
  · have htail : (line ++ http_crlf).dropWhile (fun c => decide (c ≠ 58)) =
        line.dropWhile (fun c => decide (c ≠ 58)) ++ http_crlf := by
      rw [List.dropWhile_append, if_neg (by simpa using hline)]
    simp only [split_line, htail] at h
    split at h
    · cases h
    · simp only [Option.some.injEq, Prod.mk.injEq] at h
      rw [← h.2, List.dropWhile_append]
      split
      · exact ⟨[], hkeep⟩
      · exact ⟨_, rfl⟩

/-- A line with a colon comes apart at the first one, the value without the
    blanks and colons before it. -/
theorem split_line_colon {name : Bytes} (hcolon : (58 : UInt8) ∉ name) (value : Bytes) :
    split_line (name ++ 58 :: value ++ http_crlf) =
      if name = [] then none
      else some (name, (value.dropWhile fun c => c = 32 || c = 58) ++ http_crlf) := by
  have hall : ∀ c ∈ name, decide (c ≠ 58) = true := fun c hc => by
    have : c ≠ 58 := fun h => hcolon (h ▸ hc)
    simpa using this
  have hname' : (name ++ 58 :: value ++ http_crlf).takeWhile (fun c => decide (c ≠ 58)) =
      name := by
    rw [List.append_assoc, List.takeWhile_append_of_pos hall]
    simp
  have htail : (name ++ 58 :: value ++ http_crlf).dropWhile (fun c => decide (c ≠ 58)) =
      58 :: value ++ http_crlf := by
    rw [List.append_assoc, List.dropWhile_append_of_pos hall]
    simp
  have hcrlf : http_crlf.dropWhile (fun c => decide (c = 32) || decide (c = 58)) = http_crlf := by
    decide
  have hrest : (58 :: value ++ http_crlf).dropWhile
      (fun c => decide (c = 32) || decide (c = 58)) =
      value.dropWhile (fun c => decide (c = 32) || decide (c = 58)) ++ http_crlf := by
    rw [List.cons_append, List.dropWhile_cons_of_pos (by decide), List.dropWhile_append]
    split
    · next hnil => rw [hcrlf, List.isEmpty_iff.mp hnil, List.nil_append]
    · rfl
  unfold split_line
  simp only [hname', htail, hrest]
  by_cases hname : name = []
  · rw [if_pos (Or.inr hname), if_pos hname]
  · rw [if_neg (by simp [hname]), if_neg hname]

/-- A line that comes apart has a colon behind its name. -/
theorem split_line_some {line name rest : Bytes}
    (h : split_line (line ++ http_crlf) = some (name, rest)) :
    ∃ value, line = name ++ 58 :: value ∧ (58 : UInt8) ∉ name ∧ name ≠ [] := by
  have hcrlf : http_crlf.dropWhile (fun c => decide (c ≠ 58)) = [] := by decide
  have hsplit := @List.takeWhile_append_dropWhile _ (fun c : UInt8 => decide (c ≠ 58)) line
  rcases htail : line.dropWhile (fun c => decide (c ≠ 58)) with _ | ⟨c, value⟩
  · -- no colon in the line, and none in its `\r\n`
    have hnone : (line ++ http_crlf).dropWhile (fun c => decide (c ≠ 58)) = [] := by
      rw [List.dropWhile_append, htail, hcrlf]
      rfl
    simp only [split_line, hnone, true_or, if_true] at h
    cases h
  · have hc := List.head?_dropWhile_not (fun c : UInt8 => decide (c ≠ 58)) line
    rw [htail] at hc
    obtain rfl : c = 58 := by simpa using hc
    have hcolon : (58 : UInt8) ∉ line.takeWhile (fun c => decide (c ≠ 58)) := by
      intro hmem
      have hne := List.mem_takeWhile_imp hmem
      simp at hne
    rw [htail] at hsplit
    have hwhole := split_line_colon hcolon value
    rw [hsplit, h] at hwhole
    split at hwhole
    · cases hwhole
    · next hne =>
      have hname : name = line.takeWhile (fun c => decide (c ≠ 58)) := by
        injection hwhole with hpair
        exact (Prod.mk.inj hpair).1
      rw [hname]
      exact ⟨value, hsplit.symm, hcolon, hne⟩

/-- The scan of a line with a colon. -/
theorem scan_colon {name value : Bytes} (hcolon : (58 : UInt8) ∉ name)
    (hcr : (13 : UInt8) ∉ name ++ 58 :: value)
    (hroom : (name ++ 58 :: value).length + 2 ≤ http_line_max_length) (rest : Bytes) :
    scan (name ++ 58 :: value ++ http_crlf ++ rest) =
      if name = [] then ⟨[], 0, .malformed⟩
      else ⟨(name, value.dropWhile fun c => c = 32 || c = 58) :: (scan rest).lines,
        (name ++ 58 :: value).length + 2 + (scan rest).size, (scan rest).ending⟩ := by
  have hfind : find_http_line_end (name ++ 58 :: value ++ http_crlf ++ rest) =
      some ((name ++ 58 :: value).length + 2) :=
    find_http_line_end_iff.mpr
      ⟨name ++ 58 :: value, rest, by simp [http_crlf], hcr, rfl, hroom⟩
  have hlen : (name ++ 58 :: value ++ http_crlf).length = (name ++ 58 :: value).length + 2 := by
    rw [List.length_append]
    rfl
  have hne : ¬ (name ++ 58 :: value).length + 2 = http_crlf_length := by
    simp [http_crlf_length]
  rw [scan_of_found hfind, if_neg hne, List.take_left' hlen, List.drop_left' hlen,
    split_line_colon hcolon]
  by_cases hname : name = []
  · rw [if_pos hname, if_pos hname]
  · have hvalue : ((value.dropWhile fun c => c = 32 || c = 58) ++ http_crlf).take
        (((value.dropWhile fun c => c = 32 || c = 58) ++ http_crlf).length - http_crlf_length) =
        value.dropWhile fun c => c = 32 || c = 58 := by
      apply List.take_left'
      simp [http_crlf, http_crlf_length]
    rw [if_neg hname, if_neg hname]
    simp only [hvalue]

theorem scan_size_le (b : Bytes) : (scan b).size ≤ b.length := by
  induction hlen : b.length using Nat.strong_induction_on generalizing b with
  | _ m ih =>
    cases hfind : find_http_line_end b with
    | none => simp [scan_of_not_found hfind]
    | some n =>
      have hn := find_http_line_end_bounds hfind
      rw [scan_of_found hfind]
      split
      · simp only
        unfold http_crlf_length
        omega
      · cases hsplit : split_line (b.take n) with
        | none => simp
        | some line =>
          have hrec := ih (b.drop n).length (by rw [List.length_drop]; omega) (b.drop n) rfl
          rw [List.length_drop] at hrec
          simp only
          omega

/-- The lines can be cut anywhere. -/
theorem scan_take {b : Bytes} {l₁ l₂ : List (Bytes × Bytes)} (h : (scan b).lines = l₁ ++ l₂) :
    ∃ k, k ≤ b.length ∧ scan (b.take k) = ⟨l₁, k, .more⟩ := by
  induction l₁ generalizing b with
  | nil => exact ⟨0, Nat.zero_le _, scan_of_not_found (by rw [List.take_zero]; rfl)⟩
  | cons line l₁ ih =>
    cases hfind : find_http_line_end b with
    | none => simp [scan_of_not_found hfind] at h
    | some n =>
      have hn := find_http_line_end_bounds hfind
      rw [scan_of_found hfind] at h
      by_cases h2 : n = http_crlf_length
      · simp [h2] at h
      · rw [if_neg h2] at h
        cases hsplit : split_line (b.take n) with
        | none => simp [hsplit] at h
        | some r =>
          obtain ⟨name, rest⟩ := r
          simp only [hsplit, List.cons_append, List.cons.injEq] at h
          obtain ⟨k, hk, hscan⟩ := ih h.2
          rw [List.length_drop] at hk
          have hfind' : find_http_line_end (b.take (n + k)) = some n := by
            apply find_http_line_end_of_append (y := b.drop (n + k))
            · rw [List.take_append_drop, hfind]
            · rw [List.length_take]
              omega
          have htake : (b.take (n + k)).take n = b.take n := by
            rw [List.take_take, Nat.min_eq_left (by omega)]
          have hdrop : (b.take (n + k)).drop n = (b.drop n).take k := by
            rw [List.drop_take, Nat.add_sub_cancel_left]
          refine ⟨n + k, by omega, ?_⟩
          rw [scan_of_found hfind', if_neg h2, htake, hsplit, hdrop]
          simp only [hscan, h.1]

/-! ## Section 3: Carried values -/

theorem store_lines_append (h : Header) (value : Bytes) (l₁ l₂ : List (Bytes × Bytes)) :
    store_lines h value (l₁ ++ l₂) =
      store_lines (store_lines h value l₁) (carried value l₁) l₂ := by
  induction l₁ generalizing h value with
  | nil => rfl
  | cons line l₁ ih => exact ih _ _

theorem carried_append (value : Bytes) (l₁ l₂ : List (Bytes × Bytes)) :
    carried value (l₁ ++ l₂) = carried (carried value l₁) l₂ := by
  induction l₁ generalizing value with
  | nil => rfl
  | cons line l₁ ih => exact ih _

@[simp] theorem store_lines_parsed (h : Header) (value : Bytes) (lines : List (Bytes × Bytes)) :
    (store_lines h value lines).header_parsed = h.header_parsed := by
  induction lines generalizing h value with
  | nil => rfl
  | cons line lines ih => exact ih _ _

/-- No line without a value has a value carried to it, or only one that is
    stored as the empty value is. -/
def CarryFree (value : Bytes) : List (Bytes × Bytes) → Prop
  | [] => True
  | (_, v) :: lines =>
    (v = [] → split_string value head_sep = [[]]) ∧
      CarryFree (if v = [] then value else v) lines

instance decidableCarryFree (value : Bytes) (lines : List (Bytes × Bytes)) :
    Decidable (CarryFree value lines) :=
  match lines with
  | [] => isTrue trivial
  | (_, v) :: lines =>
    have := decidableCarryFree (if v = [] then value else v) lines
    inferInstanceAs (Decidable (_ ∧ _))

theorem split_empty : split_string [] head_sep = [[]] := rfl

theorem carry_free_append (value : Bytes) (l₁ l₂ : List (Bytes × Bytes)) :
    CarryFree value (l₁ ++ l₂) ↔ CarryFree value l₁ ∧ CarryFree (carried value l₁) l₂ := by
  induction l₁ generalizing value with
  | nil => simp [CarryFree, carried]
  | cons line l₁ ih => simp [CarryFree, carried, ih, and_assoc]

/-- Forgetting the carried value makes no difference then. -/
theorem store_lines_carry_free {value : Bytes} {lines : List (Bytes × Bytes)}
    (hfree : CarryFree value lines) (h : Header) :
    store_lines h value lines = store_lines h [] lines := by
  induction lines generalizing h value with
  | nil => rfl
  | cons line lines ih =>
    obtain ⟨name, v⟩ := line
    obtain ⟨hv, hfree⟩ := hfree
    by_cases hempty : v = []
    · simp only [if_pos hempty] at hfree
      have hset : h.set_head name value = h.set_head name [] := by
        simp only [set_head, hv hempty, split_empty]
      simp only [store_lines, if_pos hempty, hset]
      exact ih hfree _
    · simp only [store_lines, if_neg hempty]

/-- A line a value is carried to. -/
theorem exists_carry {value : Bytes} {lines : List (Bytes × Bytes)} (h : ¬ CarryFree value lines) :
    ∃ l₁ name l₂, lines = l₁ ++ (name, []) :: l₂ ∧
      split_string (carried value l₁) head_sep ≠ [[]] := by
  induction lines generalizing value with
  | nil => exact absurd trivial h
  | cons line lines ih =>
    obtain ⟨name, v⟩ := line
    by_cases hv : v = [] → split_string value head_sep = [[]]
    · have hrest : ¬ CarryFree (if v = [] then value else v) lines := fun hf => h ⟨hv, hf⟩
      obtain ⟨l₁, name', l₂, rfl, hne⟩ := ih hrest
      exact ⟨(name, v) :: l₁, name', l₂, rfl, hne⟩
    · push Not at hv
      obtain ⟨rfl, hne⟩ := hv
      exact ⟨[], name, lines, rfl, hne⟩

/-- The values that `lines` add to the header `name`. -/
def added (name value : Bytes) : List (Bytes × Bytes) → List Bytes
  | [] => []
  | (n, v) :: lines =>
    let value := if v = [] then value else v
    (if n = name then split_string value head_sep else []) ++ added name value lines

theorem added_append (name value : Bytes) (l₁ l₂ : List (Bytes × Bytes)) :
    added name value (l₁ ++ l₂) = added name value l₁ ++ added name (carried value l₁) l₂ := by
  induction l₁ generalizing value with
  | nil => rfl
  | cons line l₁ ih =>
    rw [List.cons_append]
    simp only [added, carried, ih, List.append_assoc]

/-- Lines that have their own values do not show what is carried to others. -/
theorem added_own {name : Bytes} {lines : List (Bytes × Bytes)}
    (hown : ∀ e ∈ lines, e.1 = name → e.2 ≠ []) (value : Bytes) :
    added name value lines = added name [] lines := by
  induction lines generalizing value with
  | nil => rfl
  | cons line lines ih =>
    obtain ⟨n, v⟩ := line
    have hrest : ∀ e ∈ lines, e.1 = name → e.2 ≠ [] :=
      fun e he => hown e (List.mem_cons_of_mem _ he)
    simp only [added]
    rw [ih hrest (if v = [] then value else v), ih hrest (if v = [] then [] else v)]
    by_cases hn : n = name
    · have hv : v ≠ [] := hown (n, v) List.mem_cons_self hn
      rw [if_neg hv, if_neg hv]
    · rw [if_neg hn, if_neg hn]

theorem added_none {name value : Bytes} {lines : List (Bytes × Bytes)}
    (hnone : ∀ e ∈ lines, e.1 ≠ name) : added name value lines = [] := by
  induction lines generalizing value with
  | nil => rfl
  | cons line lines ih =>
    simp only [added]
    rw [if_neg (hnone line List.mem_cons_self), ih fun e he => hnone e (List.mem_cons_of_mem _ he)]
    rfl

theorem getD_set_head (h : Header) (n value name : Bytes) :
    (h.set_head n value).headers.getD name [] =
      h.headers.getD name [] ++ (if n = name then split_string value head_sep else []) := by
  unfold set_head
  rw [Std.ExtTreeMap.getD_insert]
  by_cases hn : n = name
  · subst hn
    simp
  · have hcmp : compare n name ≠ .eq := fun he => hn (Std.LawfulEqOrd.eq_of_compare he)
    simp [hn, hcmp]

theorem getD_store_lines (h : Header) (value : Bytes) (lines : List (Bytes × Bytes))
    (name : Bytes) :
    (store_lines h value lines).headers.getD name [] =
      h.headers.getD name [] ++ added name value lines := by
  induction lines generalizing h value with
  | nil => simp [store_lines, added]
  | cons line lines ih => simp [store_lines, added, ih, getD_set_head, List.append_assoc]

theorem added_length_le (name value : Bytes) (lines : List (Bytes × Bytes)) :
    (added name [] lines).length ≤ (added name value lines).length := by
  induction lines generalizing value with
  | nil => rfl
  | cons line lines ih =>
    obtain ⟨n, v⟩ := line
    by_cases hv : v = []
    · have hpos := List.length_pos_iff.mpr (split_string_ne_nil value head_sep)
      have hrec := ih value
      by_cases hn : n = name
      · simp only [added, hv, hn, if_true, split_empty, List.length_append, List.length_cons,
          List.length_nil]
        omega
      · simpa [added, hv, hn] using hrec
    · simp [added, hv]

/-- A carried value that is not stored as the empty one shows in the map. -/
theorem store_carry_ne {h : Header} {value name : Bytes} {lines : List (Bytes × Bytes)}
    (hne : split_string value head_sep ≠ [[]]) :
    (store_lines h value ((name, []) :: lines)).headers ≠
      (store_lines h [] ((name, []) :: lines)).headers := by
  intro heq
  have hget := congrArg (fun m : HeadMap => m.getD name []) heq
  simp only [getD_store_lines, List.append_cancel_left_eq, added, if_true, split_empty] at hget
  have hle := added_length_le name value lines
  have hpos := List.length_pos_iff.mpr (split_string_ne_nil value head_sep)
  have hlen := congrArg List.length hget
  simp only [List.length_append, List.length_cons, List.length_nil] at hlen
  obtain ⟨v, hv⟩ : ∃ v, split_string value head_sep = [v] := List.length_eq_one_iff.mp (by omega)
  rw [hv, List.cons_append, List.cons_append, List.cons.injEq] at hget
  exact hne (by rw [hv, hget.1])

end Header

end Pump
