import Pump.Calendar
import Pump.Utils

/-! # timestamp::format

    `timestamp::format` of `time/timestamp.cpp`, in the branch for Linux. The
    text is put together in `char date[64]`. An `int` that is printed is an
    `Int`: none of the fields comes near the ends of its type. -/

namespace Pump

/-! ## Section 1: Pieces -/

inductive Field where
  | YY | MM | DD | hh | mm | ss | ms
  deriving DecidableEq

/-- What one turn of the loop looks at. -/
inductive Piece where
  | field (f : Field)
  | char (c : UInt8)
  deriving DecidableEq

/-- The calls of `strncmp`, in their order. -/
def field_at (a b : UInt8) : Option Field :=
  if [a, b] = ascii "YY" then some .YY
  else if [a, b] = ascii "MM" then some .MM
  else if [a, b] = ascii "DD" then some .DD
  else if [a, b] = ascii "hh" then some .hh
  else if [a, b] = ascii "mm" then some .mm
  else if [a, b] = ascii "ss" then some .ss
  else if [a, b] = ascii "ms" then some .ms
  else none

/-- The turns of the loop, from the first character on. -/
def pieces : Bytes → List Piece
  | a :: b :: rest =>
    match field_at a b with
    | some f => .field f :: pieces rest
    | none => .char a :: pieces (b :: rest)
  | [a] => [.char a]
  | [] => []

/-- By how much `idx` moves on. -/
def Piece.taken : Piece → Nat
  | .field _ => 2
  | .char _ => 1

/-! ## Section 2: The text of a piece -/

/-- `tm`. -/
structure Tm where
  tm_year : Int
  tm_mon : Int
  tm_mday : Int
  tm_hour : Int
  tm_min : Int
  tm_sec : Int

/-- `gmtime_r`. -/
def gmtime_r (seconds : Int) : Tm :=
  let t := DateTime.of_seconds seconds
  ⟨t.date.year - 1900, t.date.month - 1, t.date.day, t.hour, t.minute, t.second⟩

/-- The text of an `int32_t` in the format `%4d`. -/
def format_dec4 (n : Int) : Bytes :=
  List.replicate (4 - (format_dec n).length) 32 ++ format_dec n

/-- What the code prints for a field. -/
def Field.text (tm : Tm) (millisecond : Nat) : Field → Bytes
  | .YY => format_dec4 (tm.tm_year + 1970)
  | .MM => format_dec (tm.tm_mon + 1)
  | .DD => format_dec tm.tm_mday
  | .hh => format_dec (tm.tm_hour - 8)
  | .mm => format_dec tm.tm_min
  | .ss => format_dec tm.tm_sec
  | .ms => format_dec millisecond

def Piece.text (tm : Tm) (millisecond : Nat) : Piece → Bytes
  | .field f => f.text tm millisecond
  | .char c => [c]

/-! ## Section 3: The buffer -/

/-- `sizeof(date) - len - 1`, a `size_t`. -/
def room (len : Nat) : Nat := (2 ^ 64 + 63 - len) % 2 ^ 64

/-- `pump_snprintf(date + pos, size, ..)`, where the text to print is `text`.
    No result if something is written outside of the buffer. -/
def snprintf_date (date : Nat → UInt8) (pos size : Nat) (text : Bytes) : Option (Nat → UInt8) :=
  if size = 0 then some date
  else
    let out := text.take (size - 1) ++ [0]
    if pos + out.length ≤ 64 then
      some fun k => if pos ≤ k ∧ k < pos + out.length then out.getD (k - pos) 0 else date k
    else none

/-- The locals of `format`. From position 64 on `date` is not looked at.
    `len` does not come near `2 ^ 32`: beyond 63 only `ss` stays inside the
    buffer, and not more than 30 times. -/
structure Format where
  idx : Nat
  len : Nat
  date : Nat → UInt8

namespace Format

def start : Format := ⟨0, 0, fun _ => 0⟩

variable (tm : Tm) (millisecond : Nat)

/-- One turn of the loop. -/
def turn (s : Format) : Piece → Option Format
  | .field f =>
    let idx := s.idx + 2
    let text := f.text tm millisecond
    -- the seconds are printed at `date + idx`
    let pos := if f = .ss then idx else s.len
    (snprintf_date s.date pos (room s.len) text).map fun date => ⟨idx, s.len + text.length, date⟩
  | .char c =>
    if s.len < 64 then some ⟨s.idx + 1, s.len + 1, Function.update s.date s.len c⟩ else none

/-- The loop. -/
def run (s : Format) : List Piece → Option Format
  | [] => some s
  | t :: ts => (s.turn tm millisecond t).bind fun s' => run s' ts

/-- `date` has an end as a C string. -/
def Terminated (s : Format) : Prop := ∃ k, k < 64 ∧ s.date k = 0

instance (s : Format) : Decidable s.Terminated :=
  decidable_of_iff (∃ k ∈ List.range 64, s.date k = 0) (by simp [Terminated])

end Format

/-- The buffer that `timestamp::format` leaves, if nothing was written outside
    of it. -/
def format_buffer (ms : Nat) (format : Bytes) : Option Format :=
  Format.start.run (gmtime_r (ms / 1000 : Nat)) (ms % 1000) (pieces format)

/-- `timestamp::format`. No result if it is not within the buffer. -/
def timestamp_format (ms : Nat) (format : Bytes) : Option Bytes :=
  (format_buffer ms format).bind fun s =>
    if s.Terminated then some (c_str ((List.range 64).map s.date)) else none

/-! ## Section 4: What one turn writes -/

theorem room_of_le {len : Nat} (h : len ≤ 63) : room len = 63 - len := by
  unfold room
  omega

/-- `n` characters of the text and a terminator at `pos`. -/
structure Written (date date' : Nat → UInt8) (pos n : Nat) (text : Bytes) : Prop where
  inside : pos + n < 64
  length : n ≤ text.length
  chars : ∀ j, j < n → text[j]? = some (date' (pos + j))
  stop : date' (pos + n) = 0
  others : ∀ k, k < pos ∨ pos + n < k → date' k = date k

theorem date_written {date date' : Nat → UInt8} {pos size : Nat} {text : Bytes}
    (h : snprintf_date date pos size text = some date') (hsize : size ≠ 0) :
    Written date date' pos (min text.length (size - 1)) text := by
  rw [snprintf_date, if_neg hsize] at h
  obtain ⟨n, hn⟩ : ∃ n, n = min text.length (size - 1) := ⟨_, rfl⟩
  -- the first `n` characters are all that is looked at of the text
  have htake : text.take (size - 1) = text.take n := by
    rw [hn, Nat.min_comm, ← List.take_take, List.take_length]
  have hlen : (text.take n).length = n := by
    rw [List.length_take]
    omega
  have hout : (text.take n ++ [(0 : UInt8)]).length = n + 1 := by
    rw [List.length_append, hlen]
    rfl
  dsimp only at h
  rw [htake, hout] at h
  rw [← hn]
  split at h
  · rename_i hfits
    cases h
    constructor
    case inside => omega
    case length => omega
    case chars =>
      intro j hj
      rw [if_pos (by omega), Nat.add_sub_cancel_left, List.getD_eq_getElem?_getD,
        List.getElem?_append_left (by omega), List.getElem?_take_of_lt hj,
        List.getElem?_eq_getElem (by omega), Option.getD_some]
    case stop =>
      rw [if_pos (by omega), Nat.add_sub_cancel_left, List.getD_eq_getElem?_getD,
        List.getElem?_append_right (by omega), hlen, Nat.sub_self]
      rfl
    case others =>
      intro k hk
      rw [if_neg (by omega)]
  · cases h

/-- Nothing leaves the buffer. -/
theorem print_isSome {date : Nat → UInt8} {pos size : Nat} {text : Bytes} :
    (snprintf_date date pos size text).isSome = true ↔
      size = 0 ∨ pos + min text.length (size - 1) < 64 := by
  unfold snprintf_date
  by_cases hsize : size = 0
  · simp [hsize]
  · rw [if_neg hsize]
    dsimp only
    rw [List.length_append, List.length_take, List.length_singleton, Nat.min_comm]
    split
    · simp only [Option.isSome_some, true_iff]
      omega
    · simp only [Option.isSome_none, Bool.false_eq_true, false_iff]
      omega

/-! ## Section 5: Each piece after those before it -/

/-- `P` holds of each element of the list, given those before it. -/
def EachAfter {α : Type} (P : List α → α → Prop) (before : List α) : List α → Prop
  | [] => True
  | a :: l => P before a ∧ EachAfter P (before ++ [a]) l

/-- If not, there is a first one of which it does not hold. -/
theorem EachAfter.exists_first {α : Type} {P : List α → α → Prop} {before l : List α}
    (h : ¬ EachAfter P before l) :
    ∃ l₁ a l₂, l = l₁ ++ a :: l₂ ∧ EachAfter P before l₁ ∧ ¬ P (before ++ l₁) a := by
  induction l generalizing before with
  | nil => exact absurd trivial h
  | cons a l ih =>
    by_cases ha : P before a
    · obtain ⟨l₁, b, l₂, rfl, hl₁, hb⟩ := ih fun hl => h ⟨ha, hl⟩
      exact ⟨a :: l₁, b, l₂, rfl, ⟨ha, hl₁⟩, by rwa [List.append_cons]⟩
    · exact ⟨[], a, l, rfl, trivial, by rwa [List.append_nil]⟩

theorem EachAfter.and_iff {α : Type} {P : List α → α → Prop} {Q : α → Prop} {before l : List α} :
    EachAfter (fun before a => P before a ∧ Q a) before l ↔
      EachAfter P before l ∧ ∀ a ∈ l, Q a := by
  induction l generalizing before with
  | nil => exact ⟨fun _ => ⟨trivial, by simp⟩, fun _ => trivial⟩
  | cons a l ih =>
    rw [EachAfter, EachAfter, ih, List.forall_mem_cons]
    tauto

section

variable (tm : Tm) (millisecond : Nat)

/-- The text of some pieces. -/
def printed (ts : List Piece) : Bytes := ts.flatMap (Piece.text tm millisecond)

/-- How much of the format the pieces take. -/
def consumed (ts : List Piece) : Nat := (ts.map Piece.taken).sum

end

/-- There are `len` characters of text and `idx` of the format before the
    piece, and its own text has `width` characters. The seconds are cut to
    what was left of the buffer behind the text, if there was any. -/
def Piece.Fits (len idx width : Nat) : Piece → Prop
  | .field .ss => len = 63 ∨ idx + 2 + (if len < 63 then min width (62 - len) else width) ≤ 63
  | _ => len ≤ 63

/-- It comes out whole, and behind what is before it. -/
def Piece.InPlace (len idx width : Nat) : Piece → Prop
  | .field f => len + width ≤ 62 ∧ (f = .ss → idx + 2 = len)
  | .char c => c ≠ 0

theorem digit_ne_zero {d : Nat} (h : d < 10) : digit d ≠ 0 := by
  interval_cases d <;> decide

theorem format_dec_ne_nil (n : Int) : format_dec n ≠ [] := by
  unfold format_dec
  split
  · exact List.cons_ne_nil _ _
  · exact digits_ne_nil _ _

theorem format_dec_ne_zero {n : Int} {c : UInt8} (h : c ∈ format_dec n) : c ≠ 0 := by
  have hdigits : ∀ m, c ∈ digits 10 m → c ≠ 0 := by
    intro m hc
    obtain ⟨d, hd, rfl⟩ := mem_digits (by omega) hc
    exact digit_ne_zero hd
  unfold format_dec at h
  split at h
  · rcases List.mem_cons.mp h with rfl | hc
    · decide
    · exact hdigits _ hc
  · exact hdigits _ h

section

variable {tm : Tm} {millisecond : Nat} {s s' : Format} {t : Piece} {ts : List Piece} {R : Bytes}

theorem Field.text_ne_nil (f : Field) : f.text tm millisecond ≠ [] := by
  cases f with
  | YY => exact List.append_ne_nil_of_right_ne_nil _ (format_dec_ne_nil _)
  | MM | DD | hh | mm | ss | ms => exact format_dec_ne_nil _

theorem Field.text_ne_zero {f : Field} {c : UInt8} (h : c ∈ f.text tm millisecond) : c ≠ 0 := by
  cases f with
  | YY =>
    rcases List.mem_append.mp h with h | h
    · rw [List.eq_of_mem_replicate h]
      decide
    · exact format_dec_ne_zero h
  | MM | DD | hh | mm | ss | ms => exact format_dec_ne_zero h

theorem Piece.text_pos (tm : Tm) (millisecond : Nat) (t : Piece) : 0 < (t.text tm millisecond).length := by
  cases t with
  | field f => exact List.length_pos_of_ne_nil f.text_ne_nil
  | char c => exact Nat.one_pos

/-- What a turn does to the cursors. -/
theorem Format.turn_cursors (h : s.turn tm millisecond t = some s') :
    s'.len = s.len + (t.text tm millisecond).length ∧ s'.idx = s.idx + t.taken := by
  cases t with
  | field f =>
    obtain ⟨date, -, rfl⟩ := Option.map_eq_some_iff.mp h
    exact ⟨rfl, rfl⟩
  | char c =>
    rw [Format.turn] at h
    split at h
    · cases h
      exact ⟨rfl, rfl⟩
    · cases h

theorem Format.turn_isSome (hlen : s.len < 2 ^ 32)
    (hwidth : (t.text tm millisecond).length < 2 ^ 32) :
    (s.turn tm millisecond t).isSome = true ↔
      t.Fits s.len s.idx (t.text tm millisecond).length := by
  have hpos := t.text_pos tm millisecond
  cases t with
  | field f =>
    rw [Format.turn, Option.isSome_map, print_isSome]
    change 0 < (f.text tm millisecond).length at hpos
    change (f.text tm millisecond).length < 2 ^ 32 at hwidth
    -- `sizeof(date) - 1 - len` wraps around once the text is longer than the buffer
    have hroom : room s.len = if s.len ≤ 63 then 63 - s.len else 2 ^ 64 + 63 - s.len := by
      unfold room
      split <;> omega
    rw [hroom]
    cases f with
    | ss =>
      show _ ↔ s.len = 63 ∨ s.idx + 2 +
        (if s.len < 63 then min (Field.ss.text tm millisecond).length (62 - s.len)
          else (Field.ss.text tm millisecond).length) ≤ 63
      rw [if_pos rfl]
      split <;> split <;> omega
    | YY | MM | DD | hh | mm | ms =>
      show _ ↔ s.len ≤ 63
      simp only [reduceCtorEq, if_false]
      split <;> omega
  | char c =>
    show _ ↔ s.len ≤ 63
    rw [Format.turn]
    split
    · simp only [Option.isSome_some, true_iff]
      omega
    · simp only [Option.isSome_none, Bool.false_eq_true, false_iff]
      omega

/-- A turn that writes a field. -/
theorem Format.turn_field {f : Field} (h : s.turn tm millisecond (.field f) = some s')
    (hroom : room s.len ≠ 0) :
    Written s.date s'.date (if f = .ss then s.idx + 2 else s.len)
      (min (f.text tm millisecond).length (room s.len - 1)) (f.text tm millisecond) := by
  obtain ⟨date, hdate, rfl⟩ := Option.map_eq_some_iff.mp h
  exact date_written hdate hroom

/-- A turn that does not, for there is no room. -/
theorem Format.turn_full {f : Field} (h : s.turn tm millisecond (.field f) = some s')
    (hroom : room s.len = 0) : s'.date = s.date := by
  obtain ⟨date, hdate, rfl⟩ := Option.map_eq_some_iff.mp h
  rw [snprintf_date, if_pos hroom] at hdate
  cases hdate
  rfl

/-! ## Section 6: How long the texts get -/

/-- How wide the fields are. -/
structure Narrow (tm : Tm) (millisecond : Nat) : Prop where
  field : ∀ f : Field, (f.text tm millisecond).length ≤ 20
  ss : (Field.ss.text tm millisecond).length ≤ 2

theorem format_dec_length_le {n : Int} {k : Nat} (hk : 0 < k) (h : n.natAbs < 10 ^ k) :
    (format_dec n).length ≤ k + 1 := by
  have hnat : n.toNat < 10 ^ k := by omega
  have hneg := digits_length_le (by decide) hk h
  have hpos := digits_length_le (by decide) hk hnat
  unfold format_dec
  split
  · rw [List.length_cons]
    omega
  · omega

/-- The calendar keeps the fields narrow for as long as the milliseconds have
    64 bits. -/
theorem gmtime_narrow (ms : UInt64) :
    Narrow (gmtime_r (ms.toNat / 1000 : Nat)) (ms.toNat % 1000) := by
  have hms := ms.toNat_lt
  obtain ⟨seconds, hseconds⟩ : ∃ seconds : Int, seconds = (ms.toNat / 1000 : Nat) := ⟨_, rfl⟩
  rw [← hseconds]
  -- 64 bits of milliseconds are less than `2 ^ 40` days: a year of at most 18 digits
  have hday : 0 ≤ seconds / day_seconds := by
    unfold day_seconds
    omega
  have hlast : seconds / day_seconds < 2 ^ 40 := by
    unfold day_seconds
    omega
  obtain ⟨hyear, hmonth, hdate⟩ := Date.of_day_le hday
  have hyear' := Date.year_of_day hday
  have hhour := DateTime.hour_lt seconds
  have hminute := DateTime.minute_lt seconds
  have hsecond := DateTime.second_lt seconds
  constructor
  case field =>
    intro f
    cases f with
    | YY =>
      have hdec : (format_dec ((gmtime_r seconds).tm_year + 1970)).length ≤ 18 + 1 := by
        refine format_dec_length_le (by decide) ?_
        show ((Date.of_day (seconds / day_seconds)).year - 1900 + 1970).natAbs < _
        omega
      show (format_dec4 _).length ≤ 20
      rw [format_dec4, List.length_append, List.length_replicate]
      omega
    | MM =>
      refine format_dec_length_le (by decide) ?_
      show ((Date.of_day (seconds / day_seconds)).month - 1 + 1 : Int).natAbs < _
      omega
    | DD =>
      refine format_dec_length_le (by decide) ?_
      show ((Date.of_day (seconds / day_seconds)).day : Int).natAbs < _
      omega
    | hh =>
      refine format_dec_length_le (by decide) ?_
      show ((DateTime.of_seconds seconds).hour - 8 : Int).natAbs < _
      omega
    | mm =>
      refine format_dec_length_le (by decide) ?_
      show ((DateTime.of_seconds seconds).minute : Int).natAbs < _
      omega
    | ss =>
      refine format_dec_length_le (by decide) ?_
      show ((DateTime.of_seconds seconds).second : Int).natAbs < _
      omega
    | ms =>
      refine format_dec_length_le (by decide) ?_
      show ((ms.toNat % 1000 : Nat) : Int).natAbs < _
      omega
  case ss =>
    show (format_dec ((DateTime.of_seconds seconds).second : Nat)).length ≤ 2
    rw [format_dec, if_neg (by omega), Int.toNat_natCast]
    exact digits_length_le (by decide) (by decide) (by omega)

/-- The text stays short: with 64 characters before it only `ss` is within the
    buffer, and `idx` moves on. -/
def Format.Small (s : Format) : Prop := s.len ≤ 83 + 2 * s.idx ∧ (83 < s.len → s.idx ≤ 63)

theorem Format.Small.start : Format.start.Small :=
  ⟨Nat.zero_le _, fun h => absurd h (Nat.not_lt_zero _)⟩

theorem Format.Small.turn (h : s.Small) (hnarrow : Narrow tm millisecond)
    (hfits : t.Fits s.len s.idx (t.text tm millisecond).length)
    (hturn : s.turn tm millisecond t = some s') : s'.Small := by
  obtain ⟨hlen, hidx⟩ := Format.turn_cursors hturn
  have hsmall : s'.len ≤ 83 → s'.Small := fun hle => ⟨by omega, fun hlt => by omega⟩
  -- all pieces but `ss` need the text before them to be within the buffer
  cases t with
  | field f =>
    have hwidth := hnarrow.field f
    change s'.len = s.len + (f.text tm millisecond).length at hlen
    change s'.idx = s.idx + 2 at hidx
    cases f with
    | ss =>
      have hwidth := hnarrow.ss
      rcases hfits with hfull | hend
      · exact hsmall (by omega)
      · have hle := h.1
        exact ⟨by omega, fun _ => by omega⟩
    | YY | MM | DD | hh | mm | ms =>
      change s.len ≤ 63 at hfits
      exact hsmall (by omega)
  | char c =>
    change s.len ≤ 63 at hfits
    change s'.len = s.len + 1 at hlen
    exact hsmall (by omega)

/-! ## Section 7: Texts in place, and texts spoilt -/

/-- The buffer begins with `R`, and the rest of it is zero. -/
structure Format.Good (R : Bytes) (s : Format) : Prop where
  len : s.len = R.length
  short : R.length ≤ 64
  date : ∀ k, s.date k = R[k]?.getD 0

theorem Format.Good.zero (h : s.Good R) {k : Nat} (hk : R.length ≤ k) : s.date k = 0 := by
  rw [h.date k, List.getElem?_eq_none hk]
  rfl

theorem Format.Good.start : Format.start.Good (printed tm millisecond []) :=
  ⟨rfl, Nat.zero_le _, fun _ => rfl⟩

/-- A piece in place is added to the text. -/
theorem Format.Good.turn (h : s.Good R) (hturn : s.turn tm millisecond t = some s')
    (hplace : t.InPlace R.length s.idx (t.text tm millisecond).length) :
    s'.Good (R ++ t.text tm millisecond) := by
  obtain ⟨hlen, -⟩ := Format.turn_cursors hturn
  have hadd : (R ++ t.text tm millisecond).length = R.length + (t.text tm millisecond).length :=
    List.length_append
  cases t with
  | field f =>
    obtain ⟨hfits, hss⟩ := hplace
    change R.length + (f.text tm millisecond).length ≤ 62 at hfits
    change _ = R.length + (f.text tm millisecond).length at hadd
    have hroom := room_of_le (show s.len ≤ 63 by rw [h.len]; omega)
    have hsize : min (f.text tm millisecond).length (room s.len - 1) =
        (f.text tm millisecond).length := by
      rw [hroom, h.len]
      omega
    have hpos : (if f = .ss then s.idx + 2 else s.len) = R.length := by
      split
      · rename_i hf
        exact hss hf
      · exact h.len
    have hwritten := Format.turn_field hturn (by rw [hroom, h.len]; omega)
    rw [hsize, hpos] at hwritten
    -- the text, the characters of the field, its terminator, and the zeros behind it
    refine ⟨by rw [hlen, h.len, hadd]; rfl, by rw [hadd]; omega, ?_⟩
    intro k
    show s'.date k = (R ++ f.text tm millisecond)[k]?.getD 0
    by_cases hk : k < R.length
    · rw [List.getElem?_append_left hk, hwritten.others k (.inl hk), h.date k]
    rw [List.getElem?_append_right (by omega)]
    by_cases hk' : k - R.length < (f.text tm millisecond).length
    · rw [hwritten.chars _ hk', show R.length + (k - R.length) = k by omega]
      rfl
    · rw [List.getElem?_eq_none (by omega)]
      by_cases hend : k = R.length + (f.text tm millisecond).length
      · rw [hend]
        exact hwritten.stop
      · rw [hwritten.others k (.inr (by omega))]
        exact h.zero (by omega)
  | char c =>
    rw [Format.turn] at hturn
    split at hturn
    · rename_i hfits
      cases hturn
      rw [h.len] at hfits
      refine ⟨by rw [hlen, h.len, hadd], by rw [hadd]; exact hfits, ?_⟩
      intro k
      show Function.update s.date s.len c k = (R ++ [c])[k]?.getD 0
      rw [h.len]
      by_cases hk : k = R.length
      · rw [hk, Function.update_self]
        simp
      · rw [Function.update_of_ne hk, h.date k]
        by_cases hlt : k < R.length
        · rw [List.getElem?_append_left hlt]
        · rw [List.getElem?_eq_none (by omega), List.getElem?_eq_none]
          rw [List.length_append, List.length_singleton]
          omega
    · cases hturn

/-- A piece out of place leaves a zero before its end. -/
theorem Format.Good.turn_spoils (h : s.Good R) (hturn : s.turn tm millisecond t = some s')
    (hplace : ¬ t.InPlace R.length s.idx (t.text tm millisecond).length) :
    ∃ p, p < 64 ∧ p < R.length + (t.text tm millisecond).length ∧ s'.date p = 0 := by
  have hpos := t.text_pos tm millisecond
  have hlen := h.len
  have hshort := h.short
  cases t with
  | field f =>
    change 0 < (f.text tm millisecond).length at hpos
    change ¬ (R.length + (f.text tm millisecond).length ≤ 62 ∧ _) at hplace
    show ∃ p, p < 64 ∧ p < R.length + (f.text tm millisecond).length ∧ s'.date p = 0
    by_cases hroom : room s.len = 0
    · -- nothing is written at the last position
      have hfull : R.length = 63 := by
        unfold room at hroom
        omega
      refine ⟨63, by omega, by omega, ?_⟩
      rw [Format.turn_full hturn hroom]
      exact h.zero (by omega)
    have hwritten := Format.turn_field hturn hroom
    have hinside := hwritten.inside
    by_cases hat : (if f = .ss then s.idx + 2 else s.len) = R.length
    · -- in the right place, but cut off
      rw [hat] at hwritten hinside
      have hroom' := room_of_le (show s.len ≤ 63 by omega)
      have hcut : ¬ R.length + (f.text tm millisecond).length ≤ 62 := by
        intro hfits
        refine hplace ⟨hfits, ?_⟩
        rintro rfl
        exact hat
      exact ⟨_, hinside, by omega, hwritten.stop⟩
    · by_cases hbefore : (if f = .ss then s.idx + 2 else s.len) < R.length
      · exact ⟨_, hinside, by omega, hwritten.stop⟩
      · -- a gap is left
        refine ⟨R.length, by omega, by omega, ?_⟩
        rw [hwritten.others _ (.inl (by omega))]
        exact h.zero (le_refl _)
  | char c =>
    have hzero : c = 0 := not_not.mp hplace
    rw [Format.turn] at hturn
    split at hturn
    · rename_i hfits
      cases hturn
      refine ⟨R.length, by omega, Nat.lt_succ_self _, ?_⟩
      show Function.update s.date s.len c R.length = 0
      rw [hlen, Function.update_self, hzero]
    · cases hturn

/-- What is wrong before position `m` stays wrong, for `ss` leaves a zero where
    it overwrites it. -/
theorem Format.turn_keeps {B : Nat → UInt8 → Prop} (hB : ∀ p, p < 64 → B p 0) {m m' : Nat}
    (hturn : s.turn tm millisecond t = some s') (hwrong : ∃ p, p < m ∧ B p (s.date p))
    (hm : m ≤ s.len) (hm' : m ≤ m')
    (hss : t = .field .ss → m + (Field.ss.text tm millisecond).length ≤ m') :
    ∃ p, p < m' ∧ B p (s'.date p) := by
  obtain ⟨p, hp, hbad⟩ := hwrong
  have hsame : s'.date p = s.date p → ∃ p, p < m' ∧ B p (s'.date p) :=
    fun heq => ⟨p, by omega, heq ▸ hbad⟩
  cases t with
  | field f =>
    by_cases hroom : room s.len = 0
    · exact hsame (by rw [Format.turn_full hturn hroom])
    have hwritten := Format.turn_field hturn hroom
    by_cases hf : f = .ss
    · subst hf
      rw [if_pos rfl] at hwritten
      obtain ⟨n, hn⟩ : ∃ n, n = min (Field.ss.text tm millisecond).length (room s.len - 1) :=
        ⟨_, rfl⟩
      rw [← hn] at hwritten
      -- `ss` may overwrite what is wrong, and then its terminator is wrong
      have hend := hss rfl
      by_cases hout : p < s.idx + 2 ∨ s.idx + 2 + n < p
      · exact hsame (hwritten.others p hout)
      · exact ⟨s.idx + 2 + n, by omega, by rw [hwritten.stop]; exact hB _ hwritten.inside⟩
    · rw [if_neg hf] at hwritten
      exact hsame (hwritten.others p (.inl (by omega)))
  | char c =>
    rw [Format.turn] at hturn
    split at hturn
    · cases hturn
      exact hsame (Function.update_of_ne (by omega) _ _)
    · cases hturn

/-! ## Section 8: The loop -/

theorem printed_append (R ts : List Piece) :
    printed tm millisecond (R ++ ts) = printed tm millisecond R ++ printed tm millisecond ts :=
  List.flatMap_append

theorem printed_snoc (R : List Piece) (t : Piece) :
    printed tm millisecond (R ++ [t]) = printed tm millisecond R ++ t.text tm millisecond := by
  rw [printed_append, printed, printed, List.flatMap_singleton]

theorem consumed_snoc (R : List Piece) (t : Piece) : consumed (R ++ [t]) = consumed R + t.taken := by
  rw [consumed, List.map_append, List.sum_append]
  rfl

variable (tm millisecond) in
/-- The cursors after some pieces. -/
structure Format.After (R : List Piece) (s : Format) : Prop where
  len : s.len = (printed tm millisecond R).length
  idx : s.idx = consumed R

theorem Format.After.start : Format.start.After tm millisecond [] := ⟨rfl, rfl⟩

theorem Format.After.turn {R : List Piece} (h : s.After tm millisecond R)
    (hturn : s.turn tm millisecond t = some s') : s'.After tm millisecond (R ++ [t]) := by
  obtain ⟨hlen, hidx⟩ := Format.turn_cursors hturn
  exact ⟨by rw [hlen, h.len, printed_snoc, List.length_append], by rw [hidx, h.idx, consumed_snoc]⟩

theorem Format.run_cons (h : s.run tm millisecond (t :: ts) = some s') :
    ∃ s₁, s.turn tm millisecond t = some s₁ ∧ s₁.run tm millisecond ts = some s' :=
  Option.bind_eq_some_iff.mp h

theorem Format.run_append {ts₁ ts₂ : List Piece}
    (h : s.run tm millisecond (ts₁ ++ ts₂) = some s') :
    ∃ s₁, s.run tm millisecond ts₁ = some s₁ ∧ s₁.run tm millisecond ts₂ = some s' := by
  induction ts₁ generalizing s with
  | nil => exact ⟨s, rfl, h⟩
  | cons t ts₁ ih =>
    obtain ⟨s₁, hturn, hrun⟩ := Format.run_cons h
    obtain ⟨s₂, hrun₁, hrun₂⟩ := ih hrun
    exact ⟨s₂, by rw [Format.run, hturn]; exact hrun₁, hrun₂⟩

theorem Format.After.run {R : List Piece} (h : s.After tm millisecond R)
    (hrun : s.run tm millisecond ts = some s') : s'.After tm millisecond (R ++ ts) := by
  induction ts generalizing s R with
  | nil =>
    cases hrun
    rwa [List.append_nil]
  | cons t ts ih =>
    obtain ⟨s₁, hturn, hrun⟩ := Format.run_cons hrun
    rw [List.append_cons]
    exact ih (h.turn hturn) hrun

/-- The loop stays within the buffer if and only if each piece fits. -/
theorem Format.run_isSome (ts : List Piece) {R : List Piece} (hnarrow : Narrow tm millisecond) (hsmall : s.Small)
    (hafter : s.After tm millisecond R) :
    (s.run tm millisecond ts).isSome = true ↔
      EachAfter (fun before t => t.Fits (printed tm millisecond before).length (consumed before)
        (t.text tm millisecond).length) R ts := by
  induction ts generalizing s R with
  | nil => exact ⟨fun _ => trivial, fun _ => rfl⟩
  | cons t ts ih =>
    have hwidth : (t.text tm millisecond).length < 2 ^ 32 := by
      cases t with
      | field f => exact lt_of_le_of_lt (hnarrow.field f) (by decide)
      | char c =>
        show 1 < 2 ^ 32
        decide
    have hlen : s.len < 2 ^ 32 := by
      have hle := hsmall.1
      have hidx := hsmall.2
      omega
    have hfits := Format.turn_isSome (t := t) hlen hwidth
    rw [hafter.len, hafter.idx] at hfits
    show ((s.turn tm millisecond t).bind _).isSome = true ↔ _ ∧ _
    cases hturn : s.turn tm millisecond t with
    | none =>
      rw [hturn] at hfits
      exact ⟨fun h => (by cases h), fun h => (by cases hfits.mpr h.1)⟩
    | some s₁ =>
      rw [hturn] at hfits
      have ht := hfits.mp rfl
      have hsmall₁ := hsmall.turn hnarrow (by rwa [hafter.len, hafter.idx]) hturn
      have hrest := ih hsmall₁ (hafter.turn hturn)
      exact ⟨fun h => ⟨ht, hrest.mp h⟩, fun h => hrest.mpr h.2⟩

/-- As long as each piece comes in place, the buffer has the text. -/
theorem Format.Good.run {R : List Piece} (h : s.Good (printed tm millisecond R))
    (hafter : s.After tm millisecond R)
    (hplace : EachAfter (fun before t => t.InPlace (printed tm millisecond before).length
      (consumed before) (t.text tm millisecond).length) R ts)
    (hrun : s.run tm millisecond ts = some s') : s'.Good (printed tm millisecond (R ++ ts)) := by
  induction ts generalizing s R with
  | nil =>
    cases hrun
    rwa [List.append_nil]
  | cons t ts ih =>
    obtain ⟨ht, hts⟩ := hplace
    obtain ⟨s₁, hturn, hrun⟩ := Format.run_cons hrun
    have hgood := h.turn hturn (by rw [hafter.idx]; exact ht)
    rw [← printed_snoc] at hgood
    rw [List.append_cons]
    exact ih hgood (hafter.turn hturn) hts hrun

/-- Pieces in place fit, if they do not need the last character. -/
theorem fits_of_inPlace {R : List Piece}
    (hplace : EachAfter (fun before t => t.InPlace (printed tm millisecond before).length
      (consumed before) (t.text tm millisecond).length) R ts)
    (hlen : (printed tm millisecond (R ++ ts)).length ≤ 63) :
    EachAfter (fun before t => t.Fits (printed tm millisecond before).length (consumed before)
      (t.text tm millisecond).length) R ts := by
  induction ts generalizing R with
  | nil => exact trivial
  | cons t ts ih =>
    obtain ⟨ht, hts⟩ := hplace
    rw [List.append_cons] at hlen
    refine ⟨?_, ih hts hlen⟩
    rw [printed_append, printed_snoc, List.length_append, List.length_append] at hlen
    cases t with
    | field f =>
      obtain ⟨hfits, hss⟩ := ht
      cases f with
      | ss =>
        have hidx := hss rfl
        refine .inr ?_
        split <;> omega
      | YY | MM | DD | hh | mm | ms =>
        show _ ≤ 63
        omega
    | char c =>
      show _ ≤ 63
      omega

/-- What is wrong within a length `m`, of the pieces so far, stays wrong. -/
theorem Format.run_keeps {B : Nat → UInt8 → Prop} (hB : ∀ p, p < 64 → B p 0)
    {m : List Piece → Nat} (hle : ∀ R, m R ≤ (printed tm millisecond R).length)
    (hmono : ∀ R t, m R ≤ m (R ++ [t]))
    (hss : ∀ R, m R + (Field.ss.text tm millisecond).length ≤ m (R ++ [.field .ss]))
    {R : List Piece} (hafter : s.After tm millisecond R)
    (hrun : s.run tm millisecond ts = some s') (hwrong : ∃ p, p < m R ∧ B p (s.date p)) :
    ∃ p, p < m (R ++ ts) ∧ B p (s'.date p) := by
  induction ts generalizing s R with
  | nil =>
    cases hrun
    rwa [List.append_nil]
  | cons t ts ih =>
    obtain ⟨s₁, hturn, hrun⟩ := Format.run_cons hrun
    have hkept := Format.turn_keeps hB hturn hwrong (by rw [hafter.len]; exact hle R) (hmono R t)
      (by rintro rfl; exact hss R)
    rw [List.append_cons]
    exact ih (hafter.turn hturn) hrun hkept

/-- A text in place has no zero. -/
theorem printed_ne_zero {R : List Piece}
    (hplace : EachAfter (fun before t => t.InPlace (printed tm millisecond before).length
      (consumed before) (t.text tm millisecond).length) R ts)
    {c : UInt8} (hc : c ∈ printed tm millisecond ts) : c ≠ 0 := by
  induction ts generalizing R with
  | nil => cases hc
  | cons t ts ih =>
    obtain ⟨ht, hts⟩ := hplace
    rw [printed, List.flatMap_cons] at hc
    rcases List.mem_append.mp hc with hc | hc
    · cases t with
      | field f => exact Field.text_ne_zero hc
      | char c' =>
        rw [List.mem_singleton.mp hc]
        exact ht
    · exact ih hts hc

/-- The start of a run that leaves a piece out of place. -/
theorem Format.run_spoils
    (hplace : ¬ EachAfter (fun before t => t.InPlace (printed tm millisecond before).length
      (consumed before) (t.text tm millisecond).length) [] ts)
    (hrun : Format.start.run tm millisecond ts = some s') : s'.Terminated := by
  obtain ⟨ts₁, t, ts₂, rfl, hts₁, ht⟩ := EachAfter.exists_first hplace
  obtain ⟨s₁, hrun₁, hrun⟩ := Format.run_append hrun
  obtain ⟨s₂, hturn, hrun₂⟩ := Format.run_cons hrun
  have hafter := Format.After.start.run hrun₁
  have hgood := Format.Good.run Format.Good.start Format.After.start hts₁ hrun₁
  rw [List.nil_append] at hafter hgood ht
  rw [← hafter.idx] at ht
  obtain ⟨p, hp, hlt, hzero⟩ := hgood.turn_spoils hturn ht
  rw [← List.length_append, ← printed_snoc] at hlt
  have hwidth : ∀ R t, (printed tm millisecond (R ++ [t])).length =
      (printed tm millisecond R).length + (t.text tm millisecond).length := by
    intro R t
    rw [printed_snoc, List.length_append]
  -- from there on there is a zero in the text
  obtain ⟨p, -, hp, hzero⟩ := Format.run_keeps (B := fun p c => p < 64 ∧ c = 0)
    (m := fun R => (printed tm millisecond R).length) (fun p hp => ⟨hp, rfl⟩) (fun R => le_refl _)
    (fun R t => by rw [hwidth]; exact Nat.le_add_right _ _) (fun R => (hwidth R (.field .ss)).ge)
    (hafter.turn hturn) hrun₂ ⟨p, hlt, hp, hzero⟩
  exact ⟨p, hp, hzero⟩

end

/-! ## Section 9: The buffer is not left -/

/-- All writes are within the buffer, and it ends with a zero. -/
def Contained (ms : UInt64) (format : Bytes) : Prop :=
  ∃ s, format_buffer ms.toNat format = some s ∧ s.Terminated

/-- Each piece of the format fits in behind the text of those before it. -/
def Fitting (ms : UInt64) (format : Bytes) : Prop :=
  let tm := gmtime_r (ms.toNat / 1000 : Nat)
  let millisecond := ms.toNat % 1000
  EachAfter (fun before t => t.Fits (printed tm millisecond before).length (consumed before)
    (t.text tm millisecond).length) [] (pieces format)

/-- The texts of the pieces are 64 characters, and all of them in place. -/
def Brimful (ms : UInt64) (format : Bytes) : Prop :=
  let tm := gmtime_r (ms.toNat / 1000 : Nat)
  let millisecond := ms.toNat % 1000
  (printed tm millisecond (pieces format)).length = 64 ∧
    EachAfter (fun before t => t.InPlace (printed tm millisecond before).length (consumed before)
      (t.text tm millisecond).length) [] (pieces format)

/-- **The buffer**: `timestamp::format` does not leave it if each piece fits,
    and the text does not fill it up to the last character. -/
theorem format_contained_iff (ms : UInt64) (format : Bytes) :
    Contained ms format ↔ Fitting ms format ∧ ¬ Brimful ms format := by
  have hfits := Format.run_isSome (pieces format) (gmtime_narrow ms) Format.Small.start
    Format.After.start
  constructor
  · rintro ⟨s, hrun, k, hk, hzero⟩
    refine ⟨hfits.mp (Option.isSome_of_eq_some hrun), ?_⟩
    rintro ⟨hlen, hplace⟩
    -- none of the 64 characters is a zero
    have hgood := Format.Good.run Format.Good.start Format.After.start hplace hrun
    rw [List.nil_append] at hgood
    rw [hgood.date k, List.getElem?_eq_getElem (by omega), Option.getD_some] at hzero
    exact printed_ne_zero hplace (List.getElem_mem _) hzero
  · rintro ⟨hfitting, hfull⟩
    obtain ⟨s, hrun⟩ := Option.isSome_iff_exists.mp (hfits.mpr hfitting)
    refine ⟨s, hrun, ?_⟩
    by_cases hplace : EachAfter (fun before t =>
        t.InPlace (printed (gmtime_r (ms.toNat / 1000 : Nat)) (ms.toNat % 1000) before).length
          (consumed before) (t.text (gmtime_r (ms.toNat / 1000 : Nat)) (ms.toNat % 1000)).length)
        [] (pieces format)
    · have hgood := Format.Good.run Format.Good.start Format.After.start hplace hrun
      have hshort := hgood.short
      rw [List.nil_append] at hgood hshort
      have hlen : (printed (gmtime_r (ms.toNat / 1000 : Nat)) (ms.toNat % 1000)
          (pieces format)).length ≠ 64 := fun hlen => hfull ⟨hlen, hplace⟩
      exact ⟨63, by decide, hgood.zero (by omega)⟩
    · exact Format.run_spoils hplace hrun

/-- 65 characters are too many. -/
theorem format_leaves_buffer : ¬ ∀ ms format, Contained ms format := by
  intro h
  obtain ⟨s, hrun, -⟩ := h 0 (List.replicate 65 120)
  have hnone : (format_buffer 0 (List.replicate 65 120)).isSome = false := by decide +kernel
  have hsome := Option.isSome_of_eq_some hrun
  exact absurd (hsome.symm.trans hnone) (by decide)

end Pump
