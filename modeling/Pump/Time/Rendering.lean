import Pump.Time.Timestamp

/-! # What timestamp::format is for

    Each field of the format stands for a part of the date and of the time of
    day in one time zone, and any other character for itself. `timestamp::format`
    is compared with that. -/

namespace Pump

/-! ## Section 1: The rendering of a format -/

def Field.rendering (t : DateTime) (millisecond : Nat) : Field → Bytes
  | .YY => format_dec t.date.year
  | .MM => format_dec t.date.month
  | .DD => format_dec t.date.day
  | .hh => format_dec t.hour
  | .mm => format_dec t.minute
  | .ss => format_dec t.second
  | .ms => format_dec millisecond

def Piece.rendering (t : DateTime) (millisecond : Nat) : Piece → Bytes
  | .field f => f.rendering t millisecond
  | .char c => [c]

/-- In the zone that is `zone` seconds ahead of UTC. -/
def rendering (zone : Int) (ms : UInt64) (format : Bytes) : Bytes :=
  (pieces format).flatMap
    (Piece.rendering (DateTime.of_seconds ((ms.toNat / 1000 : Nat) + zone)) (ms.toNat % 1000))

/-! ## Section 2: Texts that differ -/

/-- They differ at a position that both have. -/
def Clash (u v : Bytes) : Prop := ∃ (j : Nat) (a b : UInt8), u[j]? = some a ∧ v[j]? = some b ∧ a ≠ b

theorem clash_of_not_prefix {u v : Bytes} (hu : ¬ u <+: v) (hv : ¬ v <+: u) : Clash u v := by
  induction u generalizing v with
  | nil => exact absurd List.nil_prefix hu
  | cons a u ih =>
    cases v with
    | nil => exact absurd List.nil_prefix hv
    | cons b v =>
      by_cases hab : a = b
      · subst hab
        obtain ⟨j, a', b', ha', hb', hne⟩ := ih
          (fun h => hu ((List.prefix_cons_inj a).mpr h)) (fun h => hv ((List.prefix_cons_inj a).mpr h))
        exact ⟨j + 1, a', b', ha', hb', hne⟩
      · exact ⟨0, a, b, rfl, rfl, hab⟩

/-- The year that is printed is 70 years ahead. -/
theorem clash_year {year : Int} (h : 1970 ≤ year) :
    Clash (format_dec4 (year - 1900 + 1970)) (format_dec year) := by
  obtain ⟨n, rfl⟩ := Int.eq_ofNat_of_zero_le (show 0 ≤ year by omega)
  have hsum : (n : Int) - 1900 + 1970 = (n + 70 : Nat) := by omega
  have hn : format_dec n = digits 10 n := by
    rw [format_dec, if_neg (by omega), Int.toNat_natCast]
  have hn' : format_dec ((n + 70 : Nat) : Int) = digits 10 (n + 70) := by
    rw [format_dec, if_neg (by omega), Int.toNat_natCast]
  have hwide : 3 < (digits 10 (n + 70)).length :=
    lt_digits_length (by decide) (by decide) (by omega)
  have hpad : format_dec4 ((n + 70 : Nat) : Int) = digits 10 (n + 70) := by
    rw [format_dec4, hn', Nat.sub_eq_zero_of_le hwide]
    rfl
  have hvalue : ∀ d < 10, (digit d).toNat - 48 = d := by decide
  rw [hsum, hpad, hn]
  apply clash_of_not_prefix
  · intro h
    rcases @digits_prefix_le 10 _ _ (by decide) (fun c => c.toNat - 48) hvalue h with h | h <;> omega
  · intro h
    rcases @digits_prefix_le 10 _ _ (by decide) (fun c => c.toNat - 48) hvalue h with h | h <;> omega

/-- The hour that is printed is 8 hours behind UTC. -/
theorem clash_hour {hour : Nat} (h : hour < 24) :
    Clash (format_dec ((hour : Int) - 8)) (format_dec hour) := by
  have hall : ∀ hour : Nat, hour < 24 →
      ¬ format_dec ((hour : Int) - 8) <+: format_dec hour ∧
      ¬ format_dec hour <+: format_dec ((hour : Int) - 8) := by
    decide
  exact clash_of_not_prefix (hall hour h).1 (hall hour h).2

/-! ## Section 3: Pieces that are printed as they should be -/

/-- `z` is UTC, or 8 hours behind it with the same date. -/
def Zone (zone seconds : Int) : Prop :=
  zone = 0 ∨ zone = -28800 ∧ 8 ≤ (DateTime.of_seconds seconds).hour

/-- What the code makes of the piece is right in the zone. -/
def Piece.Right (zone : Int) (t : Piece) : Prop :=
  t ≠ .field .YY ∧ (zone = 0 → t ≠ .field .hh)

section

variable {zone seconds : Int} {millisecond : Nat}

/-- In both zones everything but the hour is that of UTC. -/
theorem Zone.date_time (h : Zone zone seconds) :
    DateTime.of_seconds (seconds + zone) =
      { DateTime.of_seconds seconds with
        hour := (DateTime.of_seconds seconds).hour - (if zone = 0 then 0 else 8) } := by
  rcases h with rfl | ⟨rfl, hhour⟩
  · rw [add_zero, if_pos rfl, Nat.sub_zero]
  · rw [if_neg (by decide), ← DateTime.of_seconds_sub hhour]
    rfl

theorem Zone.ss_text (h : Zone zone seconds) :
    Field.ss.text (gmtime_r seconds) millisecond =
      Field.ss.rendering (DateTime.of_seconds (seconds + zone)) millisecond := by
  rw [h.date_time]
  rfl

theorem Piece.Right.text {t : Piece} (hright : t.Right zone) (h : Zone zone seconds)
    (millisecond : Nat) :
    t.text (gmtime_r seconds) millisecond =
      t.rendering (DateTime.of_seconds (seconds + zone)) millisecond := by
  rw [h.date_time]
  cases t with
  | char c => rfl
  | field f =>
    cases f with
    | YY => exact absurd rfl hright.1
    | MM =>
      have hmonth : (gmtime_r seconds).tm_mon + 1 = (DateTime.of_seconds seconds).date.month :=
        sub_add_cancel _ _
      exact congrArg format_dec hmonth
    | hh =>
      rcases h with hzone | ⟨hzone, hhour⟩
      · exact absurd rfl (hright.2 hzone)
      · show format_dec _ = format_dec (_ - ite _ _ _ : Nat)
        rw [hzone, if_neg (by decide), Nat.cast_sub hhour]
        rfl
    | DD | mm | ss | ms => rfl

/-- Those that are not right show it. -/
theorem Piece.clash_of_not_right {t : Piece} (hright : ¬ t.Right zone) (h : Zone zone seconds)
    (hseconds : 0 ≤ seconds) (millisecond : Nat) :
    ∃ f, t = .field f ∧ f ≠ .ss ∧ Clash (f.text (gmtime_r seconds) millisecond)
      (f.rendering (DateTime.of_seconds (seconds + zone)) millisecond) := by
  rw [h.date_time]
  by_cases hyear : t = .field .YY
  · have hday : 0 ≤ seconds / day_seconds := Int.ediv_nonneg hseconds (by decide)
    exact ⟨.YY, hyear, by decide, clash_year (Date.year_of_day hday)⟩
  · have hhh : zone = 0 ∧ t = .field .hh := by
      by_contra hne
      exact hright ⟨hyear, fun hzone ht => hne ⟨hzone, ht⟩⟩
    refine ⟨.hh, hhh.2, by decide, ?_⟩
    show Clash _ (format_dec (_ - ite _ _ _ : Nat))
    rw [if_pos hhh.1]
    exact clash_hour (DateTime.hour_lt seconds)

end

/-! ## Section 4: Where the text and the rendering part -/

section

variable {tm : Tm} {millisecond : Nat} {s s' : Format} {t : Piece} {f : Field} {ts : List Piece}
  {R full : Bytes}

/-- A text that clashes is seen, or the end it was given. -/
theorem Format.Good.turn_clashes (h : s.Good R) (hturn : s.turn tm millisecond (.field f) = some s')
    (hss : f ≠ .ss) {v : Bytes} (hclash : Clash (f.text tm millisecond) v)
    (hshort : R.length + v.length ≤ 63) (hfull : R ++ v <+: full) (hzero : (0 : UInt8) ∉ full) :
    ∃ p, p < R.length + (f.text tm millisecond).length ∧ p < R.length + v.length ∧
      full[p]? ≠ some (s'.date p) := by
  obtain ⟨j, a, b, ha, hb, hab⟩ := hclash
  have hj : j < (f.text tm millisecond).length := (List.getElem?_eq_some_iff.mp ha).1
  have hj' : j < v.length := (List.getElem?_eq_some_iff.mp hb).1
  have hroom := room_of_le (show s.len ≤ 63 by rw [h.len]; omega)
  have hwritten := Format.turn_field hturn (by rw [hroom, h.len]; omega)
  rw [if_neg hss, h.len] at hwritten
  obtain ⟨n, hn⟩ : ∃ n, n = min (f.text tm millisecond).length (room R.length - 1) := ⟨_, rfl⟩
  rw [← hn] at hwritten
  by_cases hseen : j < n
  · refine ⟨R.length + j, by omega, by omega, ?_⟩
    have hv : full[R.length + j]? = some b := by
      obtain ⟨rest, rfl⟩ := hfull
      rw [List.append_assoc, List.getElem?_append_right (by omega), Nat.add_sub_cancel_left,
        List.getElem?_append_left hj', hb]
    have hdate := (hwritten.chars j hseen).symm.trans ha
    rw [hv, hdate]
    intro heq
    exact hab (Option.some.inj heq).symm
  · refine ⟨R.length + n, by omega, by omega, ?_⟩
    rw [hwritten.stop]
    exact fun heq => hzero (List.mem_of_getElem? heq)

/-- So is any piece that is not right, or not in place. -/
theorem Format.Good.turn_parts {zone seconds : Int} (h : s.Good R)
    (hzone : Zone zone seconds) (hseconds : 0 ≤ seconds)
    (hturn : s.turn (gmtime_r seconds) millisecond t = some s')
    (hnot : ¬ (t.InPlace R.length s.idx
      (t.rendering (DateTime.of_seconds (seconds + zone)) millisecond).length ∧ t.Right zone))
    (hshort : R.length +
      (t.rendering (DateTime.of_seconds (seconds + zone)) millisecond).length ≤ 63)
    (hfull : R ++ t.rendering (DateTime.of_seconds (seconds + zone)) millisecond <+: full)
    (hzero : (0 : UInt8) ∉ full) :
    ∃ p, p < R.length + (t.text (gmtime_r seconds) millisecond).length ∧
      p < R.length + (t.rendering (DateTime.of_seconds (seconds + zone)) millisecond).length ∧
      full[p]? ≠ some (s'.date p) := by
  by_cases hright : t.Right zone
  · have htext := hright.text hzone millisecond
    rw [← htext] at hnot ⊢
    obtain ⟨p, -, hp, hdate⟩ := h.turn_spoils hturn fun hplace => hnot ⟨hplace, hright⟩
    refine ⟨p, hp, hp, ?_⟩
    rw [hdate]
    exact fun heq => hzero (List.mem_of_getElem? heq)
  · obtain ⟨f, rfl, hss, hclash⟩ :=
      Piece.clash_of_not_right hright hzone hseconds millisecond
    exact h.turn_clashes hturn hss hclash hshort hfull hzero

end

/-! ## Section 5: The buffer as a string -/

section

variable {date : Nat → UInt8} {full : Bytes}

theorem c_str_date (hzero : (0 : UInt8) ∉ full) (hlen : full.length ≤ 63)
    (hdate : ∀ k, date k = full[k]?.getD 0) : c_str ((List.range 64).map date) = full := by
  have hbuffer : (List.range 64).map date = full ++ List.replicate (64 - full.length) 0 := by
    apply List.ext_getElem
    · rw [List.length_map, List.length_range, List.length_append, List.length_replicate]
      omega
    · intro k hk hk'
      rw [List.getElem_map, List.getElem_range, hdate k]
      by_cases hlt : k < full.length
      · rw [List.getElem_append_left hlt, List.getElem?_eq_getElem hlt]
        rfl
      · rw [List.getElem_append_right (by omega), List.getElem_replicate,
          List.getElem?_eq_none (by omega)]
        rfl
  obtain ⟨n, hn⟩ : ∃ n, 64 - full.length = n + 1 := ⟨63 - full.length, by omega⟩
  rw [hbuffer, c_str_append hzero, hn]
  exact List.append_nil full

theorem date_of_c_str (h : c_str ((List.range 64).map date) = full) {p : Nat}
    (hp : p < full.length) : full[p]? = some (date p) := by
  have hprefix : full <+: (List.range 64).map date := by
    rw [← h]
    exact List.takeWhile_prefix _
  have hlen := hprefix.length_le
  rw [List.length_map, List.length_range] at hlen
  rw [List.getElem?_eq_getElem hp, hprefix.getElem hp, List.getElem_map, List.getElem_range]

theorem zero_not_mem_c_str (s : Bytes) : (0 : UInt8) ∉ c_str s := by
  intro h
  have hall := List.all_eq_true.mp List.all_takeWhile 0 h
  simp at hall

end

/-! ## Section 6: What the code renders -/

section

variable {zone seconds : Int} {millisecond : Nat} {R ts : List Piece}

/-- Right pieces are printed as they are rendered, so that their places are the
    same. -/
theorem printed_of_right (millisecond : Nat) (hzone : Zone zone seconds)
    (hts : ∀ t ∈ ts, t.Right zone) :
    printed (gmtime_r seconds) millisecond ts =
      ts.flatMap (Piece.rendering (DateTime.of_seconds (seconds + zone)) millisecond) :=
  List.flatMap_congr fun t ht => (hts t ht).text hzone millisecond

theorem places_of_right (hzone : Zone zone seconds) (hR : ∀ t ∈ R, t.Right zone)
    (hts : ∀ t ∈ ts, t.Right zone)
    (hplace : EachAfter (fun before t => t.InPlace
      (before.flatMap
        (Piece.rendering (DateTime.of_seconds (seconds + zone)) millisecond)).length
      (consumed before)
      (t.rendering (DateTime.of_seconds (seconds + zone)) millisecond).length) R ts) :
    EachAfter (fun before t => t.InPlace (printed (gmtime_r seconds) millisecond before).length
      (consumed before) (t.text (gmtime_r seconds) millisecond).length) R ts := by
  induction ts generalizing R with
  | nil => exact trivial
  | cons t ts ih =>
    obtain ⟨ht, hts'⟩ := hplace
    obtain ⟨hright, hrights⟩ := List.forall_mem_cons.mp hts
    refine ⟨?_, ih (fun a ha => ?_) hrights hts'⟩
    · show t.InPlace _ _ _
      rwa [printed_of_right millisecond hzone hR, hright.text hzone]
    · rcases List.mem_append.mp ha with ha | ha
      · exact hR a ha
      · rwa [List.mem_singleton.mp ha]

/-- The first piece that is not right, or not in place, shows in the buffer. -/
theorem Format.run_parts {s : Format} (hzone : Zone zone seconds) (hseconds : 0 ≤ seconds)
    (hnot : ¬ EachAfter (fun before t => t.InPlace
      (before.flatMap
        (Piece.rendering (DateTime.of_seconds (seconds + zone)) millisecond)).length
      (consumed before)
      (t.rendering (DateTime.of_seconds (seconds + zone)) millisecond).length ∧ t.Right zone) [] ts)
    (hrun : Format.start.run (gmtime_r seconds) millisecond ts = some s) {full : Bytes}
    (hfull : ts.flatMap (Piece.rendering (DateTime.of_seconds (seconds + zone)) millisecond) = full)
    (hlen : full.length ≤ 63) (hzero : (0 : UInt8) ∉ full) :
    ∃ p, p < full.length ∧ full[p]? ≠ some (s.date p) := by
  obtain ⟨r, hr⟩ : ∃ r, r =
      Piece.rendering (DateTime.of_seconds (seconds + zone)) millisecond := ⟨_, rfl⟩
  obtain ⟨ts₁, t, ts₂, rfl, hts₁, ht⟩ := EachAfter.exists_first hnot
  obtain ⟨s₁, hrun₁, hrun⟩ := Format.run_append hrun
  obtain ⟨s₂, hturn, hrun₂⟩ := Format.run_cons hrun
  obtain ⟨hplace₁, hright₁⟩ := EachAfter.and_iff.mp hts₁
  have hafter := Format.After.start.run hrun₁
  have hgood := Format.Good.run Format.Good.start Format.After.start
    (places_of_right hzone (by simp) hright₁ hplace₁) hrun₁
  rw [List.nil_append] at hafter hgood ht
  have htext := printed_of_right millisecond hzone hright₁
  rw [← hafter.idx, ← htext] at ht
  rw [← hr] at hfull htext ht
  have hsplit : full = printed (gmtime_r seconds) millisecond ts₁ ++ r t ++ ts₂.flatMap r := by
    rw [← hfull, List.flatMap_append, List.flatMap_cons, htext, List.append_assoc]
  have hparts := congrArg List.length hsplit
  rw [List.length_append, List.length_append] at hparts
  obtain ⟨p, hp, hp', hwrong⟩ := hgood.turn_parts hzone hseconds hturn (by rwa [← hr])
    (by rw [← hr]; omega) (by rw [← hr]; exact ⟨_, hsplit.symm⟩) hzero
  -- what is wrong up to here stays wrong
  have hsnoc : ∀ (R : List Piece) a, (R ++ [a]).flatMap r = R.flatMap r ++ r a := by
    intro R a
    rw [List.flatMap_append, List.flatMap_singleton]
  have hcode : ∀ R a, (printed (gmtime_r seconds) millisecond (R ++ [a])).length =
      (printed (gmtime_r seconds) millisecond R).length +
        (a.text (gmtime_r seconds) millisecond).length := by
    intro R a
    rw [printed_snoc, List.length_append]
  have hspec : ∀ (R : List Piece) a, ((R ++ [a]).flatMap r).length =
      (R.flatMap r).length + (r a).length := by
    intro R a
    rw [hsnoc, List.length_append]
  have hss : (r (.field .ss)).length = (Field.ss.text (gmtime_r seconds) millisecond).length := by
    rw [hzone.ss_text, hr]
    rfl
  obtain ⟨p, hp, hwrong⟩ := Format.run_keeps (B := fun p c => full[p]? ≠ some c)
    (m := fun R => min (printed (gmtime_r seconds) millisecond R).length (R.flatMap r).length)
    (fun p _ heq => hzero (List.mem_of_getElem? heq)) (fun R => Nat.min_le_left _ _)
    (fun R a => by rw [hcode, hspec]; omega)
    (fun R => by
      rw [hcode, hspec, hss, ← Nat.add_min_add_right]
      exact le_refl _)
    (hafter.turn hturn) hrun₂
    ⟨p, by rw [hcode, hspec, ← htext, ← hr] at *; omega, hwrong⟩
  refine ⟨p, ?_, hwrong⟩
  rw [List.append_assoc, List.singleton_append, hfull] at hp
  exact lt_of_lt_of_le hp (Nat.min_le_right _ _)

end

/-- Each piece comes out whole, and in its place. -/
def Placed (zone : Int) (ms : UInt64) (format : Bytes) : Prop :=
  let t := DateTime.of_seconds ((ms.toNat / 1000 : Nat) + zone)
  let millisecond := ms.toNat % 1000
  EachAfter (fun before a => a.InPlace (before.flatMap (Piece.rendering t millisecond)).length
    (consumed before) (a.rendering t millisecond).length) [] (pieces format)

/-- **The rendering**: what `timestamp::format` returns is the rendering of the
    format if there is neither a year nor, in UTC, an hour in it, and each
    piece is in its place. -/
theorem format_renders_iff (ms : UInt64) (format : Bytes) (zone : Int)
    (hzone : Zone zone (ms.toNat / 1000 : Nat)) (hlen : (rendering zone ms format).length ≤ 63) :
    timestamp_format ms.toNat format = some (rendering zone ms format) ↔
      Placed zone ms format ∧ ∀ t ∈ pieces format, t.Right zone := by
  have hplaced : Placed zone ms format ∧ (∀ t ∈ pieces format, t.Right zone) ↔ _ :=
    EachAfter.and_iff.symm
  have hseconds : (0 : Int) ≤ (ms.toNat / 1000 : Nat) := Int.natCast_nonneg _
  constructor
  · intro h
    obtain ⟨s, hrun, hs⟩ := Option.bind_eq_some_iff.mp h
    split at hs
    · have hstring := Option.some.inj hs
      have hzero : (0 : UInt8) ∉ rendering zone ms format := by
        rw [← hstring]
        exact zero_not_mem_c_str _
      rw [hplaced]
      by_contra hnot
      obtain ⟨p, hp, hwrong⟩ := Format.run_parts hzone hseconds hnot hrun rfl hlen hzero
      exact hwrong (date_of_c_str hstring hp)
    · cases hs
  · rintro ⟨hplace, hright⟩
    have hplace' := places_of_right hzone (by simp) hright hplace
    have htext := printed_of_right (ms.toNat % 1000) hzone hright
    have hshort : (printed (gmtime_r (ms.toNat / 1000 : Nat)) (ms.toNat % 1000)
        ([] ++ pieces format)).length ≤ 63 := by
      rw [List.nil_append, htext]
      exact hlen
    have hisSome := (Format.run_isSome _ (gmtime_narrow ms) Format.Small.start
      Format.After.start).mpr (fits_of_inPlace hplace' hshort)
    obtain ⟨s, hrun⟩ := Option.isSome_iff_exists.mp hisSome
    have hgood := Format.Good.run Format.Good.start Format.After.start hplace' hrun
    have hzero : (0 : UInt8) ∉ rendering zone ms format := by
      intro hmem
      refine printed_ne_zero hplace' ?_ rfl
      rw [htext]
      exact hmem
    rw [List.nil_append, htext] at hgood
    have hend : s.Terminated := ⟨63, by decide, hgood.zero hlen⟩
    rw [timestamp_format, format_buffer, hrun, Option.bind_some, if_pos hend]
    exact congrArg some (c_str_date hzero hlen hgood.date)

theorem format_renders_day :
    timestamp_format (0 : UInt64).toNat (ascii "DD") = some (rendering 0 0 (ascii "DD")) ↔
      Placed 0 0 (ascii "DD") ∧ ∀ t ∈ pieces (ascii "DD"), t.Right 0 :=
  format_renders_iff 0 (ascii "DD") 0 (.inl rfl) (by decide)

/-- At midnight UTC the hour is printed as `-8`, which it is in no zone. -/
theorem format_renders_no_zone :
    ¬ ∃ zone, ∀ ms format, (rendering zone ms format).length ≤ 63 →
      timestamp_format ms.toNat format = some (rendering zone ms format) := by
  rintro ⟨zone, h⟩
  obtain ⟨hour, hhour⟩ : ∃ hour, hour =
      (DateTime.of_seconds (((0 : UInt64).toNat / 1000 : Nat) + zone)).hour := ⟨_, rfl⟩
  have hlt : hour < 24 := hhour ▸ DateTime.hour_lt _
  have hall : ∀ hour : Nat, hour < 24 →
      (format_dec hour).length ≤ 63 ∧ format_dec hour ≠ ascii "-8" := by
    decide
  have hpieces : pieces (ascii "hh") = [.field .hh] := by decide
  have hrendering : rendering zone 0 (ascii "hh") = format_dec hour := by
    rw [rendering, hpieces, List.flatMap_singleton, hhour]
    rfl
  have hprinted : timestamp_format (0 : UInt64).toNat (ascii "hh") = some (ascii "-8") := by
    decide +kernel
  have heq := h 0 (ascii "hh") (by rw [hrendering]; exact (hall hour hlt).1)
  rw [hprinted, hrendering] at heq
  exact (hall hour hlt).2 (Option.some.inj heq).symm

end Pump
