import Pump.Lts
import Pump.Http.Cache

/-! # Waiting for a line

    A message in the stages of the start line and of the header takes bytes
    a line at a time. `find_http_line_end` has one answer for a line that is
    not there yet and for one that cannot be, a `\r` without its `\n` or a
    line beyond the length limit; `parse` waits in both cases. -/

namespace Pump

open ParseStatus

/-! ## Section 1: Lines that can still end -/

/-- The bytes may be the start of a line: there is room for its end, and no
    `\r` that something other than `\n` follows. -/
def Completable (b : Bytes) : Prop :=
  (b.takeWhile (· ≠ 13)).length + http_crlf_length ≤ http_line_max_length ∧
    (b.dropWhile (· ≠ 13) = [] ∨ b.dropWhile (· ≠ 13) = [13])

theorem takeWhile_cr {body : Bytes} (h : (13 : UInt8) ∉ body) (rest : Bytes) :
    (body ++ 13 :: rest).takeWhile (· ≠ 13) = body :=
  takeWhile_ne_append h (Or.inr ⟨rest, rfl⟩)

theorem dropWhile_cr (b : Bytes) :
    b.dropWhile (· ≠ 13) = [] ∨ ∃ rest, b.dropWhile (· ≠ 13) = 13 :: rest := by
  rcases hdrop : b.dropWhile (· ≠ 13) with _ | ⟨c, rest⟩
  · exact Or.inl hdrop
  · right
    have hc := List.head?_dropWhile_not (· ≠ 13) b
    rw [hdrop] at hc
    obtain rfl : c = 13 := by simpa using hc
    exact ⟨rest, hdrop⟩

/-- Bytes without a line become some with one exactly when they may be the
    start of one. -/
theorem completable_iff {b : Bytes} (h : find_http_line_end b = none) :
    (∃ c, (find_http_line_end (b ++ c)).isSome) ↔ Completable b := by
  have hcr : (13 : UInt8) ∉ b.takeWhile (· ≠ 13) := by
    intro hmem
    have hne := List.mem_takeWhile_imp hmem
    simp at hne
  have hsplit : b.takeWhile (· ≠ 13) ++ b.dropWhile (· ≠ 13) = b := List.takeWhile_append_dropWhile
  have htail := dropWhile_cr b
  unfold Completable
  obtain ⟨body, hbody⟩ : ∃ body, body = b.takeWhile (· ≠ 13) := ⟨_, rfl⟩
  rw [← hbody] at hcr hsplit ⊢
  constructor
  · rintro ⟨c, hc⟩
    obtain ⟨n, hfind⟩ := Option.isSome_iff_exists.mp hc
    obtain ⟨body', rest, heq, hbody', rfl, hle⟩ := find_http_line_end_iff.mp hfind
    rcases htail with hnil | ⟨tail, hcons⟩
    · -- no `\r` has arrived: the line that ends has all of `b` before it
      rw [hnil, List.append_nil] at hsplit
      have htake := takeWhile_cr hbody' (10 :: rest)
      rw [← heq, ← hsplit, List.takeWhile_append_of_pos] at htake
      · have hlen := congrArg List.length htake
        rw [List.length_append] at hlen
        refine ⟨?_, Or.inl hnil⟩
        unfold http_crlf_length
        omega
      · intro d hd
        rw [decide_eq_true_eq]
        exact fun h13 => hcr (h13 ▸ hd)
    · rw [hcons] at hsplit
      have htake := takeWhile_cr hbody' (10 :: rest)
      rw [← heq, ← hsplit, List.append_assoc, List.cons_append, takeWhile_cr hcr] at htake
      subst htake
      refine ⟨hle, Or.inr ?_⟩
      rw [← hsplit, List.append_assoc, List.append_cancel_left_eq, List.cons_append,
        List.cons.injEq] at heq
      rcases tail with _ | ⟨d, tail⟩
      · rw [hcons]
      · -- then the line was there
        obtain rfl : d = 10 := (List.cons.inj heq.2).1
        have hfound := find_http_line_end_iff.mpr ⟨body, tail, hsplit.symm, hcr, rfl, hle⟩
        rw [h] at hfound
        cases hfound
  · rintro ⟨hroom, hnil | hcons⟩
    · refine ⟨http_crlf, ?_⟩
      rw [hnil, List.append_nil] at hsplit
      rw [find_http_line_end_iff.mpr ⟨body, [], by rw [hsplit]; rfl, hcr, rfl, hroom⟩]
      rfl
    · refine ⟨[10], ?_⟩
      rw [hcons] at hsplit
      rw [find_http_line_end_iff.mpr
        ⟨body, [], by rw [← hsplit, List.append_assoc]; rfl, hcr, rfl, hroom⟩]
      rfl

/-! ## Section 2: Calls that wait -/

namespace Reply

variable {σ : Type*}

/-- The call took something or failed. -/
def Advances : Reply σ → Prop
  | aborted => False
  | failed _ => True
  | took n _ => 1 ≤ n

theorem advances_after {k : Nat} (hk : 1 ≤ k) {r : Reply σ} {s : σ} (h : r.state = some s) :
    (r.after k).Advances := by
  rcases r with _ | s' | ⟨n, s'⟩
  · cases h
  · trivial
  · show 1 ≤ k + n
    omega

end Reply

namespace Packet

variable {α : Type} {K : Kind α}

/-- The message is in the stage of the start line or of the header. -/
def Early (p : Packet α) : Prop :=
  (p.parse_status = PARSE_NONE ∨ p.parse_status = PARSE_LINE) ∨ p.parse_status = PARSE_HEADER

theorem Ongoing.of_early {p : Packet α} (h : p.Ongoing) (he : p.Early) :
    p.header.header_parsed = false ∧ p.body = none := by
  unfold Ongoing at h
  rcases he with (hs | hs) | hs <;> rwa [hs] at h

/-- The header stage takes a line that is there. -/
theorem parse_head_advances {p : Packet α} (hs : p.parse_status = PARSE_HEADER)
    (hparsed : p.header.header_parsed = false) (hb : p.body = none) {b : Bytes} {n : Nat}
    (hfind : find_http_line_end b = some n) : (p.parse_head K [] b).Advances := by
  have hn := find_http_line_end_bounds hfind
  obtain ⟨p', hstate⟩ := parse_head_returns (K := K) hs hparsed hb b
  rw [parse_head_eq hs hparsed] at hstate ⊢
  rcases hend : (Header.scan b).ending with _ | _ | _
  · -- a line before the end of the header
    rw [Header.scan_of_found hfind] at hend ⊢
    split at hend
    · cases hend
    · next h2 =>
      rw [if_neg h2]
      rcases hsplit : Header.split_line (b.take n) with _ | ⟨name, rest⟩
      · rw [hsplit] at hend
        cases hend
      · show 1 ≤ n + _
        omega
  · rw [hend] at hstate
    simp only [Reply.state_after] at hstate
    have h0 := scan_size_pos (Or.inr hend)
    exact Reply.advances_after (by omega) hstate
  · trivial

/-- **A call advances exactly when it finds a line.** -/
theorem parse_advances_iff {p : Packet α} (h : p.Ongoing) (he : p.Early) (b : Bytes) :
    (p.parse K b).Advances ↔ (find_http_line_end b).isSome := by
  obtain ⟨hparsed, hb⟩ := h.of_early he
  unfold parse
  rcases hfind : find_http_line_end b with _ | n
  · -- nothing is taken
    constructor
    · intro hadv
      rcases he with hs | hs
      · rw [parse_from_line hs, hfind] at hadv
        exact absurd hadv (Nat.not_succ_le_zero 0)
      · rw [parse_from_header hs, parse_head_eq hs hparsed, Header.scan_of_not_found hfind] at hadv
        exact absurd hadv (Nat.not_succ_le_zero 0)
    · nofun
  · have hn := find_http_line_end_bounds hfind
    refine ⟨fun _ => rfl, fun _ => ?_⟩
    rcases he with hs | hs
    · rw [parse_from_line hs, hfind]
      simp only
      split
      · obtain ⟨p', hstate⟩ := parse_head_returns (K := K)
          (p := { p with
            fields := (K.parse_line p.fields p.version (b.take n)).2.1
            version := (K.parse_line p.fields p.version (b.take n)).2.2
            parse_status := PARSE_HEADER }) rfl hparsed hb (b.drop n)
        exact Reply.advances_after (by omega) hstate
      · trivial
    · rw [parse_from_header hs]
      exact parse_head_advances hs hparsed hb hfind

/-- What a call leaves that waits. -/
theorem early_of_waits {p p' : Packet α} {b : Bytes} (h : p.Ongoing) (he : p.Early)
    (hparse : p.parse K b = .took 0 p') : p'.Early ∧ find_http_line_end b = none := by
  have hfind : find_http_line_end b = none := by
    have hadv := parse_advances_iff (K := K) h he b
    rw [hparse] at hadv
    rw [← Option.not_isSome_iff_eq_none, ← hadv]
    exact Nat.not_succ_le_zero 0
  obtain ⟨hparsed, hb⟩ := h.of_early he
  refine ⟨?_, hfind⟩
  unfold parse at hparse
  rcases he with hs | hs
  · rw [parse_from_line hs, hfind] at hparse
    cases hparse
    exact Or.inl (Or.inr rfl)
  · rw [parse_from_header hs, parse_head_eq hs hparsed, Header.scan_of_not_found hfind] at hparse
    cases hparse
    exact Or.inr hs

/-- A call of `parse` without an error. -/
def parser_step (K : Kind α) (p : Packet α) (b : Bytes) : Option (Packet α) :=
  match p.parse K b with
  | .took _ p' => some p'
  | _ => none

theorem reachable_ongoing {fields : α} {p : Packet α}
    (h : Reachable (parser_step K) AnyStep (construct fields) p) : p.Ongoing := by
  have hinit : (construct fields).Ongoing := ⟨rfl, rfl⟩
  apply h.invariant hinit
  intro p b p' hongoing _ hstep
  unfold parser_step at hstep
  split at hstep
  · next hparse =>
    cases hstep
    exact (parse_left hongoing hparse).2.1
  · cases hstep

/-- **Waiting.** A call that waits can be ended by further bytes if and only
    if what it waits with may be the start of a line. -/
theorem waiting_ends_iff {fields : α} {p p' : Packet α} {b : Bytes}
    (h : Reachable (parser_step K) AnyStep (construct fields) p) (he : p.Early)
    (hparse : p.parse K b = .took 0 p') :
    (∃ c, (p'.parse K (b ++ c)).Advances) ↔ Completable b := by
  obtain ⟨he', hfind⟩ := early_of_waits (reachable_ongoing h) he hparse
  have h' : Reachable (parser_step K) AnyStep (construct fields) p' :=
    .step h trivial (by unfold parser_step; rw [hparse])
  rw [← completable_iff hfind]
  exact exists_congr fun c => parse_advances_iff (reachable_ongoing h') he' (b ++ c)

/-- A call without a line waits. -/
theorem parse_waits {p : Packet α} {b : Bytes} (h : p.Ongoing) (he : p.Early)
    (hfind : find_http_line_end b = none) : ∃ p', p.parse K b = .took 0 p' := by
  obtain ⟨p', hstate⟩ := parse_returns (K := K) h b
  have hadv := parse_advances_iff (K := K) h he b
  rw [hfind] at hadv
  rcases hcall : p.parse K b with _ | q | ⟨n, q⟩
  · rw [hcall] at hstate
    cases hstate
  · rw [hcall] at hadv
    exact absurd (hadv.mp trivial) nofun
  · rw [hcall] at hadv
    obtain rfl : n = 0 := by
      by_contra h0
      exact absurd (hadv.mp (Nat.one_le_iff_ne_zero.mpr h0)) nofun
    exact ⟨q, rfl⟩

/-- Where no further bytes end the wait, no run takes anything: all that
    arrives is kept. -/
theorem stalled_feed {p : Packet α} {b : Bytes} (h : p.Ongoing) (he : p.Early)
    (hb : find_http_line_end b = none) (hstalled : ¬ Completable b) (segs : List Bytes) :
    ∃ p', feed (parse K) p b segs = .took 0 p' ∧ p'.Early := by
  have hnone : ∀ c, find_http_line_end (b ++ c) = none := by
    intro c
    by_contra hfound
    exact hstalled ((completable_iff hb).mp ⟨c, Option.isSome_iff_ne_none.mpr hfound⟩)
  clear hb hstalled
  induction segs generalizing p b with
  | nil => exact ⟨p, rfl, he⟩
  | cons seg segs ih =>
    obtain ⟨p₁, hp₁⟩ := parse_waits (K := K) h he (hnone seg)
    have he₁ := (early_of_waits h he hp₁).1
    obtain ⟨p', hfeed, he'⟩ := ih (parse_left h hp₁).2.1 he₁ (b := b ++ seg) (by
      intro c
      rw [List.append_assoc]
      exact hnone (seg ++ c))
    refine ⟨p', ?_, he'⟩
    unfold feed
    rw [hp₁]
    simp only [List.drop_zero, hfeed, Reply.after]

theorem waiting_ends_no_crlf :
    (∃ c, (parse Request.kind { Request.construct with parse_status := PARSE_LINE }
      (ascii "GET" ++ c)).Advances) ↔ Completable (ascii "GET") :=
  waiting_ends_iff (p := Request.construct) .init (Or.inl (Or.inl rfl)) (by decide)

/-- A `\r` that a byte other than `\n` follows is not rejected, and nothing
    ends the wait for its line. -/
theorem not_waiting_ends_lone_cr :
    parse Request.kind Request.construct [13, 120] =
        .took 0 { Request.construct with parse_status := PARSE_LINE } ∧
      ¬ ∃ c, (parse Request.kind { Request.construct with parse_status := PARSE_LINE }
        ([13, 120] ++ c)).Advances := by
  refine ⟨by decide, ?_⟩
  rintro ⟨c, hc⟩
  have hongoing : Ongoing { Request.construct with parse_status := PARSE_LINE } := ⟨rfl, rfl⟩
  have hfound := (parse_advances_iff hongoing (Or.inl (Or.inr rfl)) _).mp hc
  have hcan : Completable [13, 120] := (completable_iff (by decide)).mp ⟨c, hfound⟩
  rcases hcan.2 with hnil | hcr
  · exact absurd hnil (by decide)
  · exact absurd hcr (by decide)

end Packet

end Pump
