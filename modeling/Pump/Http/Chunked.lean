import Pump.Http.Body

/-! # Chunked bodies

    `body::__parse_by_chunk` works on segments. Here is what it computes: a
    decoder that takes the stream byte by byte. The calls on any segments
    agree with it, as long as no segment ends inside the digits of a chunk
    size. -/

namespace Pump

/-! ## Section 1: The decoder -/

/-- Where in the stream the decoder is. `size` and `size_lf` carry the chunk
    size read so far, `data` the data bytes left, `skip` what is left of the
    two bytes behind them; `last` and `last_lf` are the end behind the empty
    chunk. -/
inductive Phase where
  | size (acc : Nat)
  | size_lf (acc : Nat)
  | data (k : Nat)
  | skip (k : Nat)
  | last
  | last_lf (ok : Bool)
  | done
  | bad
  deriving DecidableEq

/-- A phase in which segments may end. -/
def Phase.Waits : Phase → Prop
  | .size acc => acc = 0
  | .done => False
  | .bad => False
  | _ => True

structure Decoder where
  phase : Phase
  data : Bytes
  count : Nat
  deriving DecidableEq

namespace Decoder

/-- The phase behind the line of a chunk of `acc` bytes. -/
def entered (acc : Nat) : Phase := if acc = 0 then .last else .data acc

/-- The phase with `k` data bytes left. -/
def left (k : Nat) : Phase := if k = 0 then .skip 2 else .data k

/-- One byte. -/
def step (d : Decoder) (c : UInt8) : Decoder :=
  match d.phase with
  | .size acc =>
    if acc ≥ 1048576 then { d with phase := .bad }
    else if c = 13 then { d with phase := .size_lf acc, count := d.count + 1 }
    else { d with phase := .size (acc * 16 + hex_to_dec c), count := d.count + 1 }
  | .size_lf acc =>
    if c = 10 then { d with phase := entered acc, count := d.count + 1 }
    else { d with phase := .bad }
  | .data k => { phase := left (k - 1), data := d.data ++ [c], count := d.count + 1 }
  | .skip k =>
    { d with phase := if k ≤ 1 then .size 0 else .skip (k - 1), count := d.count + 1 }
  | .last => { d with phase := .last_lf (c = 13), count := d.count + 1 }
  | .last_lf ok =>
    if ok ∧ c = 10 then { d with phase := .done, count := d.count + 1 }
    else { d with phase := .bad }
  | .done => d
  | .bad => d

def run (d : Decoder) (b : Bytes) : Decoder := b.foldl step d

@[simp] theorem run_nil (d : Decoder) : d.run [] = d := rfl

@[simp] theorem run_cons (d : Decoder) (c : UInt8) (b : Bytes) :
    d.run (c :: b) = (d.step c).run b := rfl

theorem run_append (d : Decoder) (x y : Bytes) : d.run (x ++ y) = (d.run x).run y :=
  List.foldl_append

theorem run_take_drop (d : Decoder) (b : Bytes) (n : Nat) :
    (d.run (b.take n)).run (b.drop n) = d.run b := by
  rw [← run_append, List.take_append_drop]

theorem run_done {d : Decoder} (h : d.phase = .done) (b : Bytes) : d.run b = d := by
  induction b with
  | nil => rfl
  | cons c b ih =>
    have hstep : d.step c = d := by simp [step, h]
    rw [run_cons, hstep, ih]

theorem run_bad {d : Decoder} (h : d.phase = .bad) (b : Bytes) : d.run b = d := by
  induction b with
  | nil => rfl
  | cons c b ih =>
    have hstep : d.step c = d := by simp [step, h]
    rw [run_cons, hstep, ih]

/-- The bytes of a chunk. -/
theorem run_data {k : Nat} {D b : Bytes} {count : Nat} (hb : b.length ≤ k) :
    (Decoder.mk (left k) D count).run b =
      ⟨left (k - b.length), D ++ b, count + b.length⟩ := by
  induction b generalizing k D count with
  | nil => simp
  | cons c b ih =>
    have hk : k ≠ 0 := by
      rintro rfl
      simp at hb
    have hstep : (Decoder.mk (left k) D count).step c = ⟨left (k - 1), D ++ [c], count + 1⟩ := by
      simp [step, left, hk]
    rw [List.length_cons] at hb
    rw [run_cons, hstep, ih (by omega)]
    simp only [List.length_cons, List.append_assoc, List.cons_append, List.nil_append,
      Decoder.mk.injEq, true_and]
    exact ⟨by congr 1; omega, by omega⟩

/-- The decoder sits behind some digits of a size line. -/
def InDigits (d : Decoder) : Prop := ∃ acc, d.phase = .size acc ∧ acc ≠ 0

end Decoder

/-! ## Section 2: One call -/

namespace Body

/-- Invariant of a body in chunk mode that is not finished. -/
structure Chunking (body : Body) : Prop where
  mode : body.is_chunk_mode = true
  unfinished : body.is_parse_finished = false
  parsing : body.parsing_chunk_size = 0 ∨ http_crlf_length ≤ body.parsing_chunk_size
  expected : body.expected_size =
    wrap32 (body.data.length + (body.parsing_chunk_size - http_crlf_length : Nat))

/-- The decoder a body stands for, `count` bytes into the stream. -/
def decoder (body : Body) (count : Nat) : Decoder :=
  { phase := if body.parsing_chunk_size = 0 then .size 0
      else Decoder.left (body.parsing_chunk_size - http_crlf_length)
    data := body.data
    count := count }

/-- The inner loop and the decoder on a size line. -/
theorem parse_chunk_size_spec (acc : Nat) (D b : Bytes) (count : Nat) :
    match parse_chunk_size acc b with
    | .value v taken => taken ≤ b.length ∧
        ((taken = b.length ∧ (Decoder.mk (.size acc) D count).run b = ⟨.size v, D, count + taken⟩) ∨
          (Decoder.mk (.size acc) D count).run (b.take taken) =
            ⟨Decoder.entered v, D, count + taken⟩ ∧ 2 ≤ taken)
    | .cut => ∃ v, (Decoder.mk (.size acc) D count).run b = ⟨.size_lf v, D, count + b.length⟩
    | .bad => ((Decoder.mk (.size acc) D count).run b).phase = .bad ∧
        ((Decoder.mk (.size acc) D count).run b).data = D := by
  induction b generalizing acc count with
  | nil => simp [parse_chunk_size]
  | cons c b ih =>
    unfold parse_chunk_size
    by_cases hlong : acc ≥ 1048576
    · -- too long: the decoder is bad from here on
      have hstep : (Decoder.mk (.size acc) D count).step c = ⟨.bad, D, count⟩ := by
        simp [Decoder.step, hlong]
      rw [if_pos hlong, Decoder.run_cons, hstep, Decoder.run_bad rfl]
      exact ⟨rfl, rfl⟩
    · rw [if_neg hlong]
      by_cases hcr : c = 13
      · have hstep : (Decoder.mk (.size acc) D count).step c = ⟨.size_lf acc, D, count + 1⟩ := by
          simp [Decoder.step, hlong, hcr]
        rw [if_pos hcr]
        cases b with
        | nil => exact ⟨acc, by rw [Decoder.run_cons, hstep]; rfl⟩
        | cons d b =>
          by_cases hlf : d = 10
          · have hstep' : (Decoder.mk (.size_lf acc) D (count + 1)).step d =
                ⟨Decoder.entered acc, D, count + 2⟩ := by
              simp [Decoder.step, hlf]
            have hd : ¬ d ≠ 10 := not_not_intro hlf
            simp only [if_neg hd]
            refine ⟨by simp [http_crlf_length], Or.inr ⟨?_, Nat.le_refl _⟩⟩
            simp only [http_crlf_length, List.take_succ_cons, List.take_zero]
            rw [Decoder.run_cons, hstep, Decoder.run_cons, hstep', Decoder.run_nil]
          · have hstep' : (Decoder.mk (.size_lf acc) D (count + 1)).step d =
                ⟨.bad, D, count + 1⟩ := by
              simp [Decoder.step, hlf]
            simp only [if_pos (show d ≠ 10 from hlf)]
            rw [Decoder.run_cons, hstep, Decoder.run_cons, hstep', Decoder.run_bad rfl]
            exact ⟨rfl, rfl⟩
      · have hstep : (Decoder.mk (.size acc) D count).step c =
            ⟨.size (acc * 16 + hex_to_dec c), D, count + 1⟩ := by
          simp [Decoder.step, hlong, hcr]
        rw [if_neg hcr]
        have ih := ih (acc * 16 + hex_to_dec c) (count + 1)
        cases hrest : parse_chunk_size (acc * 16 + hex_to_dec c) b with
        | value v taken =>
          rw [hrest] at ih
          obtain ⟨hle, ih⟩ := ih
          refine ⟨by rw [List.length_cons]; omega, ?_⟩
          rcases ih with ⟨htaken, hrun⟩ | ⟨hrun, htaken⟩
          · left
            refine ⟨by rw [htaken, List.length_cons], ?_⟩
            rw [Decoder.run_cons, hstep, hrun, Nat.add_assoc, Nat.add_comm 1]
          · right
            refine ⟨?_, by omega⟩
            rw [List.take_succ_cons, Decoder.run_cons, hstep, hrun, Nat.add_assoc, Nat.add_comm 1]
        | cut =>
          rw [hrest] at ih
          obtain ⟨v, hrun⟩ := ih
          refine ⟨v, ?_⟩
          rw [Decoder.run_cons, hstep, hrun, List.length_cons, Nat.add_assoc, Nat.add_comm 1]
        | bad =>
          rw [hrest] at ih
          rw [Decoder.run_cons, hstep]
          exact ih

theorem wrap32_add (x y : Int) : wrap32 (wrap32 x + y) = wrap32 (x + y) := by
  unfold wrap32
  exact Int.bmod_add_bmod

theorem decoder_waits (body : Body) (count : Nat) : (body.decoder count).phase.Waits := by
  unfold decoder Decoder.left
  split
  · exact rfl
  · simp only
    split <;> exact trivial

theorem run_skip {D b : Bytes} {count : Nat} (hb : b.length = 2) :
    (Decoder.mk (.skip 2) D count).run b = ⟨.size 0, D, count + 2⟩ := by
  match b, hb with
  | [c, d], _ => simp [Decoder.step]

theorem take_chunk_spec {body : Body} (h : Chunking body) (hs : body.parsing_chunk_size ≠ 0)
    (b : Bytes) (count : Nat) {stop : Bool} {n : Nat} {body' : Body}
    (ht : body.take_chunk b = (stop, n, body')) :
    n ≤ b.length ∧ Chunking body' ∧
      (body.decoder count).run (b.take n) = body'.decoder (count + n) ∧
      (stop = true → body' = body ∧ body.parsing_chunk_size = http_crlf_length ∧ b.length < 2) ∧
      (stop = false → b ≠ [] → 1 ≤ n) := by
  obtain ⟨hmode, hfin, hparsing, hexp⟩ := h
  -- the size that is stored counts the two bytes behind the data
  obtain ⟨s, hs'⟩ : ∃ s, body.parsing_chunk_size = s + 2 := by
    have h2 : http_crlf_length = 2 := rfl
    exact ⟨body.parsing_chunk_size - 2, by omega⟩
  have hdec : body.decoder count = ⟨Decoder.left s, body.data, count⟩ := by
    simp [decoder, hs', http_crlf_length]
  simp only [take_chunk, hs', http_crlf_length] at ht hexp
  split at ht
  · -- the whole chunk and the two bytes behind it
    next hge =>
    cases ht
    have hdata : (if s + 2 > 2 then body.data ++ b.take (s + 2 - 2) else body.data) =
        body.data ++ b.take s := by
      by_cases h0 : s = 0
      · simp [h0]
      · rw [if_pos (by omega)]
        rfl
    have htail : ((b.take (s + 2)).drop s).length = 2 := by
      rw [List.length_drop, List.length_take]
      omega
    have htake : (b.take s).length = s := by
      rw [List.length_take]
      omega
    rw [hdata]
    refine ⟨hge, ⟨hmode, hfin, Or.inl rfl, ?_⟩, ?_, by simp, fun _ _ => by omega⟩
    · simp only [hexp, List.length_append, htake]
      congr 1
    · have hsplit := Decoder.run_take_drop (body.decoder count) (b.take (s + 2)) s
      rw [List.take_take, Nat.min_eq_left (by omega)] at hsplit
      rw [← hsplit, hdec, Decoder.run_data (by omega), htake, Nat.sub_self]
      simp only [Decoder.left, if_true]
      rw [run_skip htail]
      simp [decoder, Nat.add_assoc]
  · next hlt =>
    split at ht
    · next h2 =>
      cases ht
      exact ⟨Nat.zero_le _, ⟨hmode, hfin, hparsing, by simpa [hs', http_crlf_length] using hexp⟩,
        rfl, fun _ => ⟨rfl, by simp [hs', http_crlf_length]; omega, by omega⟩, by simp⟩
    · next h2 =>
      split at ht
      · -- data only
        next hroom =>
        cases ht
        refine ⟨Nat.le_refl _, ⟨hmode, hfin, Or.inr ?_, ?_⟩, ?_, by simp, fun _ hb => ?_⟩
        · simp only [http_crlf_length]
          omega
        · simp only [hexp, List.length_append, http_crlf_length]
          congr 1
          omega
        · rw [List.take_length, hdec, Decoder.run_data (by omega)]
          have h0 : ¬ s + 2 - b.length = 0 := by omega
          simp only [decoder, if_neg h0, http_crlf_length]
          congr 2
          omega
        · exact List.length_pos_iff.mpr hb
      · -- the data and one of the two bytes, which stays
        next hroom =>
        cases ht
        have htake : (b.take s).length = s := by
          rw [List.length_take]
          omega
        refine ⟨by omega, ⟨hmode, hfin, Or.inr (Nat.le_refl _), ?_⟩, ?_, by simp, fun _ _ => by omega⟩
        · simp only [hexp, List.length_append, Nat.add_sub_cancel, htake, http_crlf_length]
          congr 1
        · simp only [Nat.add_sub_cancel]
          rw [hdec, Decoder.run_data (by omega), htake]
          simp [decoder, http_crlf_length]

/-- What a call that takes bytes leaves: a finished body at the end of the
    decoder's run, or one that waits. A body that waits stands for the
    decoder again, with the bytes not taken, unless the bytes end inside the
    digits of a size line. -/
def Took (body : Body) (rest : Bytes) (d : Decoder) (count : Nat) : Prop :=
  (body.is_parse_finished = true ∧ d = ⟨.done, body.data, count⟩) ∨
    (Chunking body ∧ d.data = body.data ∧
      (((body.decoder count).run rest = d ∧ d.phase.Waits) ∨
        ∃ acc, d.phase = .size acc ∧ acc ≠ 0 ∧
          body.parsing_chunk_size = acc + http_crlf_length ∧ rest = []))

/-- A call that stops where it started. -/
theorem took_start {body : Body} (h : Chunking body) {d : Decoder} {count : Nat} {b : Bytes}
    (hrun : (body.decoder count).run b = d) (hdata : d.data = body.data) (hd : d.phase.Waits) :
    Took body b d count :=
  Or.inr ⟨h, hdata, Or.inl ⟨hrun, hd⟩⟩

/-- The reply of a call on `b` that starts with the decoder `count` bytes
    into the stream and ends with it at `d`. -/
def Replies (r : Reply Body) (b : Bytes) (d : Decoder) (count : Nat) : Prop :=
  match r with
  | .aborted => False
  | .failed body => d.phase = .bad ∧ d.data = body.data
  | .took n body => n ≤ b.length ∧ Took body (b.drop n) d (count + n)

theorem replies_start {body : Body} (h : Chunking body) {d : Decoder} {count : Nat} {b : Bytes}
    (hrun : (body.decoder count).run b = d) (hdata : d.data = body.data) (hd : d.phase.Waits) :
    Replies (.took 0 body) b d count :=
  ⟨Nat.zero_le _, took_start h hrun hdata hd⟩

theorem enter_chunk_reply {body : Body} (h : Chunking body) {b : Bytes} {r : Reply Body}
    (he : body.enter_chunk b = .reply r) (count : Nat) :
    Replies r b ((body.decoder count).run b) count := by
  unfold enter_chunk at he
  by_cases h0 : body.parsing_chunk_size = 0
  · have hdec : body.decoder count = ⟨.size 0, body.data, count⟩ := by simp [decoder, h0]
    have hexp : body.expected_size = wrap32 body.data.length := by
      simpa [h0] using h.expected
    have hspec := parse_chunk_size_spec 0 body.data b count
    rw [if_pos h0] at he
    rw [hdec]
    cases hline : parse_chunk_size 0 b with
    | cut =>
      rw [hline] at he hspec
      cases he
      obtain ⟨v, hrun⟩ := hspec
      rw [hrun]
      exact replies_start h (by rw [hdec, hrun]) rfl trivial
    | bad =>
      rw [hline] at he hspec
      cases he
      exact hspec
    | value v taken =>
      rw [hline] at he hspec
      obtain ⟨htaken, hspec⟩ := hspec
      -- only the empty chunk ends in a reply, the others go on to their data
      by_cases hv : v = 0
      · subst hv
        have hexp' : wrap32 (body.expected_size + (0 : Nat)) = body.expected_size := by
          rw [hexp, wrap32_add]
          simp
        have hsame : { body with
            expected_size := wrap32 (body.expected_size + (0 : Nat))
            parsing_chunk_size := 0 } = body := by
          rw [hexp', ← h0]
        simp only [if_true, hsame] at he
        rcases hspec with ⟨hend, hrun⟩ | ⟨hrun, h2⟩
        · -- the bytes end inside the line
          have hnil : b.drop taken = [] := by simp [hend]
          rw [hnil] at he
          cases he
          rw [hrun]
          exact replies_start h (by rw [hdec, hrun]) rfl rfl
        · -- the end behind the empty chunk
          have hrun' := Decoder.run_take_drop ⟨.size 0, body.data, count⟩ b taken
          rw [hrun] at hrun'
          cases hdrop : b.drop taken with
          | nil =>
            rw [hdrop] at he hrun'
            cases he
            rw [← hrun']
            exact replies_start h (by rw [hdec, hrun']) rfl trivial
          | cons c tail =>
            cases tail with
            | nil =>
              rw [hdrop] at he hrun'
              cases he
              rw [← hrun']
              exact replies_start h (by rw [hdec, hrun']) rfl trivial
            | cons d tail =>
              have hlen : taken + 2 ≤ b.length := by
                have := congrArg List.length hdrop
                simp only [List.length_drop, List.length_cons] at this
                omega
              rw [hdrop] at he hrun'
              simp only at he
              by_cases hcrlf : c ≠ 13 ∨ d ≠ 10
              · have hbad : (Decoder.mk (Decoder.entered 0) body.data (count + taken)).run
                    (c :: d :: tail) = ⟨.bad, body.data, count + taken + 1⟩ := by
                  rw [Decoder.run_cons, Decoder.run_cons]
                  rw [← not_and_or] at hcrlf
                  rw [show ((Decoder.mk (Decoder.entered 0) body.data (count + taken)).step c).step d
                    = ⟨.bad, body.data, count + taken + 1⟩ by
                      simp [Decoder.step, Decoder.entered, hcrlf]]
                  exact Decoder.run_bad rfl tail
                rw [if_pos hcrlf] at he
                cases he
                rw [← hrun', hbad]
                exact ⟨rfl, rfl⟩
              · rw [if_neg hcrlf, hexp', if_neg (not_not_intro hexp.symm)] at he
                cases he
                obtain ⟨rfl, rfl⟩ : c = 13 ∧ d = 10 := by
                  simpa using not_or.mp hcrlf
                have hdone : (Decoder.mk (Decoder.entered 0) body.data (count + taken)).run
                    (13 :: 10 :: tail) = ⟨.done, body.data, count + (taken + 2)⟩ := by
                  rw [Decoder.run_cons, Decoder.run_cons]
                  exact Decoder.run_done rfl tail
                rw [← hrun', hdone]
                exact ⟨hlen, Or.inl ⟨rfl, rfl⟩⟩
      · simp only [if_neg hv] at he
        cases he
  · rw [if_neg h0] at he
    cases he

theorem enter_chunk_chunk {body body₁ : Body} (h : Chunking body) {b : Bytes} {taken : Nat}
    (he : body.enter_chunk b = .chunk taken body₁) (count : Nat) :
    taken ≤ b.length ∧ Chunking body₁ ∧ body₁.parsing_chunk_size ≠ 0 ∧
      ((body.decoder count).run (b.take taken) = body₁.decoder (count + taken) ∨
        taken = b.length ∧ ∃ acc, acc ≠ 0 ∧ body₁.parsing_chunk_size = acc + http_crlf_length ∧
          (body.decoder count).run b = ⟨.size acc, body₁.data, count + taken⟩) := by
  unfold enter_chunk at he
  by_cases h0 : body.parsing_chunk_size = 0
  · have hdec : body.decoder count = ⟨.size 0, body.data, count⟩ := by simp [decoder, h0]
    have hexp : body.expected_size = wrap32 body.data.length := by
      simpa [h0] using h.expected
    have hspec := parse_chunk_size_spec 0 body.data b count
    rw [if_pos h0] at he
    rw [hdec]
    cases hline : parse_chunk_size 0 b with
    | cut =>
      rw [hline] at he
      cases he
    | bad =>
      rw [hline] at he
      cases he
    | value v taken' =>
      rw [hline] at he hspec
      obtain ⟨htaken, hspec⟩ := hspec
      -- the empty chunk is not entered
      by_cases hv : v = 0
      · subst hv
        simp only [if_true] at he
        split at he
        · split at he
          · cases he
          · split at he <;> cases he
        · cases he
      · simp only [if_neg hv, Entered.chunk.injEq] at he
        obtain ⟨rfl, rfl⟩ := he
        refine ⟨htaken, ⟨h.mode, h.unfinished, Or.inr (Nat.le_add_left _ _), ?_⟩, ?_, ?_⟩
        · simp only [hexp, wrap32_add, Nat.add_sub_cancel]
        · simp [http_crlf_length]
        · rcases hspec with ⟨hend, hrun⟩ | ⟨hrun, -⟩
          · exact Or.inr ⟨hend, v, hv, rfl, hrun⟩
          · left
            rw [hrun]
            simp [decoder, Decoder.entered, Decoder.left, hv, http_crlf_length]
  · rw [if_neg h0] at he
    cases he
    exact ⟨Nat.zero_le _, h, h0, Or.inl rfl⟩

theorem parse_chunk_loop_nil (fuel : Nat) (body : Body) (size : Nat) :
    parse_chunk_loop fuel body [] size = .took size body := by
  cases fuel <;> simp [parse_chunk_loop]

theorem run_skip_short {body : Body} {b : Bytes}
    (hs : body.parsing_chunk_size = http_crlf_length) (hb : b.length < 2) (count : Nat) :
    ((body.decoder count).run b).data = body.data ∧ ((body.decoder count).run b).phase.Waits := by
  have hdec : body.decoder count = ⟨.skip 2, body.data, count⟩ := by
    simp [decoder, hs, http_crlf_length, Decoder.left]
  rw [hdec]
  rcases b with _ | ⟨c, _ | ⟨d, b⟩⟩
  · exact ⟨rfl, trivial⟩
  · exact ⟨rfl, trivial⟩
  · rw [List.length_cons, List.length_cons] at hb
    omega

/-- **One call.** The loop computes what the decoder does. -/
theorem parse_chunk_loop_spec (fuel : Nat) {body : Body} (h : Chunking body) {b : Bytes}
    (hfuel : b.length ≤ fuel) (size count : Nat) :
    ∃ r, parse_chunk_loop fuel body b size = r.after size ∧
      Replies r b ((body.decoder count).run b) count := by
  -- a turn that does not stop takes a byte, so the fuel lasts
  induction fuel generalizing body b size count with
  | zero =>
    obtain rfl : b = [] := by simpa using hfuel
    exact ⟨.took 0 body, rfl, replies_start h rfl rfl (decoder_waits body count)⟩
  | succ fuel ih =>
    unfold parse_chunk_loop
    by_cases hb : b = []
    · subst hb
      exact ⟨.took 0 body, rfl, replies_start h rfl rfl (decoder_waits body count)⟩
    · rw [if_neg hb]
      cases he : body.enter_chunk b with
      | reply r => exact ⟨r, rfl, enter_chunk_reply h he count⟩
      | chunk taken body₁ =>
        obtain ⟨htaken, h₁, hparsing, hrun⟩ := enter_chunk_chunk h he count
        obtain ⟨⟨stop, n, body₂⟩, ht⟩ : ∃ t, body₁.take_chunk (b.drop taken) = t := ⟨_, rfl⟩
        obtain ⟨hn, h₂, hrun₂, hstop, hgo⟩ :=
          take_chunk_spec h₁ hparsing (b.drop taken) (count + taken) ht
        rw [List.length_drop] at hn
        simp only [ht]
        rcases hrun with hrun | ⟨hend, acc, hacc, hsize, hrun⟩
        · -- the decoder is at the start of the chunk
          have hall : (body₁.decoder (count + taken)).run (b.drop taken) =
              (body.decoder count).run b := by
            rw [← hrun, Decoder.run_take_drop]
          cases stop with
          | true =>
            obtain ⟨hbody, hskip, hshort⟩ := hstop rfl
            obtain ⟨hdata, hwaits⟩ := run_skip_short hskip hshort (count + taken)
            rw [hall] at hdata hwaits
            subst hbody
            exact ⟨.took taken body₂, rfl, htaken, took_start h₂ hall hdata hwaits⟩
          | false =>
            have hfuel₂ : (b.drop (taken + n)).length ≤ fuel := by
              rw [List.length_drop]
              by_cases h0 : taken = 0
              · have := hgo rfl (by simpa [h0] using hb)
                omega
              · omega
            obtain ⟨r, hr, hrep⟩ := ih h₂ hfuel₂ (size + taken + n) (count + taken + n)
            have hrun' : (body₂.decoder (count + taken + n)).run (b.drop (taken + n)) =
                (body.decoder count).run b := by
              rw [← hrun₂, ← List.drop_drop, Decoder.run_take_drop, hall]
            refine ⟨r.after (taken + n), ?_, ?_⟩
            · simp only [Bool.false_eq_true, if_false, hr, Reply.after_after]
              rw [Nat.add_assoc]
            · rw [hrun'] at hrep
              cases r with
              | aborted => exact hrep
              | failed body' => exact hrep
              | took m body' =>
                obtain ⟨hm, htook⟩ := hrep
                rw [List.length_drop] at hm
                refine ⟨by omega, ?_⟩
                rw [List.drop_drop] at htook
                rwa [show count + (taken + n + m) = count + taken + n + m by omega]
        · -- the bytes end inside the digits, which are taken for the whole size
          have hnil : b.drop taken = [] := by simp [hend]
          have hstay : body₁.take_chunk [] = (false, 0, body₁) := by
            clear * - hsize hacc
            obtain ⟨mode, data, expected, size₁, finished⟩ := body₁
            obtain rfl : size₁ = acc + http_crlf_length := hsize
            simp [take_chunk, hacc, http_crlf_length]
          rw [hnil, hstay] at ht
          cases ht
          refine ⟨.took taken body₁, ?_, htaken, Or.inr ?_⟩
          · simp [hnil, parse_chunk_loop_nil, Reply.after]
          · rw [hend, List.drop_length, ← hend, hrun]
            exact ⟨h₁, rfl, Or.inr ⟨acc, rfl, hacc, hsize, rfl⟩⟩

/-! ## Section 3: All calls -/

/-- `body::parse` as a message calls it: not any more once it is finished. -/
def parse_unfinished (body : Body) (b : Bytes) : Reply Body :=
  if body.is_parse_finished then .took 0 body else body.parse b

/-- What the calls amount to. -/
inductive Outcome where
  | aborted
  | error (data : Bytes)
  | finished (data : Bytes) (consumed : Nat)
  | waiting (data : Bytes)
  deriving DecidableEq

def outcome : Reply Body → Outcome
  | .aborted => .aborted
  | .failed body => .error body.data
  | .took n body => if body.is_parse_finished then .finished body.data n else .waiting body.data

end Body

def Decoder.outcome (d : Decoder) : Body.Outcome :=
  match d.phase with
  | .bad => .error d.data
  | .done => .finished d.data d.count
  | _ => .waiting d.data

namespace Body

/-- The outcome of a decoder that is not at an end. -/
theorem outcome_waiting {d : Decoder} (h : d.phase.Waits ∨ ∃ acc, d.phase = .size acc) :
    d.outcome = .waiting d.data := by
  unfold Decoder.outcome
  split
  · next hbad => simp [hbad, Phase.Waits] at h
  · next hdone => simp [hdone, Phase.Waits] at h
  · rfl

theorem parse_unfinished_spec {body : Body} (h : Chunking body) (b : Bytes) (count : Nat) :
    Replies (body.parse_unfinished b) b ((body.decoder count).run b) count := by
  obtain ⟨r, hr, hrep⟩ := parse_chunk_loop_spec b.length h (Nat.le_refl _) 0 count
  unfold parse_unfinished parse parse_by_chunk
  simpa [h.unfinished, h.mode, hr] using hrep

theorem feed_finished {body : Body} (h : body.is_parse_finished = true) (pending : Bytes)
    (segs : List Bytes) : feed parse_unfinished body pending segs = .took 0 body := by
  induction segs generalizing pending with
  | nil => rfl
  | cons seg segs ih => simp [feed, parse_unfinished, h, ih]

/-- The calls on segments that end outside of the digits of a size line do
    what the decoder does on the stream. -/
theorem feed_refines {body : Body} (h : Chunking body) (pending : Bytes) {segs : List Bytes}
    (count : Nat) (hne : segs ≠ [])
    (hcut : ∀ pre post, segs = pre ++ post → pre ≠ [] → post ≠ [] →
      ¬ ((body.decoder count).run (pending ++ pre.flatten)).InDigits) :
    outcome ((feed parse_unfinished body pending segs).after count) =
      ((body.decoder count).run (pending ++ segs.flatten)).outcome := by
  -- each call leaves the body at the state of the decoder, or ends the stream
  induction segs generalizing body pending count with
  | nil => exact absurd rfl hne
  | cons seg segs ih =>
    have hspec := parse_unfinished_spec h (pending ++ seg) count
    rw [List.flatten_cons, ← List.append_assoc, Decoder.run_append]
    unfold feed
    cases hcall : body.parse_unfinished (pending ++ seg) with
    | aborted =>
      rw [hcall] at hspec
      exact hspec.elim
    | failed body' =>
      rw [hcall] at hspec
      obtain ⟨hbad, hdata⟩ := hspec
      rw [Decoder.run_bad hbad]
      simp [Reply.after, outcome, Decoder.outcome, hbad, hdata]
    | took n body' =>
      rw [hcall] at hspec
      obtain ⟨hn, ⟨hfin, hd⟩ | ⟨h', hdata, hrun⟩⟩ := hspec
      · -- finished: the rest of the stream is left alone
        rw [hd, Decoder.run_done rfl]
        simp [feed_finished hfin, Reply.after, outcome, hfin, Decoder.outcome]
      · cases segs with
        | nil =>
          have hphase : ((body.decoder count).run (pending ++ seg)).phase.Waits ∨
              ∃ acc, ((body.decoder count).run (pending ++ seg)).phase = .size acc := by
            rcases hrun with ⟨-, hwaits⟩ | ⟨acc, hacc, -⟩
            · exact Or.inl hwaits
            · exact Or.inr ⟨acc, hacc⟩
          rw [List.flatten_nil, Decoder.run_nil, outcome_waiting hphase]
          simp [feed, Reply.after, outcome, h'.unfinished, hdata]
        | cons seg' segs =>
          have hout := hcut [seg] (seg' :: segs) rfl (List.cons_ne_nil _ _) (List.cons_ne_nil _ _)
          rw [List.flatten_singleton] at hout
          rcases hrun with ⟨hrun, -⟩ | ⟨acc, hacc, hpos, -, -⟩
          · rw [← hrun, ← Decoder.run_append]
            simp only [Reply.after_after]
            apply ih h' _ _ (List.cons_ne_nil _ _)
            intro pre post hsegs hpre hpost hin
            refine hcut (seg :: pre) post (by rw [hsegs]; rfl) (List.cons_ne_nil _ _) hpost ?_
            rw [List.flatten_cons, ← List.append_assoc, Decoder.run_append, ← hrun,
              ← Decoder.run_append]
            exact hin
          · exact absurd ⟨acc, hacc, hpos⟩ hout

/-- A new body in chunk mode. -/
def chunked : Body := construct.set_chunked

theorem chunking_chunked : Chunking chunked :=
  ⟨rfl, rfl, Or.inl rfl, by simp [chunked, construct, set_chunked, wrap32]⟩

/-- The calls on the segments come out as one call on the stream. -/
def SameOutcome (segs : List Bytes) : Prop :=
  outcome (feed parse_unfinished chunked [] segs) =
    outcome (chunked.parse_unfinished segs.flatten)

instance (segs : List Bytes) : Decidable (SameOutcome segs) := inferInstanceAs (Decidable (_ = _))

/-- Some segment before the last ends behind a digit of a size line, with a
    chunk size that is not zero yet. -/
def CutInDigits (segs : List Bytes) : Prop :=
  ∃ pre post, segs = pre ++ post ∧ post ≠ [] ∧
    ((chunked.decoder 0).run pre.flatten).InDigits

theorem outcome_whole {body : Body} (h : Chunking body) (b : Bytes) (count : Nat) :
    outcome ((body.parse_unfinished b).after count) = ((body.decoder count).run b).outcome := by
  have hout := feed_refines h [] count (List.cons_ne_nil b [])
    fun pre post hs hpre hpost _ => by
      match pre, post, hpre, hpost with
      | [p], q :: post, _, _ => simp at hs
      | p :: p' :: pre, post, _, _ => simp at hs
  rwa [feed_single, List.nil_append, List.flatten_singleton] at hout

theorem same_outcome_of_cut {segs : List Bytes} (hne : segs ≠ []) (hcut : ¬ CutInDigits segs) :
    SameOutcome segs := by
  have hsegs := feed_refines chunking_chunked [] 0 hne
    fun pre post hs _ hpost hin => hcut ⟨pre, post, hs, hpost, hin⟩
  have hwhole := outcome_whole chunking_chunked segs.flatten 0
  rw [Reply.after_zero] at hsegs hwhole
  exact hsegs.trans hwhole.symm

/-- Behind such a cut the line end is taken for data. -/
theorem outcome_differs {p : Bytes} (hp : ((chunked.decoder 0).run p).InDigits) :
    ¬ SameOutcome [p, http_crlf] := by
  obtain ⟨acc, hacc, hpos⟩ := hp
  have hspec := parse_unfinished_spec chunking_chunked p 0
  have hwhole := outcome_whole chunking_chunked (p ++ http_crlf) 0
  rw [Reply.after_zero, Decoder.run_append] at hwhole
  obtain ⟨⟨phase, data, count⟩, hd⟩ : ∃ d, (chunked.decoder 0).run p = d := ⟨_, rfl⟩
  rw [hd] at hspec hwhole hacc
  simp only at hacc
  subst hacc
  -- the decoder keeps its data over the line end
  have hkeep : outcome (chunked.parse_unfinished (p ++ http_crlf)) = .waiting data ∨
      outcome (chunked.parse_unfinished (p ++ http_crlf)) = .error data := by
    rw [hwhole]
    by_cases hlong : acc ≥ 1048576
    · right
      simp [http_crlf, Decoder.step, hlong, Decoder.outcome]
    · left
      simp [http_crlf, Decoder.step, hlong, Decoder.outcome, Decoder.entered, hpos]
  unfold SameOutcome
  rw [List.flatten_cons, List.flatten_singleton]
  unfold feed
  rw [List.nil_append]
  cases hcall : chunked.parse_unfinished p with
  | aborted =>
    rw [hcall] at hspec
    exact hspec.elim
  | failed body =>
    rw [hcall] at hspec
    exact absurd hspec.1 (by simp)
  | took n body =>
    rw [hcall] at hspec
    obtain ⟨-, ⟨-, hdone⟩ | ⟨h', hdata, ⟨-, hwaits⟩ | ⟨acc', hacc', -, hsize, hrest⟩⟩⟩ := hspec
    · simp at hdone
    · exact absurd hwaits hpos
    · -- the body is in the middle of a chunk, and takes the line end for data
      simp only [Phase.size.injEq] at hacc' hdata
      subst hacc' hdata
      have hdec : body.decoder n = ⟨.data acc, body.data, n⟩ := by
        simp [decoder, hsize, Decoder.left, hpos, http_crlf_length]
      have hout := outcome_whole h' http_crlf n
      have hdiffer : ∃ c rest, outcome ((body.parse_unfinished http_crlf).after n) =
          .waiting (body.data ++ c :: rest) := by
        rw [hout, hdec]
        by_cases h1 : acc - 1 = 0
        · exact ⟨13, [], by simp [http_crlf, Decoder.step, Decoder.left, h1, Decoder.outcome]⟩
        · exact ⟨13, [10], by
            by_cases h2 : acc - 1 - 1 = 0 <;>
              simp [http_crlf, Decoder.step, Decoder.left, h1, h2, Decoder.outcome]⟩
      obtain ⟨c, rest, hdiffer⟩ := hdiffer
      simp only [hrest, feed_single, List.nil_append, hdiffer]
      rcases hkeep with hkeep | hkeep
      · rw [hkeep]
        simp
      · rw [hkeep]
        simp

/-- **Chunked bodies and segments.** The segments do not matter when none of
    them ends inside the digits of a chunk size; where one does, the rest of
    the stream can show it. -/
theorem chunked_segmentation (segs : List Bytes) :
    (¬ CutInDigits segs → SameOutcome segs) ∧
      (CutInDigits segs → ∃ pre post q, segs = pre ++ post ∧ post ≠ [] ∧
        ¬ SameOutcome [pre.flatten, q]) := by
  constructor
  · intro hcut
    by_cases hne : segs = []
    · subst hne
      rfl
    · exact same_outcome_of_cut hne hcut
  · rintro ⟨pre, post, hsegs, hpost, hin⟩
    exact ⟨pre, post, http_crlf, hsegs, hpost, outcome_differs hin⟩

/-- The chunk `x` with its size line cut behind the digit. -/
theorem not_same_outcome_cut_digit :
    ¬ SameOutcome [ascii "1", ascii "\r\nx\r\n0\r\n\r\n"] := by
  decide

end Body

end Pump
