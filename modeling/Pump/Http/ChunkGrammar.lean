import Pump.Digits
import Pump.Http.Chunked

/-! # The grammar of chunked bodies

    What a chunked encoding is, what `body::__parse_by_chunk` takes for one,
    and what `body::serialize` writes. -/

namespace Pump

/-! ## Section 1: The grammar -/

/-- The bytes that `hex_to_dec` has a value for. -/
def is_hex (c : UInt8) : Bool :=
  (48 ≤ c && c ≤ 57) || (97 ≤ c && c ≤ 102) || (65 ≤ c && c ≤ 70)

/-- The value of a size line. -/
def line_value (line : Bytes) : Nat := line.foldl (fun acc c => acc * 16 + hex_to_dec c) 0

/-- A size line, the data, and the two bytes behind them. -/
structure Chunk where
  line : Bytes
  data : Bytes
  tail : Bytes
  deriving DecidableEq

def Chunk.wire (c : Chunk) : Bytes := c.line ++ http_crlf ++ (c.data ++ c.tail)

/-- Chunks, and the size line of the end. -/
structure Chunks where
  chunks : List Chunk
  last : Bytes
  deriving DecidableEq

namespace Chunks

def wire (e : Chunks) : Bytes :=
  (e.chunks.map Chunk.wire).flatten ++ (e.last ++ http_crlf ++ http_crlf)

def data (e : Chunks) : Bytes := (e.chunks.map Chunk.data).flatten

end Chunks

/-- A chunk of a chunked encoding. -/
structure Chunk.Valid (c : Chunk) : Prop where
  digits : c.line ≠ [] ∧ ∀ x ∈ c.line, is_hex x = true
  size : line_value c.line = c.data.length
  not_empty : c.data ≠ []
  tail : c.tail = http_crlf

/-- A chunked encoding: the end is a line of zeros and an empty line. -/
structure Chunks.Valid (e : Chunks) : Prop where
  chunks : ∀ c ∈ e.chunks, c.Valid
  last : e.last ≠ [] ∧ ∀ x ∈ e.last, x = 48

/-- What the decoder needs of a chunk to get past it, its size limit apart. -/
structure Chunk.Framed (c : Chunk) : Prop where
  line : (13 : UInt8) ∉ c.line
  size : line_value c.line = c.data.length
  not_empty : c.data ≠ []
  tail : c.tail.length = 2

/-- What the decoder takes for a chunked encoding, the limit apart. -/
structure Chunks.Framed (e : Chunks) : Prop where
  chunks : ∀ c ∈ e.chunks, c.Framed
  last : (13 : UInt8) ∉ e.last ∧ line_value e.last = 0

/-- No chunk reaches the limit of the decoder. -/
def Chunks.Small (e : Chunks) : Prop := ∀ c ∈ e.chunks, c.data.length < 1048576

/-- The size lines are made of digits, and a `\r\n` is behind each chunk. -/
structure Chunks.Proper (e : Chunks) : Prop where
  lines : ∀ c ∈ e.chunks, ∀ x ∈ c.line, is_hex x = true
  tails : ∀ c ∈ e.chunks, c.tail = http_crlf
  last : e.last ≠ [] ∧ ∀ x ∈ e.last, is_hex x = true

theorem hex_to_dec_eq_zero {c : UInt8} (hc : is_hex c = true) (h0 : hex_to_dec c = 0) : c = 48 := by
  have h48 : (48 : UInt8).toNat = 48 := rfl
  unfold hex_to_dec at h0
  split at h0
  · next h =>
    have hle := UInt8.le_iff_toNat_le.mp h.1
    apply UInt8.toNat_inj.mp
    omega
  · split at h0
    · omega
    · split at h0
      · omega
      · next h₁ h₂ h₃ =>
        -- no digit at all
        simp only [is_hex, Bool.or_eq_true, Bool.and_eq_true, decide_eq_true_eq] at hc
        rcases hc with (hc | hc) | hc
        · exact absurd hc h₁
        · exact absurd hc h₂
        · exact absurd hc h₃

theorem line_value_append (line : Bytes) (c : UInt8) :
    line_value (line ++ [c]) = line_value line * 16 + hex_to_dec c := by
  unfold line_value
  rw [List.foldl_append]
  rfl

/-- Digits that make zero are zeros. -/
theorem zeros_of_value {line : Bytes} (hhex : ∀ x ∈ line, is_hex x = true)
    (h0 : line_value line = 0) : ∀ x ∈ line, x = 48 := by
  induction line using List.reverseRecOn with
  | nil =>
    intro x hx
    cases hx
  | append_singleton line c ih =>
    rw [line_value_append] at h0
    intro x hx
    rcases List.mem_append.mp hx with hx | hx
    · exact ih (fun y hy => hhex y (List.mem_append_left _ hy)) (by omega) x hx
    · rw [List.mem_singleton.mp hx]
      exact hex_to_dec_eq_zero (hhex c (by simp)) (by omega)

theorem value_of_zeros {line : Bytes} (h : ∀ x ∈ line, x = 48) : line_value line = 0 := by
  induction line using List.reverseRecOn with
  | nil => rfl
  | append_singleton line c ih =>
    rw [line_value_append, ih fun x hx => h x (List.mem_append_left _ hx), h c (by simp)]
    rfl

theorem cr_not_hex {line : Bytes} (h : ∀ x ∈ line, is_hex x = true) : (13 : UInt8) ∉ line := by
  intro hmem
  have h13 := h 13 hmem
  revert h13
  decide

namespace Chunks

theorem Valid.framed {e : Chunks} (h : e.Valid) : e.Framed := by
  refine ⟨?_, ?_, value_of_zeros h.last.2⟩
  · intro c hc
    obtain ⟨⟨-, hhex⟩, hsize, hne, htail⟩ := h.chunks c hc
    exact ⟨cr_not_hex hhex, hsize, hne, by rw [htail]; rfl⟩
  · intro hmem
    have h13 := h.last.2 13 hmem
    revert h13
    decide

theorem Valid.proper {e : Chunks} (h : e.Valid) : e.Proper := by
  refine ⟨fun c hc => (h.chunks c hc).digits.2, fun c hc => (h.chunks c hc).tail, h.last.1, ?_⟩
  intro x hx
  rw [h.last.2 x hx]
  rfl

/-- The encodings are those that the decoder takes and that are proper. -/
theorem Framed.valid {e : Chunks} (h : e.Framed) (hproper : e.Proper) : e.Valid := by
  refine ⟨?_, hproper.last.1, zeros_of_value hproper.last.2 h.last.2⟩
  intro c hc
  obtain ⟨-, hsize, hne, -⟩ := h.chunks c hc
  refine ⟨⟨?_, hproper.lines c hc⟩, hsize, hne, hproper.tails c hc⟩
  intro hnil
  rw [hnil] at hsize
  exact hne (List.eq_nil_of_length_eq_zero hsize.symm)

end Chunks

/-! ## Section 2: Bytes are framed in one way -/

/-- A line ends at its first `\r`. -/
theorem line_unique {line line' rest rest' : Bytes} (h : (13 : UInt8) ∉ line)
    (h' : (13 : UInt8) ∉ line') (heq : line ++ (http_crlf ++ rest) = line' ++ (http_crlf ++ rest')) :
    line = line' ∧ rest = rest' := by
  have htake : ∀ {l r : Bytes}, (13 : UInt8) ∉ l →
      (l ++ (http_crlf ++ r)).takeWhile (· ≠ 13) = l := by
    intro l r hl
    have hall : ∀ c ∈ l, decide (c ≠ 13) = true := by
      intro c hc
      have : c ≠ 13 := fun h13 => hl (h13 ▸ hc)
      simpa using this
    rw [List.takeWhile_append_of_pos hall]
    simp [http_crlf]
  have hline : line = line' := by
    rw [← htake h (r := rest), heq, htake h']
  subst hline
  exact ⟨rfl, List.append_cancel_left (List.append_cancel_left heq)⟩

theorem Chunk.wire_unique {c c' : Chunk} {rest rest' : Bytes} (h : c.Framed) (h' : c'.Framed)
    (heq : c.wire ++ rest = c'.wire ++ rest') : c = c' ∧ rest = rest' := by
  simp only [wire, List.append_assoc] at heq
  obtain ⟨hline, heq⟩ := line_unique h.line h'.line heq
  have hsize : c.data.length = c'.data.length := by rw [← h.size, ← h'.size, hline]
  obtain ⟨hdata, heq⟩ := List.append_inj heq hsize
  obtain ⟨htail, hrest⟩ := List.append_inj heq (by rw [h.tail, h'.tail])
  obtain ⟨line, data, tail⟩ := c
  obtain ⟨line', data', tail'⟩ := c'
  simp only at hline hdata htail
  exact ⟨by rw [hline, hdata, htail], hrest⟩

namespace Chunks

theorem wire_cons (c : Chunk) (chunks : List Chunk) (last : Bytes) :
    (Chunks.mk (c :: chunks) last).wire = c.wire ++ (Chunks.mk chunks last).wire := by
  unfold wire
  rw [List.map_cons, List.flatten_cons, List.append_assoc]

/-- The first line of a chunk is not that of the end. -/
theorem last_ne_chunk {c : Chunk} {last rest rest' : Bytes} (hc : c.Framed)
    (hlast : (13 : UInt8) ∉ last ∧ line_value last = 0)
    (heq : c.wire ++ rest = (Chunks.mk [] last).wire ++ rest') : False := by
  simp only [Chunk.wire, wire, List.map_nil, List.flatten_nil, List.nil_append,
    List.append_assoc] at heq
  obtain ⟨hline, -⟩ := line_unique hc.line hlast.1 heq
  have hsize := hc.size
  rw [hline, hlast.2] at hsize
  exact hc.not_empty (List.eq_nil_of_length_eq_zero hsize.symm)

/-- **Framing is unique.** -/
theorem wire_unique {e e' : Chunks} {rest rest' : Bytes} (h : e.Framed) (h' : e'.Framed)
    (heq : e.wire ++ rest = e'.wire ++ rest') : e = e' := by
  obtain ⟨chunks, last⟩ := e
  obtain ⟨chunks', last'⟩ := e'
  induction chunks generalizing chunks' with
  | nil =>
    rcases chunks' with _ | ⟨c', chunks'⟩
    · simp only [wire, List.map_nil, List.flatten_nil, List.nil_append, List.append_assoc] at heq
      obtain ⟨rfl, -⟩ := line_unique h.last.1 h'.last.1 heq
      rfl
    · rw [wire_cons, List.append_assoc] at heq
      exact (last_ne_chunk (h'.chunks c' List.mem_cons_self) h.last heq.symm).elim
  | cons c chunks ih =>
    rcases chunks' with _ | ⟨c', chunks'⟩
    · rw [wire_cons, List.append_assoc] at heq
      exact (last_ne_chunk (h.chunks c List.mem_cons_self) h'.last heq).elim
    · rw [wire_cons, wire_cons, List.append_assoc, List.append_assoc] at heq
      obtain ⟨rfl, hwire⟩ := Chunk.wire_unique (h.chunks c List.mem_cons_self)
        (h'.chunks c' List.mem_cons_self) heq
      have hrest := ih ⟨fun d hd => h.chunks d (List.mem_cons_of_mem c hd), h.last⟩ chunks'
        ⟨fun d hd => h'.chunks d (List.mem_cons_of_mem c hd), h'.last⟩ hwire
      cases hrest
      rfl

end Chunks

/-! ## Section 3: What the decoder takes -/

namespace Decoder

/-- The value of a size line behind the value `acc` of its first digits. -/
def value_from (acc : Nat) (line : Bytes) : Nat :=
  line.foldl (fun acc c => acc * 16 + hex_to_dec c) acc

theorem le_value_from (acc : Nat) (line : Bytes) : acc ≤ value_from acc line := by
  induction line generalizing acc with
  | nil => exact Nat.le_refl acc
  | cons c line ih =>
    have hle := ih (acc * 16 + hex_to_dec c)
    show acc ≤ value_from (acc * 16 + hex_to_dec c) line
    omega

theorem run_line {acc : Nat} {D line : Bytes} {count : Nat} (hline : (13 : UInt8) ∉ line)
    (hsmall : value_from acc line < 1048576) (rest : Bytes) :
    (Decoder.mk (.size acc) D count).run (line ++ (http_crlf ++ rest)) =
      (Decoder.mk (entered (value_from acc line)) D (count + line.length + 2)).run rest := by
  induction line generalizing acc count with
  | nil =>
    have hacc : acc < 1048576 := hsmall
    show (Decoder.mk (.size acc) D count).run (13 :: 10 :: rest) = _
    have h₁ : (Decoder.mk (.size acc) D count).step 13 = ⟨.size_lf acc, D, count + 1⟩ := by
      simp [step, hacc]
    have h₂ : (Decoder.mk (.size_lf acc) D (count + 1)).step 10 =
        ⟨entered acc, D, count + 2⟩ := by
      simp [step]
    rw [run_cons, h₁, run_cons, h₂]
    rfl
  | cons c line ih =>
    have hc : c ≠ 13 := fun h13 => hline (h13 ▸ List.mem_cons_self)
    have hle := le_value_from (acc * 16 + hex_to_dec c) line
    have hv : value_from (acc * 16 + hex_to_dec c) line < 1048576 := hsmall
    have hstep : (Decoder.mk (.size acc) D count).step c =
        ⟨.size (acc * 16 + hex_to_dec c), D, count + 1⟩ := by
      simp [step, hc, show acc < 1048576 by omega]
    rw [List.cons_append, run_cons, hstep, ih (fun hmem => hline (List.mem_cons_of_mem c hmem)) hv,
      List.length_cons, show count + 1 + line.length + 2 = count + (line.length + 1) + 2 by omega]
    rfl

theorem run_chunk {c : Chunk} (h : c.Framed) (hsmall : c.data.length < 1048576) (D : Bytes)
    (count : Nat) (rest : Bytes) :
    (Decoder.mk (.size 0) D count).run (c.wire ++ rest) =
      (Decoder.mk (.size 0) (D ++ c.data) (count + c.wire.length)).run rest := by
  have hvalue : value_from 0 c.line = c.data.length := h.size
  have hpos : c.data.length ≠ 0 := fun h0 => h.not_empty (List.eq_nil_of_length_eq_zero h0)
  have hentered : entered c.data.length = left c.data.length := by
    unfold entered left
    rw [if_neg hpos, if_neg hpos]
  unfold Chunk.wire
  simp only [List.append_assoc]
  rw [run_line h.line (by rw [hvalue]; exact hsmall), hvalue, hentered, run_append,
    run_data (Nat.le_refl _), Nat.sub_self, run_append]
  show ((Decoder.mk (.skip 2) _ _).run c.tail).run rest = _
  rw [Body.run_skip h.tail]
  congr 2
  simp only [List.length_append, h.tail]
  show _ = count + (c.line.length + (2 + (c.data.length + 2)))
  omega

/-- The decoder takes what is framed, if no chunk is too large. -/
theorem run_chunks {e : Chunks} (h : e.Framed) (hsmall : e.Small) (D : Bytes) (count : Nat)
    (rest : Bytes) :
    (Decoder.mk (.size 0) D count).run (e.wire ++ rest) =
      ⟨.done, D ++ e.data, count + e.wire.length⟩ := by
  obtain ⟨chunks, last⟩ := e
  induction chunks generalizing D count with
  | nil =>
    have hvalue : value_from 0 last = 0 := h.last.2
    simp only [Chunks.wire, Chunks.data, List.map_nil, List.flatten_nil, List.nil_append,
      List.append_nil, List.append_assoc]
    rw [run_line h.last.1 (by rw [hvalue]; omega), hvalue]
    show (Decoder.mk .last D _).run (13 :: 10 :: rest) = _
    have h₁ : (Decoder.mk .last D (count + last.length + 2)).step 13 =
        ⟨.last_lf true, D, count + last.length + 3⟩ := by
      simp [step]
    have h₂ : (Decoder.mk (.last_lf true) D (count + last.length + 3)).step 10 =
        ⟨.done, D, count + last.length + 4⟩ := by
      simp [step]
    rw [run_cons, h₁, run_cons, h₂, run_done rfl]
    simp only [List.length_append, Decoder.mk.injEq, true_and]
    show _ = count + (last.length + (2 + 2))
    omega
  | cons c chunks ih =>
    rw [Chunks.wire_cons, List.append_assoc, run_chunk (h.chunks c List.mem_cons_self)
      (hsmall c List.mem_cons_self), ih _ _ ⟨fun d hd => h.chunks d (List.mem_cons_of_mem c hd), h.last⟩
      fun d hd => hsmall d (List.mem_cons_of_mem c hd)]
    simp [Chunks.data, Nat.add_assoc]

/-- A run that is done has read a size line. -/
theorem line_of_run {acc : Nat} {D b : Bytes} {count : Nat}
    (h : ((Decoder.mk (.size acc) D count).run b).phase = .done) :
    ∃ line rest, b = line ++ (http_crlf ++ rest) ∧ (13 : UInt8) ∉ line ∧
      value_from acc line < 1048576 := by
  induction b generalizing acc count with
  | nil => cases h
  | cons c b ih =>
    by_cases hacc : acc ≥ 1048576
    · have hstep : (Decoder.mk (.size acc) D count).step c = ⟨.bad, D, count⟩ := by
        simp [step, hacc]
      rw [run_cons, hstep, run_bad rfl] at h
      cases h
    · by_cases hc : c = 13
      · have hstep : (Decoder.mk (.size acc) D count).step c = ⟨.size_lf acc, D, count + 1⟩ := by
          simp [step, hacc, hc]
        rw [run_cons, hstep] at h
        cases b with
        | nil => cases h
        | cons d b =>
          by_cases hd : d = 10
          · refine ⟨[], b, ?_, List.not_mem_nil, ?_⟩
            · rw [hc, hd]
              rfl
            · show acc < 1048576
              omega
          · have hstep' : (Decoder.mk (.size_lf acc) D (count + 1)).step d =
                ⟨.bad, D, count + 1⟩ := by
              simp [step, hd]
            rw [run_cons, hstep', run_bad rfl] at h
            cases h
      · have hstep : (Decoder.mk (.size acc) D count).step c =
            ⟨.size (acc * 16 + hex_to_dec c), D, count + 1⟩ := by
          simp [step, hacc, hc]
        rw [run_cons, hstep] at h
        obtain ⟨line, rest, rfl, hline, hsmall⟩ := ih h
        refine ⟨c :: line, rest, rfl, ?_, hsmall⟩
        intro hmem
        rcases List.mem_cons.mp hmem with h13 | hmem
        · exact hc h13.symm
        · exact hline hmem

/-- **Soundness.** A run that is done has read framed chunks. -/
theorem chunks_of_run {D b : Bytes} {count : Nat}
    (h : ((Decoder.mk (.size 0) D count).run b).phase = .done) :
    ∃ e rest, Chunks.Framed e ∧ e.Small ∧ b = e.wire ++ rest := by
  -- on the length: what is behind a chunk is shorter
  induction hlen : b.length using Nat.strong_induction_on generalizing D b count with
  | _ m ih =>
    obtain ⟨line, rest, rfl, hline, hsmall⟩ := line_of_run h
    rw [run_line hline hsmall] at h
    by_cases hv : value_from 0 line = 0
    · -- the end
      rw [hv] at h
      have hcrlf : ∃ rest', rest = http_crlf ++ rest' := by
        rcases rest with _ | ⟨c, _ | ⟨d, rest'⟩⟩
        · cases h
        · cases h
        · by_cases hcd : c = 13 ∧ d = 10
          · exact ⟨rest', by rw [hcd.1, hcd.2]; rfl⟩
          · exfalso
            rw [run_cons, run_cons, show ((Decoder.mk (entered 0) D (count + line.length + 2)).step
              c).step d = ⟨.bad, D, count + line.length + 3⟩ by
                simp [step, entered, hcd], run_bad rfl] at h
            cases h
      obtain ⟨rest', rfl⟩ := hcrlf
      refine ⟨⟨[], line⟩, rest', ⟨by simp, hline, hv⟩, by simp [Chunks.Small], ?_⟩
      simp [Chunks.wire, List.append_assoc]
    · -- a chunk, and what is behind it
      have hentered : entered (value_from 0 line) = left (value_from 0 line) := by
        unfold entered left
        rw [if_neg hv, if_neg hv]
      rw [hentered] at h
      obtain ⟨v, hvalue⟩ : ∃ v, v = value_from 0 line := ⟨_, rfl⟩
      rw [← hvalue] at h hv hsmall
      have hlong : v ≤ rest.length := by
        by_contra hshort
        rw [run_data (by omega)] at h
        unfold left at h
        rw [if_neg (by omega)] at h
        cases h
      have htake : (rest.take v).length = v := by
        rw [List.length_take, Nat.min_eq_left hlong]
      rw [← List.take_append_drop v rest, run_append, run_data (by rw [htake]), htake,
        Nat.sub_self] at h
      have htail : ∃ c d rest', rest.drop v = c :: d :: rest' := by
        rcases hdrop : rest.drop v with _ | ⟨c, _ | ⟨d, rest'⟩⟩
        · rw [hdrop] at h
          cases h
        · rw [hdrop] at h
          cases h
        · exact ⟨c, d, rest', rfl⟩
      obtain ⟨c, d, rest', hdrop⟩ := htail
      rw [hdrop, show c :: d :: rest' = [c, d] ++ rest' from rfl, run_append] at h
      have hskip := @Body.run_skip (D ++ rest.take v) [c, d] (count + line.length + 2 + v) rfl
      unfold left at h
      rw [if_pos rfl, hskip] at h
      have hrest : rest = rest.take v ++ ([c, d] ++ rest') := by
        rw [show [c, d] ++ rest' = rest.drop v from hdrop.symm, List.take_append_drop]
      have hlt : rest'.length < m := by
        have hl := congrArg List.length hrest
        rw [List.length_append, htake, List.length_append] at hl
        rw [← hlen, List.length_append, List.length_append]
        simp only [List.length_cons, List.length_nil] at hl
        omega
      obtain ⟨⟨chunks, last⟩, rest'', hframed, hbound, hwire⟩ := ih rest'.length hlt h rfl
      refine ⟨⟨⟨line, rest.take v, [c, d]⟩ :: chunks, last⟩, rest'', ⟨?_, hframed.last⟩, ?_, ?_⟩
      · intro x hx
        rcases List.mem_cons.mp hx with rfl | hx
        · refine ⟨hline, ?_, ?_, rfl⟩
          · show value_from 0 line = (rest.take v).length
            rw [htake, hvalue]
          · intro hnil
            rw [show rest.take v = [] from hnil] at htake
            exact hv htake.symm
        · exact hframed.chunks x hx
      · intro x hx
        rcases List.mem_cons.mp hx with rfl | hx
        · show (rest.take v).length < 1048576
          rw [htake]
          exact hsmall
        · exact hbound x hx
      · rw [Chunks.wire_cons, List.append_assoc, ← hwire]
        unfold Chunk.wire
        simp only [List.append_assoc]
        rw [← hrest]

end Decoder

/-! ## Section 4: What a new body accepts -/

namespace Body

/-- A new body finishes on exactly the framed chunks. -/
theorem parse_finished_iff {b data : Bytes} {n : Nat} :
    (∃ body, chunked.parse b = .took n body ∧ body.is_parse_finished = true ∧ body.data = data) ↔
      ∃ e rest, Chunks.Framed e ∧ e.Small ∧ b = e.wire ++ rest ∧ n = e.wire.length ∧
        data = e.data := by
  have hout := outcome_whole chunking_chunked b 0
  have hcall : chunked.parse_unfinished b = chunked.parse b := rfl
  have hstart : chunked.decoder 0 = ⟨.size 0, [], 0⟩ := rfl
  rw [Reply.after_zero, hcall, hstart] at hout
  constructor
  · rintro ⟨body, hparse, hfin, rfl⟩
    rw [hparse] at hout
    simp only [outcome, hfin, if_true] at hout
    have hdone : ((Decoder.mk (.size 0) [] 0).run b).phase = .done := by
      unfold Decoder.outcome at hout
      split at hout
      · cases hout
      · next hd => exact hd
      · cases hout
    obtain ⟨e, rest, hframed, hsmall, rfl⟩ := Decoder.chunks_of_run hdone
    rw [Decoder.run_chunks hframed hsmall] at hout
    simp only [Decoder.outcome, List.nil_append, Nat.zero_add] at hout
    injection hout with hdata hn
    exact ⟨e, rest, hframed, hsmall, rfl, hn, hdata⟩
  · rintro ⟨e, rest, hframed, hsmall, rfl, rfl, rfl⟩
    rw [Decoder.run_chunks hframed hsmall] at hout
    simp only [Decoder.outcome, List.nil_append, Nat.zero_add] at hout
    rcases hparse : chunked.parse (e.wire ++ rest) with _ | body | ⟨m, body⟩
    · rw [hparse] at hout
      cases hout
    · rw [hparse] at hout
      cases hout
    · rw [hparse] at hout
      simp only [outcome] at hout
      split at hout
      · next hfin =>
        injection hout with hdata hm
        exact ⟨body, by rw [hm], hfin, hdata⟩
      · cases hout

/-- If a new body finishes on `b`, the bytes it takes are a chunked encoding
    of its data. -/
def AcceptsOnlyChunked (b : Bytes) : Prop :=
  ∀ n body, chunked.parse b = .took n body → body.is_parse_finished = true →
    ∃ e, Chunks.Valid e ∧ b.take n = e.wire ∧ body.data = e.data

/-- Framed chunks that are not proper are accepted all the same. -/
theorem proper_of_accepts {e : Chunks} {rest : Bytes} (hframed : e.Framed) (hsmall : e.Small)
    (h : AcceptsOnlyChunked (e.wire ++ rest)) : e.Proper := by
  obtain ⟨body, hparse, hfin, -⟩ :=
    parse_finished_iff.mpr ⟨e, rest, hframed, hsmall, rfl, rfl, rfl⟩
  obtain ⟨e', hvalid, htake, -⟩ := h _ body hparse hfin
  rw [List.take_left] at htake
  have hsame : e = e' :=
    Chunks.wire_unique hframed hvalid.framed (show e.wire ++ [] = e'.wire ++ [] by rw [htake])
  rw [hsame]
  exact hvalid.proper

/-- **Only chunked encodings.** The two bytes behind a chunk are skipped, and
    a byte that is no digit counts as a zero; nothing else is wrong with what
    the decoder accepts. -/
theorem accepts_only_chunked_iff (b : Bytes) :
    AcceptsOnlyChunked b ↔
      ∀ e rest, Chunks.Framed e → e.Small → b = e.wire ++ rest → e.Proper := by
  constructor
  · intro h e rest hframed hsmall hb
    rw [hb] at h
    exact proper_of_accepts hframed hsmall h
  · intro h n body hparse hfin
    obtain ⟨e, rest, hframed, hsmall, hb, hn, hdata⟩ :=
      parse_finished_iff.mp ⟨body, hparse, hfin, rfl⟩
    refine ⟨e, hframed.valid (h e rest hframed hsmall hb), ?_, hdata⟩
    rw [hb, hn, List.take_left]

/-- The chunk `x` with two bytes `yz` behind it. -/
def unterminated : Chunks := ⟨[⟨ascii "1", ascii "x", ascii "yz"⟩], ascii "0"⟩

/-- The bytes `1`, `\r\n`, `x`, `yz`, `0`, `\r\n`, `\r\n`. -/
theorem not_accepts_only_chunked : ¬ AcceptsOnlyChunked unterminated.wire := by
  intro h
  have hframed : unterminated.Framed := by
    refine ⟨?_, by decide⟩
    intro c hc
    rw [List.mem_singleton.mp hc]
    exact ⟨by decide, by decide, by decide, rfl⟩
  have hsmall : ∀ c ∈ unterminated.chunks, c.data.length < 1048576 := by decide
  rw [← List.append_nil unterminated.wire] at h
  have hproper := proper_of_accepts hframed hsmall h
  have htail := hproper.tails _ List.mem_cons_self
  revert htail
  decide

/-! ## Section 5: What a body writes -/

/-- A body in chunk mode that holds `d`. -/
def holding (d : Bytes) : Body := { chunked with data := d }

/-- What the body writes is parsed whole, to the same data. -/
def ChunkRoundTrips (d : Bytes) : Prop :=
  ∃ body, chunked.parse (holding d).serialize.1 = .took (holding d).serialize.1.length body ∧
    body.is_parse_finished = true ∧ body.data = d

theorem hex_digit {d : Nat} (hd : d < 16) : hex_to_dec (digit d) = d ∧ digit d ≠ 13 := by
  revert d
  decide

theorem line_value_format_hex (n : Nat) : line_value (format_hex n) = n :=
  foldl_digits (by omega) (fun _ hd => (hex_digit hd).1) n

theorem cr_not_in_format_hex (n : Nat) : (13 : UInt8) ∉ format_hex n := by
  intro hmem
  obtain ⟨d, hd, h13⟩ := mem_digits (by omega) hmem
  exact (hex_digit hd).2 h13.symm

/-- The body writes its size line and its data, and no end. -/
theorem serialize_holding {d : Bytes} (hlen : d.length < 2 ^ 31) :
    (holding d).serialize.1 = format_hex d.length ++ (http_crlf ++ (d ++ http_crlf)) := by
  have hdigits := format_hex_length hlen
  show ((format_hex d.length ++ http_crlf).take 62 ++ d ++ http_crlf) = _
  rw [List.take_of_length_le (by rw [List.length_append]; show _ + 2 ≤ 62; omega)]
  simp only [List.append_assoc]

theorem nil_of_round_trip {d : Bytes} (hlen : d.length < 2 ^ 31) (h : ChunkRoundTrips d) :
    d = [] := by
  obtain ⟨body, hparse, hfin, -⟩ := h
  obtain ⟨e, rest, hframed, -, hwire, hn, -⟩ := parse_finished_iff.mp ⟨body, hparse, hfin, rfl⟩
  -- the chunks take all the bytes
  have hrest : rest = [] := by
    have hl := congrArg List.length hwire
    rw [List.length_append, hn] at hl
    exact List.eq_nil_of_length_eq_zero (by omega)
  rw [hrest, List.append_nil, serialize_holding hlen] at hwire
  by_contra hne
  have hown : (Chunk.mk (format_hex d.length) d http_crlf).Framed :=
    ⟨cr_not_in_format_hex _, line_value_format_hex _, hne, rfl⟩
  have hbytes : (Chunk.mk (format_hex d.length) d http_crlf).wire ++ [] = e.wire ++ [] := by
    rw [List.append_nil, List.append_nil, ← hwire]
    simp only [Chunk.wire, List.append_assoc]
  obtain ⟨chunks, last⟩ := e
  rcases chunks with _ | ⟨c, chunks⟩
  · exact Chunks.last_ne_chunk hown hframed.last hbytes
  · -- the end would have to come behind the only chunk
    rw [Chunks.wire_cons, List.append_assoc] at hbytes
    obtain ⟨-, hnil⟩ := Chunk.wire_unique hown (hframed.chunks c List.mem_cons_self) hbytes
    have hl := congrArg List.length hnil
    simp only [Chunks.wire, List.length_append, List.length_nil] at hl
    have h2 : http_crlf.length = 2 := rfl
    omega

/-- **Chunked round trip.** What is written has no end, so only the empty
    body comes back. -/
theorem chunk_round_trips_iff {d : Bytes} (hlen : d.length < 2 ^ 31) :
    ChunkRoundTrips d ↔ d = [] := by
  constructor
  · exact nil_of_round_trip hlen
  · rintro rfl
    exact ⟨{ chunked with is_parse_finished := true }, by decide, rfl, rfl⟩

theorem chunk_round_trips_one_byte : ChunkRoundTrips [0x78] ↔ ([0x78] : Bytes) = [] :=
  chunk_round_trips_iff (by decide)

theorem not_chunk_round_trips_one_byte : ¬ ChunkRoundTrips [0x78] := by
  intro h
  cases nil_of_round_trip (by decide) h

end Body

end Pump
