import Pump.Sized
import Pump.Http.ResponseRoundTrip

/-! # The size of what is serialized

    `serialize` of a message adds up the sizes that the formatters report.
    The lines go through buffers of fixed sizes, and a line that does not
    fit loses its end. -/

namespace Pump

open Sized

/-! ## Section 1: The lines -/

theorem snprintf_whole {n : Nat} {s : Bytes} (h : s.length ≤ n - 1) : (snprintf n s).1 = s :=
  truncate_eq h

namespace Header

/-- The text of a header line. -/
def whole_line (name : Bytes) (values : List Bytes) : Bytes :=
  c_str name ++ ascii ": " ++ c_str (join_strings values head_value_sep) ++ http_crlf

/-- The lines that `__serialize_header` appends. -/
def lines (h : Header) : List (Bytes × Nat) :=
  (h.headers.toList.filter fun e => e.2 ≠ []).map fun e => header_line e.1 e.2

/-- Every line has room in `header_line`. -/
def LinesFit (h : Header) : Prop :=
  ∀ e ∈ h.headers.toList, e.2 ≠ [] → (whole_line e.1 e.2).length ≤ 2047

theorem mem_lines {h : Header} {line : Bytes × Nat} :
    line ∈ h.lines ↔ ∃ e ∈ h.headers.toList, e.2 ≠ [] ∧ line = header_line e.1 e.2 := by
  unfold lines
  simp only [List.mem_map, List.mem_filter, decide_eq_true_eq]
  constructor
  · rintro ⟨e, ⟨he, hne⟩, rfl⟩
    exact ⟨e, he, hne, rfl⟩
  · rintro ⟨e, he, hne, rfl⟩
    exact ⟨e, ⟨he, hne⟩, rfl⟩

/-- A line that fits keeps its end. -/
theorem LinesFit.ends {h : Header} (hfit : h.LinesFit) : ∀ line ∈ h.lines, http_crlf <:+ line.1 := by
  intro line hline
  obtain ⟨e, he, hne, rfl⟩ := mem_lines.mp hline
  have hwhole : (header_line e.1 e.2).1 = whole_line e.1 e.2 := snprintf_whole (hfit e he hne)
  rw [hwhole]
  exact List.suffix_append _ _

end Header

namespace Body

end Body

/-! ## Section 2: Messages -/

/-- The text of a request line. -/
def Request.whole_line (r : Request) : Bytes :=
  c_str r.fields.method.string ++ ascii " " ++ c_str r.fields.uri.path ++ ascii " " ++
    c_str r.version.string ++ http_crlf

/-- The text of a response line. -/
def Response.whole_line (r : Response) : Bytes :=
  c_str r.version.string ++ ascii " " ++ format_dec r.fields.status_code ++ ascii " " ++
    c_str (Response.get_http_code_desc r.fields.status_code) ++ http_crlf

/-- The line of a response with a code in the range of an `int32_t` is never
    cut. -/
theorem Response.whole_line_fits (r : Response)
    (h : -2 ^ 31 ≤ r.fields.status_code ∧ r.fields.status_code < 2 ^ 31) :
    r.whole_line.length ≤ 126 := by
  have hc : ∀ s : Bytes, (c_str s).length ≤ s.length := fun s => (List.takeWhile_prefix _).length_le
  -- 8 + 1 + 11 + 1 + the longest description + 2
  have hversion : r.version.string.length ≤ 8 := by
    cases r.version with
    | VERSION_UNKNOWN => decide
    | _ => exact Nat.le_refl 8
  have hcode : (format_dec r.fields.status_code).length ≤ 11 := by
    unfold format_dec
    split
    · have := @digits_length_le 10 r.fields.status_code.natAbs 10 (by omega) (by omega) (by omega)
      rw [List.length_cons]
      omega
    · have := @digits_length_le 10 r.fields.status_code.toNat 10 (by omega) (by omega) (by omega)
      omega
  have hdesc := (Response.code_desc_printable r.fields.status_code).1
  have hcversion := hc r.version.string
  have hcdesc := hc (Response.get_http_code_desc r.fields.status_code)
  have hsp : (ascii " ").length = 1 := rfl
  have hcrlf : http_crlf.length = 2 := rfl
  unfold whole_line
  simp only [List.length_append]
  omega

/-- A message of either kind. -/
inductive Message where
  | request (r : Request)
  | response (r : Response)

namespace Message

def serialize : Message → Bytes × Nat
  | request r => r.serialize
  | response r => r.serialize

/-- The start line with its size. -/
def start_line : Message → Bytes × Nat
  | request r => r.serialize_request_line
  | response r => r.serialize_response_line

def header : Message → Header
  | request r => r.header
  | response r => r.header

def body : Message → Option Body
  | request r => r.body
  | response r => r.body

/-- The start line has room in its buffer. -/
def StartLineFits : Message → Prop
  | request r => r.whole_line.length ≤ 254
  | response r => r.whole_line.length ≤ 126

theorem StartLineFits.ends {m : Message} (h : m.StartLineFits) : http_crlf <:+ m.start_line.1 := by
  cases m with
  | request r =>
    have hwhole : r.serialize_request_line.1 = r.whole_line := snprintf_whole h
    show http_crlf <:+ r.serialize_request_line.1
    rw [hwhole]
    exact List.suffix_append _ _
  | response r =>
    have hwhole : r.serialize_response_line.1 = r.whole_line := snprintf_whole h
    show http_crlf <:+ r.serialize_response_line.1
    rw [hwhole]
    exact List.suffix_append _ _

end Message

end Pump
