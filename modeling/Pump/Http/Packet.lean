import Pump.Http.Body
import Pump.Http.Header

/-! # packet

    What `request` and `response` share: the state of a message and the
    three stages of its `parse`. The two classes differ in the start line
    and in what they do when the header is complete; a `Kind` holds both.

    Creating a body object succeeds here. -/

namespace Pump

/-! ## Section 1: Model -/

inductive HttpVersion where
  | VERSION_UNKNOWN
  | VERSION_10
  | VERSION_11
  | VERSION_20
  deriving DecidableEq, Repr

inductive ParseStatus where
  | PARSE_NONE
  | PARSE_LINE
  | PARSE_HEADER
  | PARSE_BODY
  | PARSE_FINISHED
  | PARSE_FAILED
  deriving DecidableEq, Repr

open HttpVersion ParseStatus

/-- `packet::get_http_version_string`. -/
def HttpVersion.string : HttpVersion → Bytes
  | VERSION_10 => ascii "HTTP/1.0"
  | VERSION_11 => ascii "HTTP/1.1"
  | VERSION_20 => ascii "HTTP/2.0"
  | VERSION_UNKNOWN => []

/-- The comparisons of the start line parsers with the version strings. The
    line ends with `\r\n`, so a shorter rest differs before its end. -/
def parse_http_version (pos : Bytes) : Option HttpVersion :=
  if (ascii "HTTP/1.0").isPrefixOf pos then some VERSION_10
  else if (ascii "HTTP/1.1").isPrefixOf pos then some VERSION_11
  else if (ascii "HTTP/2.0").isPrefixOf pos then some VERSION_20
  else none

/-- `http::packet` with the members `fields` of its subclass. -/
structure Packet (α : Type) where
  fields : α
  version : HttpVersion
  header : Header
  body : Option Body
  parse_status : ParseStatus
  deriving DecidableEq

/-- What a subclass adds: `__parse_start_line` on the bytes of a line, with
    the success flag, and what `parse` does with the complete header. -/
structure Kind (α : Type) where
  parse_line : α → HttpVersion → Bytes → Bool × α × HttpVersion
  header_done : α → Header → α

namespace Packet

variable {α : Type} (K : Kind α)

/-- The constructor. -/
def construct (fields : α) : Packet α :=
  ⟨fields, VERSION_UNKNOWN, Header.construct, none, PARSE_NONE⟩

/-- `__parse_start_line`. -/
def parse_start_line (p : Packet α) (b : Bytes) : Reply (Packet α) :=
  match find_http_line_end b with
  | none => .took 0 p
  | some n =>
    let r := K.parse_line p.fields p.version (b.take n)
    let p := { p with fields := r.2.1, version := r.2.2 }
    if r.1 then .took n p else .failed p

/-- The body that a complete header announces. -/
def announced_body (h : Header) : Option Body :=
  match (h.get_head_int (ascii "Content-Length")).or (h.get_head_int (ascii "content-length")) with
  | some length => if length > 0 then some (Body.construct.set_expected_size length) else none
  | none =>
    match (h.get_head (ascii "Transfer-Encoding")).or (h.get_head (ascii "transfer-encoding")) with
    | some transfer_encoding =>
      if transfer_encoding = ascii "chunked" then some Body.construct.set_chunked else none
    | none => none

/-- The end of the header stage, with its complete header. -/
def finish_header (p : Packet α) : Packet α :=
  let body := (announced_body p.header).or p.body
  { p with
    fields := K.header_done p.fields p.header
    body := body
    parse_status := if body.isSome then PARSE_BODY else PARSE_FINISHED }

/-- The stage `PARSE_BODY` of `parse`. -/
def parse_body (p : Packet α) (b : Bytes) : Reply (Packet α) :=
  if p.parse_status = PARSE_BODY then
    match p.body with
    | none => .aborted
    | some body =>
      (body.parse b).map fun body => { p with
        body := some body
        parse_status := if body.is_parse_finished then PARSE_FINISHED else p.parse_status }
  else
    .took 0 p

/-- The stage `PARSE_HEADER` of `parse` and the one behind it. -/
def parse_head (value : Bytes) (p : Packet α) (b : Bytes) : Reply (Packet α) :=
  if p.parse_status = PARSE_HEADER then
    match p.header.parse_header value b with
    | .aborted => .aborted
    | .failed h => .failed { p with header := h }
    | .took n h =>
      let p := { p with header := h }
      if n = 0 then .took 0 p
      else if !h.header_parsed then .took n p
      else ((p.finish_header K).parse_body (b.drop n)).after n
  else
    p.parse_body b

/-- `parse`, with the content the local `value` of `__parse_header` starts
    from. -/
def parse_from (value : Bytes) (p : Packet α) (b : Bytes) : Reply (Packet α) :=
  if p.parse_status = PARSE_FINISHED then .took 0 p
  else
    let p := if p.parse_status = PARSE_NONE then { p with parse_status := PARSE_LINE } else p
    if p.parse_status = PARSE_LINE then
      match p.parse_start_line K b with
      | .aborted => .aborted
      | .failed p => .failed p
      | .took n p =>
        if n = 0 then .took 0 p
        else (parse_head K value { p with parse_status := PARSE_HEADER } (b.drop n)).after n
    else
      parse_head K value p b

/-- `request::parse` and `response::parse`. -/
def parse (p : Packet α) (b : Bytes) : Reply (Packet α) := parse_from K [] p b

end Packet

end Pump
