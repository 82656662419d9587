import Pump.Http.Packet
import Pump.Http.Uri

/-! # request

    The start line of a request, and its serialization,
    `proto/http/request.cpp`. -/

namespace Pump

inductive HttpMethod where
  | METHOD_UNKNOWN
  | METHOD_GET
  | METHOD_POST
  | METHOD_HEAD
  | METHOD_PUT
  | METHOD_DELETE
  deriving DecidableEq, Repr

open HttpMethod HttpVersion ParseStatus

/-- `request_method_strings`. -/
def HttpMethod.string : HttpMethod → Bytes
  | METHOD_UNKNOWN => ascii "UNKNOWN"
  | METHOD_GET => ascii "GET"
  | METHOD_POST => ascii "POST"
  | METHOD_HEAD => ascii "HEAD"
  | METHOD_PUT => ascii "PUT"
  | METHOD_DELETE => ascii "DELETE"

/-- The members of `http::request` that are not those of a packet. -/
structure RequestFields where
  uri : Uri
  method : HttpMethod
  deriving DecidableEq

abbrev Request := Packet RequestFields

namespace Request

/-- The constructor. -/
def construct : Request := Packet.construct ⟨Uri.construct, METHOD_UNKNOWN⟩

/-- One `memcmp` of `__parse_start_line` with a method and its space. -/
def starts_with (pos word : Bytes) : Bool := word.length < pos.length && word.isPrefixOf pos

/-- The method of a request line, and what follows it. -/
def parse_method (pos : Bytes) : Option (HttpMethod × Bytes) :=
  if starts_with pos (ascii "GET ") then some (METHOD_GET, pos.drop 4)
  else if starts_with pos (ascii "POST ") then some (METHOD_POST, pos.drop 5)
  else if starts_with pos (ascii "HEAD ") then some (METHOD_HEAD, pos.drop 5)
  else if starts_with pos (ascii "PUT ") then some (METHOD_PUT, pos.drop 4)
  else if starts_with pos (ascii "DELETE ") then some (METHOD_DELETE, pos.drop 7)
  else none

/-- The parameters of a request line, from the `?` on, if there is one. -/
def parse_params (u : Uri) (pos : Bytes) : Option (Uri × Bytes) :=
  match pos with
  | 63 :: pos =>
    let raw_params := pos.takeWhile (· ≠ 32)
    let pos := pos.dropWhile (· ≠ 32)
    if raw_params = [] ∨ pos = [] then none
    else do
      let params ← url_decode raw_params
      let u ← u.set_params (split_string params param_sep)
      some (u, pos)
  | _ => some (u, pos)

/-- `request::__parse_start_line` on a line. -/
def parse_line (r : RequestFields) (version : HttpVersion) (line : Bytes) :
    Bool × RequestFields × HttpVersion :=
  match parse_method line with
  | none => (false, r, version)
  | some (method, pos) =>
    let r := { r with method := method }
    let path := pos.takeWhile fun c => c ≠ 32 && c ≠ 63
    let pos := pos.dropWhile fun c => c ≠ 32 && c ≠ 63
    if path = [] ∨ pos = [] then (false, r, version)
    else
      let r := { r with uri := r.uri.set_path path }
      match parse_params r.uri pos with
      | none => (false, r, version)
      | some (u, pos) =>
        let r := { r with uri := u }
        match parse_http_version (pos.drop 1) with
        | none => (false, r, version)
        | some version => (true, r, version)

/-- What `request::parse` does with the complete header. -/
def header_done (r : RequestFields) (h : Header) : RequestFields :=
  match h.get_head (ascii "Host") with
  | some host => { r with uri := r.uri.set_host host }
  | none => r

def kind : Kind RequestFields := ⟨parse_line, header_done⟩

/-- `request::parse`. -/
def parse (r : Request) (b : Bytes) : Reply Request := Packet.parse kind r b

/-- `request::__serialize_request_line`: the bytes appended and the size. -/
def serialize_request_line (r : Request) : Bytes × Nat :=
  snprintf 255 (c_str r.fields.method.string ++ ascii " " ++ c_str r.fields.uri.path ++
    ascii " " ++ c_str r.version.string ++ http_crlf)

/-- `request::serialize`. -/
def serialize (r : Request) : Bytes × Nat :=
  let line := serialize_request_line r
  let header := r.header.serialize_header
  let body := (r.body.map Body.serialize).getD ([], 0)
  (line.1 ++ header.1 ++ body.1, line.2 + header.2 + body.2)

end Request

end Pump
