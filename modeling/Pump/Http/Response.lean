import Pump.Http.Packet

/-! # response

    The start line of a response, and its serialization,
    `proto/http/response.cpp`. -/

namespace Pump

open HttpVersion

/-- The member of `http::response` that is not one of a packet. -/
structure ResponseFields where
  status_code : Int
  deriving DecidableEq

abbrev Response := Packet ResponseFields

namespace Response

/-- The constructor. -/
def construct : Response := Packet.construct ⟨0⟩

/-- A `char` as an `int32_t`. -/
def char_value (c : UInt8) : Int := (c.toNat : Int).bmod (2 ^ 8)

/-- The loop over the digits of the status code. -/
def parse_status_code (status_code : Int) (digits : Bytes) : Int :=
  digits.foldl (fun code c => wrap32 (code * 10 + (char_value c - 48))) status_code

/-- `response::__parse_start_line` on a line. -/
def parse_line (r : ResponseFields) (version : HttpVersion) (line : Bytes) :
    Bool × ResponseFields × HttpVersion :=
  match parse_http_version line with
  | none => (false, r, version)
  | some version =>
    let pos := (line.drop 8).dropWhile (· = 32)
    let r := { r with status_code := parse_status_code r.status_code (pos.takeWhile (· ≠ 32)) }
    if pos.dropWhile (· ≠ 32) = [] then (false, r, version) else (true, r, version)

def kind : Kind ResponseFields := ⟨parse_line, fun r _ => r⟩

/-- `response::parse`. -/
def parse (r : Response) (b : Bytes) : Reply Response := Packet.parse kind r b

/-- `get_http_code_desc`: what `init_http_code_desc_map` has for a code. -/
def get_http_code_desc (code : Int) : Bytes :=
  match code with
  | 100 => ascii "Continue"
  | 101 => ascii "Switching protos"
  | 200 => ascii "OK"
  | 201 => ascii "Created"
  | 202 => ascii "Accepted"
  | 203 => ascii "Non-Authoritative Information"
  | 204 => ascii "No Content"
  | 205 => ascii "Reset Content"
  | 206 => ascii "Partial Content"
  | 300 => ascii "Multiple Choices"
  | 301 => ascii "Moved Permanently"
  | 302 => ascii "Found"
  | 303 => ascii "See Other"
  | 304 => ascii "Not Modified"
  | 305 => ascii "Use Proxy"
  | 307 => ascii "Temporary Redirect"
  | 400 => ascii "Bad Request"
  | 401 => ascii "Unauthorized"
  | 403 => ascii "Forbidden"
  | 404 => ascii "Not Found"
  | 405 => ascii "Method Not Allowed"
  | 406 => ascii "Not Acceptable"
  | 407 => ascii "Proxy Authentication Required"
  | 408 => ascii "Request Timeout"
  | 409 => ascii "Conflict"
  | 410 => ascii "Gone"
  | 411 => ascii "Length Required"
  | 412 => ascii "Precondition Failed"
  | 413 => ascii "Request Entity Too Large"
  | 414 => ascii "Request URI Too Long"
  | 416 => ascii "Requested Range Not Satisfiable"
  | 500 => ascii "Internal Server Error"
  | 501 => ascii "Not Implemented"
  | 502 => ascii "Bad Gateway"
  | 503 => ascii "Service Unavailable"
  | 504 => ascii "Gateway Timeout"
  | 505 => ascii "HTTP Version Not Supported"
  | _ => []

/-- `response::__serialize_response_line`: the bytes appended and the size. -/
def serialize_response_line (r : Response) : Bytes × Nat :=
  snprintf 127 (c_str r.version.string ++ ascii " " ++ format_dec r.fields.status_code ++
    ascii " " ++ c_str (get_http_code_desc r.fields.status_code) ++ http_crlf)

/-- `response::serialize`. -/
def serialize (r : Response) : Bytes × Nat :=
  let line := serialize_response_line r
  let header := r.header.serialize_header
  let body := (r.body.map Body.serialize).getD ([], 0)
  (line.1 ++ header.1 ++ body.1, line.2 + header.2 + body.2)

end Response

end Pump
