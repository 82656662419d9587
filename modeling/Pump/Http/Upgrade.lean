import Pump.Codec
import Pump.Http.HeaderRoundTrip
import Pump.Http.ResponseRoundTrip
import Pump.Http.Url

/-! # The websocket upgrade

    The request of `http::client`, the response of `upgrade_to_websocket` in
    `proto/http/server.cpp`, and what the client checks of it. -/

namespace Pump

open HttpMethod HttpVersion

/-! ## Section 1: Model -/

/-- `compute_sec_key`, from 16 random bytes. -/
def compute_sec_key (random : Bytes) : Bytes := base64_encode random

/-- `compute_sec_accept_key`. -/
def compute_sec_accept_key (sec_key : Bytes) : Bytes :=
  let tmp := sec_key ++ ascii "258EAFA5-E914-47DA-95CA-C5AB0DC85B11"
  base64_encode (sha1 tmp (UInt32.ofNat tmp.length))

/-- The request of `client::__send_websocket_upgrade_request`. -/
def upgrade_request (url : Bytes) (headers : List (Bytes × Bytes)) (sec_key : Bytes) : Request :=
  let u := (Uri.construct.parse url).2
  let h := headers.foldl (fun h e => h.set_head e.1 e.2) Header.construct
  let h := if (h.get_head_values (ascii "Host")).isSome then h
    else h.set_unique_head (ascii "Host") u.host
  let h := h.set_unique_head (ascii "Connection") (ascii "Upgrade")
  let h := h.set_unique_head (ascii "Upgrade") (ascii "websocket")
  let h := h.set_unique_head (ascii "Sec-WebSocket-Version") (ascii "13")
  let h := h.set_unique_head (ascii "Sec-WebSocket-Key") sec_key
  { Request.construct with fields := ⟨u, METHOD_GET⟩, version := VERSION_11, header := h }

/-- The response of `__send_simple_response`. -/
def simple_response (status_code : Int) : Response :=
  { Response.construct with fields := ⟨status_code⟩, version := VERSION_11 }

/-- The header of the answer to a key, with some protocols. -/
def upgrade_header (sec_key : Bytes) (protocs : List Bytes) : Header :=
  protocs.foldl (fun h p => h.set_head (ascii "Sec-WebSocket-proto") p)
    (((Header.construct.set_head (ascii "Upgrade") (ascii "websocket")).set_head
      (ascii "Connection") (ascii "Upgrade")).set_head
        (ascii "Sec-WebSocket-Accept") (compute_sec_accept_key sec_key))

/-- The response that answers a key. -/
def upgrade_response (sec_key : Bytes) (protocs : List Bytes) : Response :=
  { Response.construct with
    fields := ⟨101⟩
    version := VERSION_11
    header := upgrade_header sec_key protocs }

/-- `upgrade_to_websocket`: what it returns when the response is sent, and the
    response. -/
def upgrade_to_websocket (req : Request) : Bool × Response :=
  if req.fields.method ≠ METHOD_GET then (false, simple_response 404)
  else if req.version ≠ VERSION_11 then (false, simple_response 404)
  else if req.header.get_head (ascii "Upgrade") ≠ some (ascii "websocket") then
    (false, simple_response 400)
  else if ascii "Upgrade" ∉ (req.header.get_head_values (ascii "Connection")).getD [] then
    (false, simple_response 400)
  else if req.header.get_head (ascii "Sec-WebSocket-Version") ≠ some (ascii "13") then
    (false, simple_response 400)
  else match req.header.get_head (ascii "Sec-WebSocket-Key") with
    | none => (false, simple_response 400)
    | some sec_key =>
      (true, upgrade_response sec_key
        ((req.header.get_head_values (ascii "Sec-WebSocket-proto")).getD []))

/-- `client::__handle_websocket_upgrade_response`. -/
def handle_websocket_upgrade_response (rsp : Response) : Bool :=
  if rsp.fields.status_code ≠ 101 ∨ rsp.version ≠ VERSION_11 then false
  else if rsp.header.get_head (ascii "Upgrade") ≠ some (ascii "websocket") then false
  else match rsp.header.get_head_values (ascii "Connection") with
    | none => false
    | some connection =>
      if ascii "Upgrade" ∉ connection then false
      else (rsp.header.get_head (ascii "Sec-WebSocket-Accept")).isSome

/-! ## Section 2: The values of a header -/

namespace Header

theorem get_head_values_eq (h : Header) (name : Bytes) :
    h.get_head_values name =
      if h.headers.getD name [] = [] then none else some (h.headers.getD name []) := by
  unfold get_head_values
  rw [Std.ExtTreeMap.getD_eq_getD_getElem?]
  rcases h.headers[name]? with _ | vs
  · rfl
  · cases vs with
    | nil => rfl
    | cons v vs => rfl

theorem get_head_single {h : Header} {name v : Bytes} (hget : h.headers.getD name [] = [v]) :
    h.get_head_values name = some [v] ∧ h.get_head name = some v := by
  have hvalues : h.get_head_values name = some [v] := by
    rw [get_head_values_eq, hget, if_neg (List.cons_ne_nil _ _)]
  refine ⟨hvalues, ?_⟩
  unfold get_head
  rw [hvalues]
  rfl

theorem getD_set_unique_head (h : Header) (n value name : Bytes) :
    (h.set_unique_head n value).headers.getD name [] =
      if n = name then split_string value head_sep else h.headers.getD name [] := by
  unfold set_unique_head
  rw [Std.ExtTreeMap.getD_insert]
  by_cases hn : n = name
  · subst hn
    simp
  · have hcmp : compare n name ≠ .eq := fun he => hn (Std.LawfulEqOrd.eq_of_compare he)
    simp [hn, hcmp]

/-- The names that a header may have. -/
def Named (names : List Bytes) (h : Header) : Prop := ∀ e ∈ h.headers.toList, e.1 ∈ names

theorem Named.set_head {names : List Bytes} {h : Header} (hn : h.Named names) {name : Bytes}
    (hname : name ∈ names) (value : Bytes) : (h.set_head name value).Named names := by
  intro e he
  rw [Std.ExtTreeMap.mem_toList_iff_getElem?_eq_some, getElem?_set_head] at he
  split at he
  · next heq => exact heq ▸ hname
  · exact hn e (Std.ExtTreeMap.mem_toList_iff_getElem?_eq_some.mpr he)

/-- A value of one token that starts a line. -/
theorem value_text_single {name v : Bytes} (hstart : ∀ c ∈ v.head?, c ≠ 32 ∧ c ≠ 58) :
    value_text (name, [v]) = v := by
  unfold value_text
  show v.dropWhile _ = v
  cases v with
  | nil => rfl
  | cons c v =>
    obtain ⟨h32, h58⟩ := hstart c rfl
    exact List.dropWhile_cons_of_neg (by simp [h32, h58])

end Header

theorem split_string_token {v : Bytes} (htok : Token v) (hv : v ≠ []) :
    split_string v head_sep = [v] := by
  unfold split_string
  rw [if_neg hv, split_loop_no_sep htok (by simpa using hv), List.nil_append]

namespace Header

/-- A value of one token comes back from the lines of a map. -/
theorem added_single {h : Header} {name v : Bytes} (hget : h.headers.getD name [] = [v])
    (hv : v ≠ []) (htok : Token v) (hstart : ∀ c ∈ v.head?, c ≠ 32 ∧ c ≠ 58) :
    added name [] (h.headers.toList.map found) = [v] := by
  have hmem : (name, [v]) ∈ h.headers.toList := by
    rw [Std.ExtTreeMap.mem_toList_iff_getElem?_eq_some]
    rw [Std.ExtTreeMap.getD_eq_getD_getElem?] at hget
    rcases hsome : h.headers[name]? with _ | vs
    · rw [hsome] at hget
      cases hget
    · rw [hsome] at hget
      exact congrArg some hget
  obtain ⟨l₁, l₂, hsplit⟩ := List.append_of_mem hmem
  have hadded := added_found hsplit
  rw [value_text_single hstart, if_neg hv] at hadded
  rw [hadded, split_string_token htok hv]

end Header

/-! ## Section 3: The answer on its way -/

/-- The names in the header of an answer. -/
def upgrade_names : List Bytes :=
  [ascii "Upgrade", ascii "Connection", ascii "Sec-WebSocket-Accept", ascii "Sec-WebSocket-proto"]

theorem upgrade_header_named (sec_key : Bytes) (protocs : List Bytes) :
    (upgrade_header sec_key protocs).Named upgrade_names := by
  have hstart : Header.Named upgrade_names
      (((Header.construct.set_head (ascii "Upgrade") (ascii "websocket")).set_head
        (ascii "Connection") (ascii "Upgrade")).set_head
          (ascii "Sec-WebSocket-Accept") (compute_sec_accept_key sec_key)) := by
    apply Header.Named.set_head
    · apply Header.Named.set_head
      · apply Header.Named.set_head
        · intro e he
          rw [Std.ExtTreeMap.mem_toList_iff_getElem?_eq_some] at he
          cases he
        · decide
      · decide
    · decide
  exact List.foldlRecOn (motive := Header.Named upgrade_names) protocs _ hstart
    fun _ hnamed p _ => hnamed.set_head (by decide) p

theorem upgrade_header_stored (sec_key : Bytes) (protocs : List Bytes) :
    (upgrade_header sec_key protocs).Stored := by
  have hstart := ((Header.stored_construct.set_head (ascii "Upgrade") (ascii "websocket")).set_head
    (ascii "Connection") (ascii "Upgrade")).set_head
      (ascii "Sec-WebSocket-Accept") (compute_sec_accept_key sec_key)
  exact List.foldlRecOn (motive := Header.Stored) protocs _ hstart
    fun _ hstored p _ => hstored.set_head _ p

/-- The protocols leave the other values alone. -/
theorem upgrade_header_getD (sec_key : Bytes) (protocs : List Bytes) {name : Bytes}
    (hname : ascii "Sec-WebSocket-proto" ≠ name) :
    (upgrade_header sec_key protocs).headers.getD name [] =
      (if ascii "Upgrade" = name then [ascii "websocket"] else []) ++
        (if ascii "Connection" = name then [ascii "Upgrade"] else []) ++
          if ascii "Sec-WebSocket-Accept" = name then
            split_string (compute_sec_accept_key sec_key) head_sep else [] := by
  have hfold : ∀ h : Header, (protocs.foldl (fun h p => h.set_head (ascii "Sec-WebSocket-proto") p)
      h).headers.getD name [] = h.headers.getD name [] := by
    induction protocs with
    | nil => exact fun _ => rfl
    | cons p protocs ih =>
      intro h
      rw [List.foldl_cons, ih, Header.getD_set_head, if_neg hname, List.append_nil]
  have hnew : Header.construct.headers.getD name [] = [] := by
    rw [Std.ExtTreeMap.getD_eq_getD_getElem?]
    rfl
  have hwebsocket : split_string (ascii "websocket") head_sep = [ascii "websocket"] := by decide
  have hupgrade : split_string (ascii "Upgrade") head_sep = [ascii "Upgrade"] := by decide
  unfold upgrade_header
  rw [hfold, Header.getD_set_head, Header.getD_set_head, Header.getD_set_head, hnew, hwebsocket,
    hupgrade, List.nil_append]

/-- The characters of a key stand for themselves. -/
theorem base64_char_plain {c : UInt8} (h : base64_char c = true) :
    head_sep.is_sep c = false ∧ c ≠ 13 ∧ c ≠ 0 ∧ c ≠ 32 ∧ c ≠ 58 := by
  have hall : (base64_alphabet ++ [61]).all (fun c =>
      !head_sep.is_sep c && c != 13 && c != 0 && c != 32 && c != 58) = true := by
    decide
  have hmem : c ∈ base64_alphabet ++ [61] := by simpa [base64_char] using h
  simpa [and_assoc] using List.all_eq_true.mp hall c hmem

theorem base64_token (b : Bytes) : Token (base64_encode b) := fun c hc =>
  (base64_char_plain (base64_encode_spec b c hc)).1

/-- The value that answers a key is a single token. -/
theorem accept_key_token (sec_key : Bytes) :
    (compute_sec_accept_key sec_key).length = 28 ∧ Token (compute_sec_accept_key sec_key) ∧
      ∀ c ∈ compute_sec_accept_key sec_key, c ≠ 13 ∧ c ≠ 0 ∧ c ≠ 32 ∧ c ≠ 58 := by
  refine ⟨?_, base64_token _, ?_⟩
  · unfold compute_sec_accept_key
    rw [length_base64_encode, sha1_length]
  · intro c hc
    exact (base64_char_plain (base64_encode_spec _ c hc)).2

theorem upgrade_response_plain (sec_key : Bytes) (protocs : List Bytes) :
    Response.PlainLine (upgrade_response sec_key protocs) := by
  constructor
  · exact HttpVersion.noConfusion
  · show (0 : Int) ≤ 101
    decide
  · show (101 : Int) < 2 ^ 31
    decide

/-- **The answer is read as it was meant**: a new response takes exactly the
    bytes of an answer whose lines fit, and finds the values of its lines. -/
theorem parse_upgrade {sec_key : Bytes} {protocs : List Bytes}
    (hclean : (upgrade_header sec_key protocs).Clean) (rest : Bytes) :
    ∃ r', Response.parse Response.construct
        ((Response.serialize (upgrade_response sec_key protocs)).1 ++ rest) =
          .took (Response.serialize (upgrade_response sec_key protocs)).1.length r' ∧
      r'.parse_status = .PARSE_FINISHED ∧ r'.version = VERSION_11 ∧
      r'.fields.status_code = 101 ∧ ∀ name, r'.header.headers.getD name [] =
        Header.added name [] ((upgrade_header sec_key protocs).headers.toList.map Header.found) := by
  obtain ⟨h, hh⟩ : ∃ h, h = upgrade_header sec_key protocs := ⟨_, rfl⟩
  obtain ⟨head, hhead⟩ : ∃ head, head = Header.text h.headers.toList ++ http_crlf := ⟨_, rfl⟩
  have hnamed := upgrade_header_named sec_key protocs
  have hstored := upgrade_header_stored sec_key protocs
  rw [← hh] at hclean hnamed hstored ⊢
  have hname : ∀ e ∈ h.headers.toList, e.1 ≠ [] := by
    intro e he hnil
    have hmem := hnamed e he
    rw [hnil] at hmem
    revert hmem
    decide
  have hvalues : ∀ e ∈ h.headers.toList, e.2 ≠ [] := by
    intro e he
    exact (hstored e.1 e.2 (Std.ExtTreeMap.mem_toList_iff_getElem?_eq_some.mp he)).1
  obtain ⟨line, hline⟩ : ∃ line, line = Response.line_text (upgrade_response sec_key protocs) :=
    ⟨_, rfl⟩
  have hplain := upgrade_response_plain sec_key protocs
  have hlen := hplain.text_length
  have hnocr := Response.text_no_cr (upgrade_response sec_key protocs)
  have hparse := hplain.parse_line_text VERSION_UNKNOWN
  rw [← hline] at hlen hnocr hparse
  have hbytes : (Response.serialize (upgrade_response sec_key protocs)).1 =
      line ++ http_crlf ++ head := by
    have hheader : (upgrade_response sec_key protocs).header = h := hh.symm
    have hbody : (upgrade_response sec_key protocs).body = none := rfl
    unfold Response.serialize
    rw [hheader, hbody, Header.serialize_clean hclean hvalues, ← hhead]
    show (Response.serialize_response_line _).1 ++ head ++ [] = _
    rw [hplain.line, ← hline, List.append_nil]
  have hscan : Header.scan (head ++ rest) =
      ⟨h.headers.toList.map Header.found, head.length, .blank⟩ := by
    rw [hhead]
    exact Header.scan_clean hclean hname rest
  have hfind : find_http_line_end (line ++ http_crlf ++ (head ++ rest)) = some (line.length + 2) :=
    find_http_line_end_iff.mpr ⟨line, head ++ rest, by simp [http_crlf], hnocr, rfl, by
      unfold http_line_max_length
      omega⟩
  have htake : (line ++ http_crlf ++ (head ++ rest)).take (line.length + 2) = line ++ http_crlf :=
    List.take_left' (by simp [http_crlf])
  have hdrop : (line ++ http_crlf ++ (head ++ rest)).drop (line.length + 2) = head ++ rest :=
    List.drop_left' (by simp [http_crlf])
  -- the message when the header is complete
  obtain ⟨h', hh'⟩ : ∃ h' : Header, h' =
      { Header.construct.store_lines [] (h.headers.toList.map Header.found) with
        header_parsed := true } := ⟨_, rfl⟩
  have hget : ∀ name, h'.headers.getD name [] =
      Header.added name [] (h.headers.toList.map Header.found) := by
    intro name
    have hnew : Header.construct.headers.getD name [] = [] := by
      rw [Std.ExtTreeMap.getD_eq_getD_getElem?]
      rfl
    rw [hh']
    show (Header.construct.store_lines [] _).headers.getD name [] = _
    rw [Header.getD_store_lines, hnew, List.nil_append]
  have hother : ∀ name, name ∉ upgrade_names → h'.get_head_values name = none := by
    intro name hnot
    rw [Header.get_head_values_eq, hget, Header.added_none, if_pos rfl]
    intro line hl
    obtain ⟨e, he, rfl⟩ := List.mem_map.mp hl
    exact fun heq => hnot (heq ▸ hnamed e he)
  have hnone : Packet.announced_body h' = none := by
    unfold Packet.announced_body Header.get_head_int Header.get_head
    rw [hother (ascii "Content-Length") (by decide), hother (ascii "content-length") (by decide),
      hother (ascii "Transfer-Encoding") (by decide), hother (ascii "transfer-encoding") (by decide)]
    rfl
  obtain ⟨r', hr'⟩ : ∃ r' : Response, r' = ⟨⟨101⟩, VERSION_11, h', none, .PARSE_FINISHED⟩ :=
    ⟨_, rfl⟩
  have hfinish : Packet.finish_header Response.kind ⟨⟨101⟩, VERSION_11, h', none, .PARSE_HEADER⟩ =
      r' := by
    unfold Packet.finish_header
    rw [hnone, hr']
    rfl
  refine ⟨r', ?_, ?_, ?_, ?_, ?_⟩
  · have hs : Response.construct.parse_status = .PARSE_NONE ∨
        Response.construct.parse_status = .PARSE_LINE := Or.inl rfl
    unfold Response.parse Packet.parse
    rw [hbytes, List.append_assoc, Packet.parse_from_line hs, hfind]
    replace hparse : Response.kind.parse_line Response.construct.fields Response.construct.version
        (line ++ http_crlf) = (true, ⟨101⟩, VERSION_11) := hparse
    simp only [htake, hdrop, hparse, if_true]
    rw [Packet.parse_head_eq rfl rfl, hscan]
    show (((Packet.finish_header Response.kind ⟨⟨101⟩, VERSION_11,
      { Header.construct.store_lines [] (h.headers.toList.map Header.found) with
        header_parsed := true }, none, .PARSE_HEADER⟩).parse_body
          ((head ++ rest).drop head.length)).after head.length).after (line.length + 2) = _
    have hbody : ∀ b, r'.parse_body b = .took 0 r' := by
      intro b
      rw [hr']
      rfl
    rw [← hh', hfinish, hbody, List.length_append, List.length_append]
    rfl
  · rw [hr']
  · rw [hr']
  · rw [hr']
  · rw [hr']
    exact hget

/-- Only the line of the protocols can be broken. -/
theorem upgrade_header_clean {sec_key : Bytes} {protocs : List Bytes}
    (hclean : ∀ vs, (upgrade_header sec_key protocs).get_head_values
      (ascii "Sec-WebSocket-proto") = some vs → Header.CleanEntry (ascii "Sec-WebSocket-proto", vs)) :
    (upgrade_header sec_key protocs).Clean := by
  obtain ⟨hlen, htok, hchars⟩ := accept_key_token sec_key
  intro e he
  have hmem := upgrade_header_named sec_key protocs e he
  have hsome := Std.ExtTreeMap.mem_toList_iff_getElem?_eq_some.mp he
  have hstored := upgrade_header_stored sec_key protocs e.1 e.2 hsome
  have hget : (upgrade_header sec_key protocs).headers.getD e.1 [] = e.2 := by
    rw [Std.ExtTreeMap.getD_eq_getD_getElem?, hsome]
    rfl
  obtain ⟨name, vs⟩ := e
  simp only [upgrade_names, List.mem_cons, List.not_mem_nil, or_false] at hmem hget
  -- two constants, the key, and the line of the protocols
  rcases hmem with rfl | rfl | rfl | rfl
  · rw [upgrade_header_getD sec_key protocs (by decide)] at hget
    replace hget : [ascii "websocket"] = vs := hget
    rw [← hget]
    constructor <;> decide
  · rw [upgrade_header_getD sec_key protocs (by decide)] at hget
    replace hget : [ascii "Upgrade"] = vs := hget
    rw [← hget]
    constructor <;> decide
  · -- the value is known by its characters and its length only
    rw [upgrade_header_getD sec_key protocs (by decide)] at hget
    replace hget : split_string (compute_sec_accept_key sec_key) head_sep = vs := hget
    rw [split_string_token htok (by rw [← List.length_pos_iff, hlen]; decide)] at hget
    rw [← hget]
    constructor
    · show (58 : UInt8) ∉ ascii "Sec-WebSocket-Accept"
      decide
    · show (13 : UInt8) ∉ ascii "Sec-WebSocket-Accept"
      decide
    · show (0 : UInt8) ∉ ascii "Sec-WebSocket-Accept"
      decide
    · intro v hv h13
      rw [List.mem_singleton.mp hv] at h13
      exact (hchars 13 h13).1 rfl
    · intro v hv h0
      rw [List.mem_singleton.mp hv] at h0
      exact (hchars 0 h0).2.1 rfl
    · have hjoin : join_strings [compute_sec_accept_key sec_key] Header.head_value_sep =
          compute_sec_accept_key sec_key := rfl
      rw [hjoin]
      simp only [List.length_append, hlen]
      decide
  · apply hclean
    rw [Header.get_head_values_eq, hget, if_neg hstored.1]

/-! ## Section 4: The checks of the client -/

/-- The response is one of a server that switches. -/
structure Switching (rsp : Response) : Prop where
  status : rsp.fields.status_code = 101
  version : rsp.version = VERSION_11
  upgrade : rsp.header.get_head (ascii "Upgrade") = some (ascii "websocket")
  connection : ∃ connection, rsp.header.get_head_values (ascii "Connection") = some connection ∧
    ascii "Upgrade" ∈ connection

/-- The response answers the key. -/
def Genuine (sec_key : Bytes) (rsp : Response) : Prop :=
  Switching rsp ∧
    rsp.header.get_head (ascii "Sec-WebSocket-Accept") = some (compute_sec_accept_key sec_key)

/-- The response switches with a value that does not answer the key. -/
def Forged (sec_key : Bytes) (rsp : Response) : Prop :=
  Switching rsp ∧ ∃ sec_accept, rsp.header.get_head (ascii "Sec-WebSocket-Accept") =
    some sec_accept ∧ sec_accept ≠ compute_sec_accept_key sec_key

/-- The client takes what a server answers to its key, as the server has it and
    as it arrives when the line of the protocols is not broken. -/
def AnswersAccepted (sec_key : Bytes) : Prop :=
  ∀ req rsp, req.header.get_head (ascii "Sec-WebSocket-Key") = some sec_key →
    upgrade_to_websocket req = (true, rsp) →
      (handle_websocket_upgrade_response rsp = true ∧ Genuine sec_key rsp) ∧
      ((∀ vs, rsp.header.get_head_values (ascii "Sec-WebSocket-proto") = some vs →
          Header.CleanEntry (ascii "Sec-WebSocket-proto", vs)) →
        ∀ rest, ∃ r', Response.parse Response.construct ((Response.serialize rsp).1 ++ rest) =
            .took (Response.serialize rsp).1.length r' ∧
          r'.parse_status = .PARSE_FINISHED ∧
          handle_websocket_upgrade_response r' = true ∧ Genuine sec_key r')

theorem handle_iff (rsp : Response) :
    handle_websocket_upgrade_response rsp = true ↔
      Switching rsp ∧ ∃ sec_accept,
        rsp.header.get_head (ascii "Sec-WebSocket-Accept") = some sec_accept := by
  unfold handle_websocket_upgrade_response
  constructor
  · intro h
    split at h
    · cases h
    · next hline =>
      split at h
      · cases h
      · next hupgrade =>
        split at h
        · cases h
        · next connection hconnection =>
          split at h
          · cases h
          · next hmem =>
            rw [not_or, not_not, not_not] at hline
            exact ⟨⟨hline.1, hline.2, not_not.mp hupgrade, connection, hconnection,
              not_not.mp hmem⟩, Option.isSome_iff_exists.mp h⟩
  · rintro ⟨⟨hstatus, hversion, hupgrade, connection, hconnection, hmem⟩, haccept⟩
    rw [if_neg (by simp [hstatus, hversion]), if_neg (by simp [hupgrade]), hconnection]
    show (if ascii "Upgrade" ∉ connection then false else _) = true
    rw [if_neg (not_not.mpr hmem)]
    exact Option.isSome_iff_exists.mpr haccept

theorem Genuine.handled {sec_key : Bytes} {rsp : Response} (h : Genuine sec_key rsp) :
    handle_websocket_upgrade_response rsp = true :=
  (handle_iff rsp).mpr ⟨h.1, _, h.2⟩

/-- A response with the three values of an answer answers its key. -/
theorem genuine_of_values {sec_key : Bytes} {rsp : Response}
    (hstatus : rsp.fields.status_code = 101) (hversion : rsp.version = VERSION_11)
    (hupgrade : rsp.header.headers.getD (ascii "Upgrade") [] = [ascii "websocket"])
    (hconnection : rsp.header.headers.getD (ascii "Connection") [] = [ascii "Upgrade"])
    (haccept : rsp.header.headers.getD (ascii "Sec-WebSocket-Accept") [] =
      [compute_sec_accept_key sec_key]) : Genuine sec_key rsp :=
  ⟨⟨hstatus, hversion, (Header.get_head_single hupgrade).2, [ascii "Upgrade"],
    (Header.get_head_single hconnection).1, List.mem_singleton_self _⟩,
    (Header.get_head_single haccept).2⟩

/-- The three values of an answer. -/
theorem upgrade_header_values (sec_key : Bytes) (protocs : List Bytes) :
    (upgrade_header sec_key protocs).headers.getD (ascii "Upgrade") [] = [ascii "websocket"] ∧
    (upgrade_header sec_key protocs).headers.getD (ascii "Connection") [] = [ascii "Upgrade"] ∧
    (upgrade_header sec_key protocs).headers.getD (ascii "Sec-WebSocket-Accept") [] =
      [compute_sec_accept_key sec_key] := by
  obtain ⟨hlen, htok, -⟩ := accept_key_token sec_key
  refine ⟨?_, ?_, ?_⟩
  · rw [upgrade_header_getD sec_key protocs (by decide)]
    rfl
  · rw [upgrade_header_getD sec_key protocs (by decide)]
    rfl
  · rw [upgrade_header_getD sec_key protocs (by decide)]
    show split_string (compute_sec_accept_key sec_key) head_sep = _
    exact split_string_token htok (by rw [← List.length_pos_iff, hlen]; decide)

/-- A server that switches answers the key of the request. -/
theorem upgrade_answer {req : Request} {rsp : Response} {sec_key : Bytes}
    (hkey : req.header.get_head (ascii "Sec-WebSocket-Key") = some sec_key)
    (h : upgrade_to_websocket req = (true, rsp)) :
    ∃ protocs, rsp = upgrade_response sec_key protocs := by
  unfold upgrade_to_websocket at h
  rw [hkey] at h
  -- every check that fails answers `false`
  iterate 5
    split at h
    · cases h
  exact ⟨_, (Prod.mk.inj h).2.symm⟩

theorem answers_accepted (sec_key : Bytes) : AnswersAccepted sec_key := by
  intro req rsp hkey h
  obtain ⟨protocs, rfl⟩ := upgrade_answer hkey h
  obtain ⟨hupgrade, hconnection, haccept⟩ := upgrade_header_values sec_key protocs
  have hgenuine : Genuine sec_key (upgrade_response sec_key protocs) :=
    genuine_of_values rfl rfl hupgrade hconnection haccept
  refine ⟨⟨hgenuine.handled, hgenuine⟩, ?_⟩
  intro hclean rest
  obtain ⟨r', hparse, hfinished, hversion, hstatus, hadded⟩ :=
    parse_upgrade (upgrade_header_clean hclean) rest
  obtain ⟨hlen, htok, hchars⟩ := accept_key_token sec_key
  have hgenuine' : Genuine sec_key r' := by
    apply genuine_of_values hstatus hversion
    · rw [hadded]
      exact Header.added_single hupgrade (by decide) (by unfold Token; decide +kernel)
        (by decide +kernel)
    · rw [hadded]
      exact Header.added_single hconnection (by decide) (by unfold Token; decide +kernel)
        (by decide +kernel)
    · rw [hadded]
      apply Header.added_single haccept _ htok
      · intro c hc
        exact (hchars c (List.mem_of_mem_head? hc)).2.2
      · rw [← List.length_pos_iff, hlen]
        decide
  exact ⟨r', hparse, hfinished, hgenuine'.handled, hgenuine'⟩

/-- **The client is not cheated with a key**: it takes a response only if the
    response answers the key, and takes every answer to it, exactly if the
    response is not a switch with another value. -/
theorem authenticated_iff (sec_key : Bytes) (rsp : Response) :
    ((handle_websocket_upgrade_response rsp = true → Genuine sec_key rsp) ∧
      AnswersAccepted sec_key) ↔ ¬ Forged sec_key rsp := by
  constructor
  · rintro ⟨hsound, -⟩ ⟨hswitch, sec_accept, haccept, hne⟩
    -- the client does not look at the value it has fetched
    have hhandled := (handle_iff rsp).mpr ⟨hswitch, sec_accept, haccept⟩
    have hgenuine := (hsound hhandled).2
    rw [haccept] at hgenuine
    exact hne (Option.some.inj hgenuine)
  · intro hnot
    refine ⟨?_, answers_accepted sec_key⟩
    intro hhandled
    obtain ⟨hswitch, sec_accept, haccept⟩ := (handle_iff rsp).mp hhandled
    by_cases heq : sec_accept = compute_sec_accept_key sec_key
    · exact ⟨hswitch, heq ▸ haccept⟩
    · exact absurd ⟨hswitch, sec_accept, haccept, heq⟩ hnot

/-- The answer to a key is taken by a client that has sent another. -/
theorem not_authenticated :
    ¬ ((handle_websocket_upgrade_response
          (upgrade_response (ascii "dGhlIHNhbXBsZSBub25jZQ==") []) = true →
        Genuine (ascii "x3JJHMbDL1EzLkh9GBhXDw==")
          (upgrade_response (ascii "dGhlIHNhbXBsZSBub25jZQ==") [])) ∧
      AnswersAccepted (ascii "x3JJHMbDL1EzLkh9GBhXDw==")) := by
  rintro ⟨hsound, -⟩
  obtain ⟨hupgrade, hconnection, haccept⟩ :=
    upgrade_header_values (ascii "dGhlIHNhbXBsZSBub25jZQ==") []
  have hgenuine : Genuine (ascii "dGhlIHNhbXBsZSBub25jZQ==")
      (upgrade_response (ascii "dGhlIHNhbXBsZSBub25jZQ==") []) :=
    genuine_of_values rfl rfl hupgrade hconnection haccept
  have hget := (hsound hgenuine.handled).2
  rw [hgenuine.2] at hget
  revert hget
  decide +kernel

/-- A server switches on what the client asks. -/
theorem upgrade_request_answered (url : Bytes) (headers : List (Bytes × Bytes)) {random : Bytes}
    (hrandom : random ≠ []) :
    ∃ protocs, upgrade_to_websocket (upgrade_request url headers (compute_sec_key random)) =
      (true, upgrade_response (compute_sec_key random) protocs) := by
  have hne : compute_sec_key random ≠ [] := by
    rw [← List.length_pos_iff]
    unfold compute_sec_key
    rw [length_base64_encode]
    have hpos := List.length_pos_iff.mpr hrandom
    omega
  obtain ⟨req, hreq⟩ : ∃ req, req = upgrade_request url headers (compute_sec_key random) :=
    ⟨_, rfl⟩
  have hkey : req.header.headers.getD (ascii "Sec-WebSocket-Key") [] =
      [compute_sec_key random] := by
    rw [hreq]
    show (Header.set_unique_head _ _ _).headers.getD _ [] = _
    rw [Header.getD_set_unique_head, if_pos rfl]
    exact split_string_token (base64_token random) hne
  -- the names that are set before the key keep their values
  have hother : ∀ name v, ascii "Sec-WebSocket-Key" ≠ name →
      (if ascii "Sec-WebSocket-Version" = name then split_string (ascii "13") head_sep
        else if ascii "Upgrade" = name then split_string (ascii "websocket") head_sep
        else if ascii "Connection" = name then split_string (ascii "Upgrade") head_sep
        else []) = [v] → req.header.headers.getD name [] = [v] := by
    intro name v hname hv
    rw [hreq]
    show (Header.set_unique_head _ _ _).headers.getD _ [] = _
    rw [Header.getD_set_unique_head, if_neg hname, Header.getD_set_unique_head,
      Header.getD_set_unique_head, Header.getD_set_unique_head]
    split_ifs at hv ⊢
    · exact hv
    · exact hv
    · exact hv
  have hupgrade := Header.get_head_single (hother (ascii "Upgrade") (ascii "websocket")
    (by decide) (by decide))
  have hconnection := Header.get_head_single (hother (ascii "Connection") (ascii "Upgrade")
    (by decide) (by decide))
  have hversion := Header.get_head_single (hother (ascii "Sec-WebSocket-Version") (ascii "13")
    (by decide) (by decide))
  have hmethod : req.fields.method = METHOD_GET := hreq ▸ rfl
  have hhttp : req.version = VERSION_11 := hreq ▸ rfl
  rw [← hreq]
  have hmem : ascii "Upgrade" ∈
      (req.header.get_head_values (ascii "Connection")).getD [] := by
    rw [hconnection.1]
    exact List.mem_singleton_self _
  unfold upgrade_to_websocket
  rw [if_neg (not_not.mpr hmethod), if_neg (not_not.mpr hhttp), if_neg (not_not.mpr hupgrade.2),
    if_neg (not_not.mpr hmem), if_neg (not_not.mpr hversion.2), (Header.get_head_single hkey).2]
  exact ⟨_, rfl⟩

end Pump
