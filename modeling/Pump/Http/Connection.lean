import Pump.Http.Frame
import Pump.Http.Packet

/-! # connection

    `proto/http/connection.cpp`: how a connection sends a websocket message
    and what it does with the segments that its transport reads.

    The transport is the part of `base_transport` that a connection uses: it
    accepts buffers while it is started, and one read at a time is armed.
    Callbacks are recorded with their arguments and do nothing else. A
    buffer that is released keeps its size for the expression that reads it
    afterwards (`return size - iob->size();` behind `iob->unrefer();`). -/

namespace Pump

/-! ## Section 1: Model -/

/-- The transport of a connection, with the bytes it was given to send. -/
structure Transport where
  started : Bool
  read_pending : Bool
  sent : List Bytes
  deriving DecidableEq, Repr

namespace Transport

/-- `async_read` in `read_mode_once`. -/
def async_read (t : Transport) : Bool × Transport :=
  if !t.started then (false, t)
  else if t.read_pending then (false, t)
  else (true, { t with read_pending := true })

/-- `send(io_buffer *)`, when the transport does not fail. -/
def send (t : Transport) (iob : IoBuffer) : Bool × Transport :=
  if iob.size = 0 then (false, t)
  else if !t.started then (false, t)
  else (true, { t with sent := t.sent ++ [iob.content] })

def stop (t : Transport) : Transport := { t with started := false }

end Transport

inductive ConnectionState where
  | state_none
  | state_started
  | state_upgraded
  | state_stopped
  | state_error
  deriving DecidableEq, Repr

open ConnectionState

/-- The callbacks of a connection with their arguments. -/
inductive Call (α : Type) where
  | packet_cb (p : Packet α)
  | frame_cb (b : Bytes) (fin : Bool)
  deriving DecidableEq

/-- `http::connection`; `α` is the kind of packet it receives. -/
structure Connection (α : Type) where
  state : ConnectionState
  cache : Option IoBuffer
  pending_packet : Option (Packet α)
  ws_frame : FrameHeader
  ws_key : Bytes
  ws_closed : Bool
  transp : Transport
  calls : List (Call α)
  deriving DecidableEq

namespace Connection

variable {α : Type}

def stop (c : Connection α) : Connection α := { c with transp := c.transp.stop }

/-- `__async_read`. -/
def async_read (c : Connection α) : Bool × Connection α :=
  (c.transp.async_read.1, { c with transp := c.transp.async_read.2 })

/-- The header that `send` packs. -/
def message_header (c : Connection α) (b : Bytes) (text : Bool) : FrameHeader :=
  FrameHeader.construct true (if text then wscode_text else wscode_bin) (UInt64.ofNat b.length)
    c.ws_key

/-- `connection::send(b, size, text)`. The sum `16 + size` is one of
    `int32_t`. The payload is masked from `size` bytes before the start of
    the readable bytes on. -/
def send (a : Alloc) (c : Connection α) (b : Bytes) (text : Bool) :
    Option (Bool × Connection α) :=
  if !c.transp.started then some (false, c)
  else if 2 ^ 31 ≤ 16 + b.length then none
  else do
    match ← IoBuffer.create a (16 + b.length) with
    | none => some (false, c)
    | some iob =>
      let wf := c.message_header b text
      let r ← wf.pack_header a iob
      if !r.1 then some (false, c)
      else
        let r ← r.2.write a b
        if !r.1 then some (false, c)
        else
          let block ← wf.mask_payload (r.2.raw.getD []) ((r.2.rpos : Int) - b.length)
          let sent := c.transp.send { r.2 with raw := some block }
          some (sent.1, { c with transp := sent.2 })

/-- The body of the functions that send a control frame. -/
def send_websocket_control_frame (code : UInt8) (a : Alloc) (c : Connection α) :
    Option (Connection α) := do
  let iob ← (← IoBuffer.create a 16)
  let r ← (FrameHeader.construct true code 0 []).pack_header a iob
  if r.1 then some { c with transp := (c.transp.send r.2).2 } else some c

/-- `__send_websocket_ping_frame`. -/
def send_websocket_ping_frame (a : Alloc) (c : Connection α) : Option (Connection α) :=
  send_websocket_control_frame wscode_ping a c

/-- `__send_websocket_pong_frame`. -/
def send_websocket_pong_frame (a : Alloc) (c : Connection α) : Option (Connection α) :=
  send_websocket_control_frame wscode_pong a c

/-- `__send_wbesocket_close_frame`. -/
def send_wbesocket_close_frame (a : Alloc) (c : Connection α) : Option (Connection α) :=
  send_websocket_control_frame wscode_close a c

/-- The `switch` over the code of a frame with the payload `b`; `false` is
    the `return -1` of an unknown one. -/
def dispatch_frame (a : Alloc) (c : Connection α) (h : FrameHeader) (b : Bytes) :
    Option (Bool × Connection α) :=
  if h.code = wscode_slice ∨ h.code = wscode_text ∨ h.code = wscode_bin then
    some (true, { c with calls := c.calls ++ [.frame_cb b h.fin] })
  else if h.code = wscode_close then
    if c.ws_closed then some (true, c)
    else
      let c : Connection α := { c with ws_closed := true }
      (c.send_wbesocket_close_frame a).map fun c => (true, c.stop)
  else if h.code = wscode_ping then (c.send_websocket_pong_frame a).map fun c => (true, c)
  else if h.code = wscode_pong then some (true, c)
  else some (false, c)

/-- What `__handle_websocket_frame` does with a frame whose payload has
    arrived in `iob`: the success flag, the buffer behind the frame, and the
    connection. -/
def handle_frame (a : Alloc) (c : Connection α) (iob : IoBuffer) :
    Option (Bool × IoBuffer × Connection α) := do
  let h := c.ws_frame
  let block ← (if h.payload_len > 0 then h.mask_payload (iob.raw.getD []) iob.rpos
    else some (iob.raw.getD []))
  let iob := { iob with raw := iob.raw.map fun _ => block }
  let r ← c.dispatch_frame a h (iob.content.take h.payload_len.toNat)
  if !r.1 then some (false, iob, r.2)
  else some (true, (iob.shift h.payload_len.toNat).2, { r.2 with ws_frame := h.reset })

/-- `__handle_websocket_frame` on the bytes `b`: the number of bytes taken or
    `-1`, and what it left in the memory of `b`. -/
def handle_websocket_frame (a : Alloc) (c : Connection α) (b : Bytes) :
    Option (Int × Bytes × Connection α) := do
  let (ready, h, iob) ← c.ws_frame.receive_step (IoBuffer.create_by_reference b)
  let c := { c with ws_frame := h }
  let r ← (if ready then c.handle_frame a iob else some (true, iob, c))
  let block := r.2.1.raw.getD []
  if !r.1 then some (-1, block, r.2.2)
  else
    let read := r.2.2.async_read
    if !read.1 then some (-1, block, read.2)
    else some ((b.length : Int) - r.2.1.size, block, read.2)

/-- `__handle_http_packet` on the bytes `b`. -/
def handle_http_packet (K : Kind α) (c : Connection α) (b : Bytes) :
    Option (Int × Connection α) :=
  match c.pending_packet with
  | none => some (-1, c)
  | some p => do
    let parse_size : Int := match p.parse K b with
      | .took n _ => n
      | _ => -1
    let p ← (p.parse K b).state
    let c := { c with pending_packet := some p }
    if p.parse_status = .PARSE_FINISHED then
      some (parse_size, { c with calls := c.calls ++ [.packet_cb p] })
    else
      let read := c.async_read
      if !read.1 then some (-1, read.2) else some (parse_size, read.2)

/-- The `switch` of `on_read`. -/
def handle (a : Alloc) (K : Kind α) (c : Connection α) (b : Bytes) :
    Option (Int × Bytes × Connection α) :=
  match c.state with
  | state_started => (c.handle_http_packet K b).map fun r => (r.1, b, r.2)
  | state_upgraded => c.handle_websocket_frame a b
  | _ => some (-1, b, c)

/-- The block of `on_read` when there are cached bytes: the handler works in
    the memory of the cache. -/
def read_cached (a : Alloc) (K : Kind α) (c : Connection α) (cache : IoBuffer) (b : Bytes) :
    Option (Int × Connection α) := do
  let w ← cache.write a b
  let c : Connection α := { c with cache := some w.2 }
  if !w.1 then some (-1, c)
  else
    let r ← c.handle a K w.2.content
    let raw ← store (w.2.raw.getD []) w.2.rpos r.2.1
    let cache := { w.2 with raw := some raw }
    if r.1 = -1 then some (-1, { r.2.2 with cache := some cache })
    else some (r.1, { r.2.2 with cache := some (cache.shift r.1).2 })

/-- The block of `on_read` when the cache is empty. -/
def read_direct (a : Alloc) (K : Kind α) (c : Connection α) (cache : IoBuffer) (b : Bytes) :
    Option (Int × Connection α) := do
  let r ← c.handle a K b
  if r.1 ≠ -1 ∧ r.1 < b.length then
    let w ← cache.write a (r.2.1.drop r.1.toNat)
    some (r.1, { r.2.2 with cache := some w.2 })
  else some (r.1, r.2.2)

/-- The cache, created when there is none; the inner `none` is a failure. -/
def create_cache (a : Alloc) (c : Connection α) : Option (Option IoBuffer) :=
  match c.cache with
  | some cache => some (some cache)
  | none => IoBuffer.create a 0

/-- The `do { } while (false)` block of `on_read`, with `parse_size`. -/
def read_block (a : Alloc) (K : Kind α) (c : Connection α) (b : Bytes) :
    Option (Int × Connection α) := do
  match ← c.create_cache a with
  | none => some (-1, c)
  | some cache =>
    let c : Connection α := { c with cache := some cache }
    if cache.size > 0 then c.read_cached a K cache b else c.read_direct a K cache b

/-- The transport frees its read state and calls `connection::on_read` with
    the bytes it has read; `-1` is a parse error. -/
def on_read (a : Alloc) (K : Kind α) (c : Connection α) (b : Bytes) :
    Option (Int × Connection α) := do
  let c : Connection α := { c with transp := { c.transp with read_pending := false } }
  let r ← c.read_block a K b
  if r.1 = -1 then some (r.1, r.2.stop) else some r

/-- `on_read` on successive segments, with the parse sizes. -/
def read_all (a : Alloc) (K : Kind α) : Connection α → List Bytes → Option (List Int × Connection α)
  | c, [] => some ([], c)
  | c, seg :: segs => do
    let r ← c.on_read a K seg
    let rs ← read_all a K r.2 segs
    some (r.1 :: rs.1, rs.2)

/-- `send` of successive messages, when each of them returns `true`. -/
def send_all (a : Alloc) : Connection α → List (Bytes × Bool) → Option (Connection α)
  | c, [] => some c
  | c, msg :: msgs => do
    let r ← c.send a msg.1 msg.2
    if r.1 then send_all a r.2 msgs else none

end Connection

end Pump
