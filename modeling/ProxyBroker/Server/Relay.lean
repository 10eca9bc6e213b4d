/-
ProxyBroker.Server.Relay — one downstream connection of a request:
`NetworkHelper.pipeConnection`, called by `connectToExternProxy` or
`root`, between the client socket and a downstream socket.

Three consumers share the client socket:

* the `SocketHandle` listener, from the accept on;
* the buffer given to `pipeConnection`, built once from the handle
  (plain HTTP) or from the request (CONNECT);
* the pipe into the downstream, attached by the connect callback.

An action is a socket event of the client, the call of `pipeConnection`,
or the connect callback, so a list of actions is one interleaving. An
attempt before this one leaves nothing here but the events its handle
saw: the client events before the call include them, as they include
those of an earlier request on the connection.

Left out: the log lines, and the pipe from the downstream to the client
(`Server.ProxyServer` has it).
-/
import ProxyBroker.Lib.Transition
import ProxyBroker.Server.SocketHandle

namespace ProxyBroker.Server

open Lib SocketHandle

/-! ## The text of a tunnel request -/

/-- What `connectToExternProxy` reads of a CONNECT request. -/
structure ConnectRequest where
  url : Text
  httpVersion : Text
  deriving DecidableEq, Repr

def connectStr (request : ConnectRequest) : Text :=
  "CONNECT ".toList ++ request.url ++ " HTTP/".toList ++ request.httpVersion ++ crlfText ++
    "Host: ".toList ++ request.url ++ crlfText ++ crlfText

/-! ## The machine -/

structure Relay where
  /-- the handle of the client socket -/
  handle : SocketHandle := {}
  /-- `head` of `pipeConnection`, once it is called; the inner `none` is
  null -/
  head : Option (Option Bytes) := none
  /-- the connect callback has run -/
  connected : Bool := false
  /-- the bytes written to the downstream -/
  downstream : Bytes := []
  deriving DecidableEq, Repr

namespace Relay

inductive Action where
  /-- an event of the client socket, or an edit of its handle -/
  | client (e : Event)
  /-- `pipeConnection(url, request.socket, requestHandle.build())` -/
  | pipeRequest
  /-- `pipeConnection(proxyUrl, upstream, connectStr)`; `head` is the
  argument of `onServerConnect`, which nothing reads -/
  | pipeTunnel (request : ConnectRequest) (head : Bytes)
  /-- the callback of `net.connect` -/
  | connect
  deriving DecidableEq, Repr

/-- An action that is not possible in this state gives `none`; so does an
exception in the `onData` listener, which ends the process. -/
def step (host : Host) (r : Relay) : Action → Option Relay
  | .client e =>
      match handleEvent host r.handle e with
      | .error _ => none
      | .ok handle =>
          -- the pipe, once attached, forwards what is emitted
          let piped := if r.connected then e.chunk?.getD [] else []
          some { r with handle := handle, downstream := r.downstream ++ piped }
  | .pipeRequest =>
      if r.head.isNone then some { r with head := some (build host r.handle) } else none
  | .pipeTunnel request _ =>
      if r.head.isNone then some { r with head := some (some (Utf8.encode (connectStr request))) }
      else none
  | .connect =>
      match r.head, r.connected with
      | some head, false =>
          some { r with connected := true, downstream := r.downstream ++ head.getD [] }
      | _, _ => none

def machine (host : Host) : Machine Relay Action where
  step := step host

/-! ## What should arrive -/

/-- The head `build` makes: request line and header block. A handle that
read no head has none, its bytes are sent as they came. -/
def builtHead (host : Host) (h : SocketHandle) : Bytes :=
  match h.query with
  | none => []
  | some query =>
      if h.sslDetect then []
      else query ++ crlf ++ buildHeaders host h.headersList ++ crlf ++ crlf

/-- How many bytes of the client the built head stands for. -/
def headBytes (h : SocketHandle) : Nat :=
  if h.query.isNone || h.sslDetect then 0
  else (h.data.getD []).length - (h.body.getD []).length

/-- An interleaving around one `pipeConnection`: the client events before
the call, between call and connect callback, and after it. -/
structure Schedule where
  early : List Event
  window : List Event
  late : List Event

def Schedule.actions (s : Schedule) (pipe : Action) : List Action :=
  s.early.map .client ++ pipe :: (s.window.map .client ++ .connect :: s.late.map .client)

def Schedule.events (s : Schedule) : List Event := s.early ++ (s.window ++ s.late)

/-- **Plain HTTP.** The run goes through and the downstream got the head
that was built, and then every byte of the client behind the head. -/
def RequestRelayed (host : Host) (s : Schedule) : Prop :=
  ∃ h r, runEvents host {} s.early = .ok h ∧
    (machine host).run {} (s.actions .pipeRequest) = some r ∧
    r.downstream = builtHead host h ++ (chunks s.events).flatten.drop (headBytes h)

/-- **CONNECT.** The run goes through and the downstream got the CONNECT
text, the bytes Node read behind the request (`head`), and every byte of
the client since the 'connect' event. The events before it, `before`,
belong to the request itself; `early` are those between the 'connect'
event and the call. -/
def TunnelRelayed (host : Host) (before : List Event) (s : Schedule) (request : ConnectRequest)
    (head : Bytes) : Prop :=
  ∃ r, (machine host).run {}
      (before.map .client ++ s.actions (.pipeTunnel request head)) = some r ∧
    r.downstream = Utf8.encode (connectStr request) ++ head ++ (chunks s.events).flatten

end Relay

end ProxyBroker.Server
