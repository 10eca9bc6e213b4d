/-
ProxyBroker.Server.HttpsProxyAgent — how a tunnel over a proxy is opened
(`libs/overrides/https_proxy_agent.ts`): the agent sends CONNECT, collects
what the proxy answers until the empty line is there, and looks at the
status. With 200 the socket is the tunnel; with any other status what was
read is kept, and given out again once a request has the socket.

The events of the socket and of the request are actions. A `read` is one
call of `socket.read()`; behind a 'readable' event there is one, and after
a chunk that does not complete the head another one. Listeners that are
gone hear nothing, so `step` is `none` there.

Taken from the surroundings: `number`, which is `+text` where that is a
natural number, and `base64`. Left out: options that only go to
`net.connect` and `tls.connect`, and log lines.
-/
import ProxyBroker.Lib.Transition
import ProxyBroker.Server.Message

namespace ProxyBroker.Server.HttpsProxyAgent

open Lib

structure Env where
  number : Text → Option Nat
  base64 : Text → Text

/-- The options of a request (`opts`) and of the proxy. Header maps are
their entries in the order of their keys. -/
structure Options where
  host : Text
  port : Nat
  secureEndpoint : Bool
  servername : Option Text := none
  headers : List (Text × Text) := []
  proxyHeaders : Option (List (Text × Text)) := none
  auth : Option Text := none
  deriving DecidableEq, Repr

/-! ## The request -/

def isDefaultPort (port : Nat) (secure : Bool) : Bool :=
  (!secure && port == 80) || (secure && port == 443)

/-- `headers[name] = value` -/
def setHeader (headers : List (Text × Text)) (name value : Text) : List (Text × Text) :=
  if headers.any (·.1 = name) then
    headers.map (fun e => if e.1 = name then (name, value) else e)
  else headers ++ [(name, value)]

/-- `Object.assign(headers, more)` -/
def assign (headers more : List (Text × Text)) : List (Text × Text) :=
  more.foldl (fun headers e => setHeader headers e.1 e.2) headers

def decimal (n : Nat) : Text := Nat.toDigits 10 n

/-- The headers of the CONNECT request. -/
def connectHeaders (env : Env) (opts : Options) : List (Text × Text) :=
  let headers := assign [] opts.headers
  let headers :=
    match opts.proxyHeaders with
    | some proxyHeaders => assign headers proxyHeaders
    | none => headers
  let headers :=
    match opts.auth with
    | some auth =>
        if auth = [] then headers
        else setHeader headers "Proxy-Authorization".toList ("Basic ".toList ++ env.base64 auth)
    | none => headers
  -- the port is there when it is not the standard one
  let host :=
    if isDefaultPort opts.port opts.secureEndpoint then opts.host
    else opts.host ++ ':' :: decimal opts.port
  setHeader (setHeader headers "Host".toList host) "Connection".toList "close".toList

def hostname (opts : Options) : Text := opts.host ++ ':' :: decimal opts.port

def connectMessage (env : Env) (opts : Options) : Text :=
  "CONNECT ".toList ++ hostname opts ++ " HTTP/1.1".toList ++ crlfText ++
    (connectHeaders env opts).flatMap (fun e => e.1 ++ [':', ' '] ++ e.2 ++ crlfText) ++ crlfText

/-! ## The answer -/

/-- `buf.toString('ascii')`: the highest bit of a byte is dropped. -/
def asciiText (b : Bytes) : Text := b.map (fun x => Char.ofNat (x.toNat % 128))

/-- `Buffer.concat(list, totalLength)` -/
def concat (list : List Bytes) (totalLength : Nat) : Bytes :=
  (list.flatten ++ List.replicate (totalLength - list.flatten.length) 0).take totalLength

/-- A call of `fn`: with an error, or with a socket. `tls` is the
server name of the TLS connection that is put on top of it. -/
inductive Call where
  | error (err : Option JsError)
  | socket (tls : Option Text)
  deriving DecidableEq, Repr

structure Connect where
  buffers : List Bytes := []
  buffersLength : Nat := 0
  /-- `buffers` as the buffer that is given out again -/
  saved : Option Bytes := none
  /-- the listeners `cleanup` removes are there -/
  attached : Bool := true
  /-- 'abort' was not emitted yet -/
  abortable : Bool := true
  /-- `onsocket` waits for the 'socket' event -/
  awaiting : Bool := false
  destroyed : Bool := false
  calls : List Call := []
  /-- what was emitted as 'data' on the socket -/
  replayed : List Bytes := []
  /-- `onsocket` has thrown -/
  thrown : Bool := false
  deriving DecidableEq, Repr

inductive Action where
  /-- `socket.read()` returns a chunk, or null -/
  | read (b : Option Bytes)
  | error (err : JsError)
  | ended
  | closed
  /-- the request emits 'abort', with an error or without -/
  | abort (err : Option JsError)
  /-- the request emits 'socket'; so many listen to 'data' there -/
  | socket (listeners : Nat)
  deriving DecidableEq, Repr

def cleanup (s : Connect) : Connect := { s with attached := false }

/-- The status of the first line: `+firstLine.split(' ')[1]`. -/
def statusCode (env : Env) (str : Text) : Option Nat :=
  let firstLine := str.take ((indexOf? crlfText str).getD 0)
  (firstLine.splitOn ' ')[1]?.bind env.number

/-- What `fn` gets for a tunnel. An empty server name counts as none. -/
def tunnel (opts : Options) : Call :=
  .socket (if opts.secureEndpoint then some ((opts.servername.filter (· ≠ [])).getD opts.host)
    else none)

def ondata (env : Env) (opts : Options) (s : Connect) (b : Bytes) : Connect :=
  let buffers := s.buffers ++ [b]
  let buffersLength := s.buffersLength + b.length
  let buffered := concat buffers buffersLength
  let str := asciiText buffered
  match indexOf? (crlfText ++ crlfText) str with
  | none => { s with buffers := buffers, buffersLength := buffersLength }
  | some _ =>
      if statusCode env str = some 200 then
        let s := cleanup { s with buffers := [], buffersLength := buffersLength }
        { s with calls := s.calls ++ [tunnel opts] }
      else
        let s := cleanup { s with
          buffers := []
          buffersLength := buffersLength
          saved := some buffered
          awaiting := true }
        { s with calls := s.calls ++ [.socket none] }

/-- `onsocket`, for a Node that listens with 'data' listeners. -/
def onsocket (s : Connect) (listeners : Nat) : Connect :=
  if 0 < listeners then
    { s with awaiting := false, replayed := s.replayed ++ s.saved.toList, saved := none }
  else { s with awaiting := false, thrown := true }

def step (env : Env) (opts : Options) (s : Connect) : Action → Option Connect
  | .read b =>
      if s.attached then
        match b with
        | some b => some (ondata env opts s b)
        | none => some s
      else none
  | .error err =>
      if s.attached then
        let s := cleanup s
        some { s with calls := s.calls ++ [.error (some err)] }
      else none
  | .ended => if s.attached then some s else none
  | .closed => if s.attached then some s else none
  | .abort err =>
      if s.abortable then
        let s := cleanup { s with abortable := false, destroyed := true }
        some { s with calls := s.calls ++ [.error err] }
      else none
  | .socket listeners => if s.awaiting then some (onsocket s listeners) else none

def machine (env : Env) (opts : Options) : Machine Connect Action := ⟨step env opts⟩

end ProxyBroker.Server.HttpsProxyAgent
