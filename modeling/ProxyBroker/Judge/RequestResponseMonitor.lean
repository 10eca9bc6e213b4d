/-
ProxyBroker.Judge.RequestResponseMonitor — the monitor of one request of
the judge (`RequestResponseMonitor.ts`): what the stream, the request and
the socket emit, and what the listeners write into the log.

`Requests.Monitor` has the errors and the end of a monitor only, which is
all the rest of the judge reads; `on_abs` says that it is this one with
the other fields forgotten.

An event that no method listens to does not reach the monitor and is no
step. An error is what `Exceptions.handle` makes of it. Of a log entry
there is its number, its prefix and its message with the parameters.

Left out: the headers of the request and of the response, which only the
callers read, `logToString`, the dates of the entries, and the trace line
`addLog` writes: the libraries behind it are taken to return.
-/
import ProxyBroker.Lib.JsValue
import ProxyBroker.Judge.Requests

namespace ProxyBroker.Judge

open Lib Server Proxy

namespace RequestResponseMonitor

/-! ## The log -/

/-- `MESSAGE`, as far as the monitor writes it, with the parameters. -/
inductive Message where
  | orq01 (uri proxyUri : Text)
  | orq02 (uri : Text)
  | orq03
  | rcl01 (length : Nat)
  | err01
  | err02 (error : Text)
  | err03
  | err04
  | err05
  | cne01
  | rcc01 (uri : Text) (duration : Option Int)
  | hed01 (header : Text)
  | osc01 (uri : Text)
  | osc02 (addr : Text) (port : Nat)
  | osc03
  | ose01
  | ost01 (duration : Option Int)
  | ots01 (duration : Option Int)
  deriving DecidableEq, Repr

/-- 'Connection closed' and 'Connection not established'. -/
def Message.closes : Message → Bool
  | .rcc01 _ _ | .cne01 => true
  | _ => false

/-- An entry; `mark` is its prefix. -/
structure ReqResEvent where
  nr : Nat
  mark : Char
  message : Message
  deriving DecidableEq, Repr

/-! ## The monitor -/

/-- `stopped` is the field `end`, a duration of `none` is `Infinity`.
`emitted` are the 'finished' events with their argument, `destroyed` what
the socket was destroyed with. -/
structure Monitor where
  /-- `mUrl.format` of the url and of the proxy's -/
  uri : Text
  proxy : Option Text
  start : Nat
  inc : Nat := 0
  logArr : List ReqResEvent := []
  length : Nat := 0
  errors : List JudgeError := []
  stopped : Option Nat := none
  duration : Option Int := none
  secured : Bool := false
  connected : Bool := false
  timeouted : Bool := false
  aborted : Bool := false
  isFinished : Bool := false
  sendedHead : Text := []
  receivedHead : Text := []
  receivedHeadDone : Bool := false
  emitted : List (Option JudgeError) := []
  destroyed : List Text := []
  deriving DecidableEq, Repr

namespace Monitor

def addLog (mark : Char) (m : Monitor) (message : Message) : Monitor :=
  { m with
    inc := m.inc + 1
    logArr := m.logArr ++ [{ nr := m.inc, mark := mark, message := message }] }

def addClientLog (m : Monitor) (message : Message) : Monitor := m.addLog '>' message

def addServerLog (m : Monitor) (message : Message) : Monitor := m.addLog '<' message

def stop (now : Nat) (m : Monitor) : Monitor :=
  { m with stopped := some now, duration := some ((now : Int) - m.start) }

def lastError (m : Monitor) : Option JudgeError := m.errors.getLast?

/-- The entries of messages, numbered from `nr`. -/
def entries (mark : Char) (nr : Nat) : List Message → List ReqResEvent
  | [] => []
  | message :: messages =>
      { nr := nr, mark := mark, message := message } :: entries mark (nr + 1) messages

/-- Messages logged one behind the other touch the log and nothing else. -/
theorem foldl_addLog {β : Type} (mark : Char) (f : β → Message) (xs : List β) (m : Monitor) :
    xs.foldl (fun m x => m.addLog mark (f x)) m =
      { m with
        inc := m.inc + xs.length
        logArr := m.logArr ++ entries mark m.inc (xs.map f) } := by
  induction xs generalizing m with
  | nil => simp [entries]
  | cons x xs ih =>
      rw [List.foldl_cons, ih]
      simp [addLog, entries, Nat.add_assoc, Nat.add_comm 1]

/-! ## Errors and the end -/

/-- `message.match(/pat/)` of a literal pattern. -/
def mentions (pat : String) (message : Text) : Bool := (indexOf? pat.toList message).isSome

/-- The entry `handleError` makes of a message, and the flag it sets. -/
def noteError (message : Text) (m : Monitor) : Monitor :=
  if mentions "ECONNREFUSED" message then
    { m with connected := false }.addLog '#' .err03
  else if mentions "ESOCKETTIMEDOUT" message || mentions "Timeout awaiting" message then
    { m with timeouted := true }.addLog '#' .err04
  else if mentions "socket hang up" message then
    { m with aborted := true }.addLog '#' .err05
  else m

/-- There is an error with this message. -/
def knows (m : Monitor) (message : Text) : Bool := m.errors.any (fun e => e.message == message)

def handleError (m : Monitor) (error : JudgeError) : Monitor :=
  if m.knows error.message then m
  else
    let m := m.noteError error.message
    { m with errors := m.errors ++ [error] }

def finished (now : Nat) (m : Monitor) : Monitor :=
  let m := m.stop now
  let lastError := m.lastError
  let m := if m.errors.isEmpty then m.addLog '*' (.rcl01 m.length) else m
  let m :=
    if lastError.isSome then
      m.errors.foldl (fun m err => m.addClientLog (.err02 err.message)) (m.addClientLog .err01)
    else m
  let m :=
    if lastError.isNone then m.addLog '*' (.rcc01 m.uri m.duration)
    else m.addLog '*' .cne01
  { m with isFinished := true, emitted := m.emitted ++ [lastError] }

/-! ## The listeners -/

/-- 'error' of the stream or of the request. -/
def onError (now : Nat) (error : JudgeError) (m : Monitor) : Monitor :=
  (m.handleError error).finished now

def onRequest (m : Monitor) : Monitor :=
  let m :=
    match m.proxy with
    | some proxyUri => m.addLog '*' (.orq01 m.uri proxyUri)
    | none => m.addLog '*' (.orq02 m.uri)
  m.addLog '*' .orq03

/-- The text in front of the first empty line. -/
def beforeEmptyLine (s : Text) : Text := (splitSeq ServerConnection.crlfcrlfText s).headD []

/-- `pendingData` is what the socket has to send, empty without any. -/
def onSocket (tls : Bool) (pendingData : Text) (m : Monitor) : Monitor :=
  let m := if tls then { m with secured := true } else m
  if pendingData ≠ [] then { m with sendedHead := beforeEmptyLine pendingData } else m

def onSocketClose (now : Nat) (m : Monitor) : Monitor := m.finished now

/-- `header: x ? x : '_UNKNOWN_'` -/
def headerMessage (x : Text) : Message := .hed01 (if x = [] then "_UNKNOWN_".toList else x)

/-- `addr` and `port` are the remote ones of the socket. -/
def onSocketConnect (addr : Text) (port : Nat) (m : Monitor) : Monitor :=
  let m := { m with errors := [], connected := true }
  let m :=
    match m.proxy with
    | some uri => m.addLog '*' (.osc01 uri)
    | none => m.addLog '*' (.osc02 addr port)
  let m := if m.secured then m.addLog '*' .osc03 else m
  if m.sendedHead ≠ [] then
    (m.sendedHead.splitOn '\n').foldl (fun m x => m.addClientLog (headerMessage x)) m
  else m

/-- `/^\d{3}$/` -/
def threeDigits (s : Text) : Bool := s.length = 3 && s.all Char.isDigit

/-- The status line refuses the request: the code in it is not 2xx. -/
def refuses (line : Text) : Bool :=
  match JsText.splitLimit ' ' 3 line with
  | [_, code, _] =>
      threeDigits code &&
        match JsValue.parseInt code with
        | .num code => !(200 ≤ code && code < 300)
        | _ => true
  | _ => false

/-- The first byte of a TLS record. -/
def startsTls (data : Bytes) : Bool :=
  data.head? = some 0x16 || data.head? = some 0x80 || data.head? = some 0x00

/-- The head is complete: what `onSocketData` does with it. -/
def onHead (receivedHead : Text) (m : Monitor) : Monitor :=
  let m := { m with receivedHead := receivedHead, receivedHeadDone := true }
  let headers := m.receivedHead.splitOn '\n'
  let m := headers.foldl (fun m x => m.addServerLog (headerMessage x)) m
  let httpHead := headers.headD []
  if refuses httpHead then { m with destroyed := m.destroyed ++ [httpHead] } else m

def onSocketData (m : Monitor) (data : Bytes) : Monitor :=
  let m := { m with length := m.length + data.length }
  if startsTls data || m.receivedHeadDone then m
  else
    let receivedHead := m.receivedHead ++ Utf8.decode data
    if (indexOf? ServerConnection.crlfcrlfText receivedHead).isSome then
      m.onHead (beforeEmptyLine receivedHead)
    else { m with receivedHead := receivedHead }

def onSocketEnd (m : Monitor) : Monitor := m.addClientLog .ose01

def onSocketError (error : JudgeError) (m : Monitor) : Monitor := m.handleError error

def onSocketLookup (error : Option JudgeError) (m : Monitor) : Monitor :=
  error.elim m m.handleError

def onSocketTimeout (now : Nat) (m : Monitor) : Monitor :=
  let m := m.stop now
  m.addLog '*' (.ost01 m.duration)

def onTLSSocketSecureConnect (now : Nat) (m : Monitor) : Monitor :=
  let m := m.stop now
  m.addLog '*' (.ots01 m.duration)

end Monitor

/-! ## Runs -/

/-- What the stream (`streamError`), the request (`requestError`,
`socket`) and the socket emit. -/
inductive Event where
  | streamError (e : JudgeError)
  | requestError (e : JudgeError)
  | request
  | socket (tls : Bool) (pendingData : Text)
  | connect (addr : Text) (port : Nat)
  | secureConnect
  | data (data : Bytes)
  | «end»
  | socketError (e : JudgeError)
  | lookup (e : Option JudgeError)
  | timeout
  | close
  deriving DecidableEq, Repr

/-- The listener ends in `finished`. -/
def Event.finishes : Event → Bool
  | .streamError _ | .requestError _ | .close => true
  | _ => false

namespace Monitor

/-- The listener of an event. -/
def on (now : Nat) (m : Monitor) : Event → Monitor
  | .streamError e | .requestError e => m.onError now e
  | .request => m.onRequest
  | .socket tls pendingData => m.onSocket tls pendingData
  | .connect addr port => m.onSocketConnect addr port
  | .secureConnect => m.onTLSSocketSecureConnect now
  | .data data => m.onSocketData data
  | .«end» => m.onSocketEnd
  | .socketError e => m.onSocketError e
  | .lookup e => m.onSocketLookup e
  | .timeout => m.onSocketTimeout now
  | .close => m.onSocketClose now

/-- Events with the times they come at. -/
def run (m : Monitor) (events : List (Nat × Event)) : Monitor :=
  events.foldl (fun m p => m.on p.1 p.2) m

/-- Chunks one behind the other. -/
def receive (m : Monitor) (chunks : List Bytes) : Monitor := chunks.foldl onSocketData m

end Monitor

/-- The constructor. -/
def newMonitor (uri : Text) (proxy : Option Text) (start : Nat) : Monitor :=
  { uri := uri, proxy := proxy, start := start }

end RequestResponseMonitor

end ProxyBroker.Judge
