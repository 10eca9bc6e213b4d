/-
ProxyBroker.Server.SocketHandle — the handle the broker keeps on every
socket (`SocketHandle.ts`): it reads the head of what arrives, keeps the
bytes, and records how the socket ended.

One handle sits on a client connection (its `build` is what is sent to
the downstream) and one on every downstream connection (its `error`
decides whether the request is tried again).

Everything the code takes from its surroundings is a field of `Host`:
the locale's lower-casing, the bytes `Buffer.allocUnsafe` hands out
uninitialised, and the wrapper `Exceptions.handle` around an error.
`onData` returns `Except`: it runs as a 'data' listener, where an
exception is not caught and ends the process, so the state behind a
throw is of no interest.

Left out, because nothing modelled reads it: ids, dates, durations and
log lines, the options, and the `headers` field (`onData` and `build`
both overwrite it and read back only what they wrote).
-/
import ProxyBroker.Lib.JsText
import ProxyBroker.Lib.Search
import ProxyBroker.Lib.Utf8

namespace ProxyBroker.Server

open Lib

abbrev Bytes := List UInt8

abbrev Text := List Char

/-! ## What the code takes from its surroundings -/

/-- An `Error` object, as far as the code reads it. -/
structure JsError where
  message : Text
  deriving DecidableEq, Repr

/-- The exceptions the code below can run into. -/
inductive JsException where
  /-- a property of `undefined` was read -/
  | typeError
  /-- a buffer of negative size was asked for -/
  | rangeError
  deriving DecidableEq, Repr

structure Host where
  toLocaleLowerCase : Text → Text
  /-- `Exceptions.handle` -/
  handle : JsError → JsError
  /-- the memory `Buffer.allocUnsafe` returns -/
  uninitialised : Nat → Bytes
  uninitialised_length : ∀ n, (uninitialised n).length = n

/-- Surroundings to evaluate with: ASCII lower-casing, zeroed memory. -/
def Host.ascii : Host where
  toLocaleLowerCase := List.map Char.toLower
  handle := id
  uninitialised n := List.replicate n 0
  uninitialised_length _ := List.length_replicate

/-! ## Buffers -/

/-- `buf.indexOf(pat)`: -1 when there is none. -/
def bufIndexOf (pat buf : Bytes) : Int :=
  match indexOf? pat buf with
  | some i => i
  | none => -1

/-- `Buffer.allocUnsafe(size)`. -/
def allocUnsafe (host : Host) (size : Int) : Except JsException Bytes :=
  if size < 0 then .error .rangeError else .ok (host.uninitialised size.toNat)

/-- `target` after `source.copy(target, 0, sourceStart, sourceEnd)`. -/
def copy (source target : Bytes) (sourceStart sourceEnd : Nat) : Bytes :=
  let part := ((source.drop sourceStart).take (sourceEnd - sourceStart)).take target.length
  part ++ target.drop part.length

def crlf : Bytes := [0x0D, 0x0A]

def crlfcrlf : Bytes := [0x0D, 0x0A, 0x0D, 0x0A]

def crlfText : Text := ['\r', '\n']

/-! ## The handle -/

structure Header where
  key : Text
  orgKey : Text
  value : Text
  deriving DecidableEq, Repr

structure SocketHandle where
  /-- `meta.repeat`, set to 0 by `createSocketHandle` -/
  metaRepeat : Nat := 0
  finished : Bool := false
  data : Option Bytes := none
  error : Option JsError := none
  socketError : Bool := false
  statusCode : Option Nat := none
  sslDetect : Bool := false
  query : Option Bytes := none
  headersList : List Header := []
  body : Option Bytes := none
  /-- `socket.destroyed` -/
  destroyed : Bool := false
  deriving DecidableEq, Repr

namespace SocketHandle

/-! ## Reading -/

/-- The test on the first byte that takes a chunk for TLS. -/
def looksTls (data : Bytes) : Bool :=
  data.head? == some 0x16 || data.head? == some 0x80 || data.head? == some 0x00

/-- One header line: `_x.split(':', 2)`, both pieces trimmed. -/
def parseHeaderLine (host : Host) (x : Text) : Except JsException Header :=
  match JsText.splitLimit ':' 2 x with
  | name :: value :: _ =>
      .ok { key := host.toLocaleLowerCase (JsText.trim name)
            orgKey := JsText.trim name
            value := JsText.trim value }
  -- `split[1]` is undefined when the line has no colon
  | _ => .error .typeError

/-- `/ (\d{3}) /` at the start of a text. -/
def statusAt : Text → Option Nat
  | ' ' :: a :: b :: c :: ' ' :: _ =>
      if a.isDigit && b.isDigit && c.isDigit then
        some ((a.toNat - 48) * 100 + (b.toNat - 48) * 10 + (c.toNat - 48))
      else none
  | _ => none

/-- The first match of `/ (\d{3}) /`, as a number. -/
def statusMatch : Text → Option Nat
  | [] => none
  | x :: s => (statusAt (x :: s)).or (statusMatch s)

/-- The status line of the parsed head, when it is one. -/
def readStatus (host : Host) (query : Bytes) (h : SocketHandle) : SocketHandle :=
  let first := Utf8.decode query
  match statusMatch first with
  | some code =>
      { h with
        statusCode := some code
        error := if 400 ≤ code then some (host.handle ⟨first⟩) else h.error }
  | none => h

def onData (host : Host) (h : SocketHandle) (data : Bytes) :
    Except JsException SocketHandle :=
  if h.sslDetect || looksTls data then
    .ok { h with sslDetect := true }
  else
    match h.data with
    | some old =>
        .ok { h with data := some (old ++ data), body := h.body.map (· ++ data) }
    | none =>
        let headerEnd := bufIndexOf crlf data
        let headersEnd := bufIndexOf crlfcrlf data
        if headerEnd < headersEnd ∧ 0 < headersEnd then do
          let query ← allocUnsafe host headerEnd
          let headers ← allocUnsafe host (headersEnd - headerEnd - 2)
          let body ← allocUnsafe host (data.length - headersEnd - 4)
          let query := copy data query 0 headerEnd.toNat
          let headers := copy data headers (headerEnd + 2).toNat headersEnd.toNat
          let body := copy data body (headersEnd + 4).toNat data.length
          let list ← (splitSeq crlfText (Utf8.decode headers)).mapM (parseHeaderLine host)
          let parsed : SocketHandle :=
            { h with
              data := some data
              query := some query
              headersList := h.headersList ++ list
              body := some body }
          .ok (if 0 < query.length then readStatus host query parsed else parsed)
        else
          .ok { h with data := some data }

/-- A list of chunks given to `onData` one after the other. -/
def feed (host : Host) (h : SocketHandle) (chunks : List Bytes) :
    Except JsException SocketHandle :=
  chunks.foldlM (onData host) h

/-! ## Editing and rebuilding the head -/

def removeHeader (host : Host) (h : SocketHandle) (key : Text) : SocketHandle :=
  { h with headersList := h.headersList.filter (·.key ≠ host.toLocaleLowerCase key) }

def setHeader (host : Host) (h : SocketHandle) (orgKey value : Text) : SocketHandle :=
  let removed := removeHeader host h orgKey
  { removed with
    headersList := removed.headersList ++
      [{ key := host.toLocaleLowerCase orgKey, orgKey := orgKey, value := value }] }

/-- `strEntries` of `build`. -/
def strEntries (list : List Header) : Text :=
  crlfText.intercalate (list.map (fun x => x.orgKey ++ [':', ' '] ++ x.value))

/-- The header block `build` writes. The buffer has one byte for each
UTF-16 code unit of the text. -/
def buildHeaders (host : Host) (list : List Header) : Bytes :=
  Utf8.write (host.uninitialised (Utf8.units (strEntries list))) (strEntries list)

/-- `build()`, `none` being null. -/
def build (host : Host) (h : SocketHandle) : Option Bytes :=
  match h.query with
  | none => h.data
  | some query =>
      if h.sslDetect then h.data
      else
        -- `query` and `body` are set together
        some (query ++ crlf ++ buildHeaders host h.headersList ++ crlf ++ crlf ++ h.body.getD [])

/-! ## How the socket ends -/

def hasError (h : SocketHandle) : Bool := h.error.isSome

def hasSocketError (h : SocketHandle) : Bool := h.socketError

def finish (h : SocketHandle) : SocketHandle := { h with finished := true }

def onError (host : Host) (h : SocketHandle) (err : JsError) : SocketHandle :=
  finish { h with socketError := true, error := some (host.handle err) }

def esocketTimedOut : JsError := ⟨"ESOCKETTIMEDOUT".toList⟩

/-- The idle timeout. `destroy(err)` makes the socket emit 'error' before
any promise that waits for `finish` goes on, so `onError` has run when
the outcome is looked at. -/
def onTimeout (host : Host) (h : SocketHandle) : SocketHandle :=
  if h.destroyed then finish h
  else onError host (finish { h with destroyed := true }) esocketTimedOut

def onClose (h : SocketHandle) : SocketHandle := finish { h with destroyed := true }

/-! ## Everything that happens to a handle -/

/-- Everything that is done to a handle: socket events, the edits of
`onProxyRequest`, and the `finish` of a server that shuts down. -/
inductive Event where
  | data (chunk : Bytes)
  | removeHeader (key : Text)
  | setHeader (orgKey value : Text)
  | error (err : JsError)
  | timeout
  | close
  | finish
  deriving DecidableEq, Repr

def handleEvent (host : Host) (h : SocketHandle) : Event → Except JsException SocketHandle
  | .data chunk => onData host h chunk
  | .removeHeader key => .ok (removeHeader host h key)
  | .setHeader orgKey value => .ok (setHeader host h orgKey value)
  | .error err => .ok (onError host h err)
  | .timeout => .ok (onTimeout host h)
  | .close => .ok (onClose h)
  | .finish => .ok (finish h)

def runEvents (host : Host) (h : SocketHandle) (es : List Event) :
    Except JsException SocketHandle :=
  es.foldlM (handleEvent host) h

/-- The bytes an event brings. -/
def Event.chunk? : Event → Option Bytes
  | .data chunk => some chunk
  | _ => none

def chunks (es : List Event) : List Bytes := es.filterMap Event.chunk?

end SocketHandle

end ProxyBroker.Server
