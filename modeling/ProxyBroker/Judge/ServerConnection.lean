/-
ProxyBroker.Judge.ServerConnection — what the judge reads of a connection
before its http server does (`Judge.ts`, `onServerConnection`): the first
chunk is cut into lines, and if its path asks for a cached request, the
lines go into the log of that request's monitor.

The cache is a plain object, so looking up a name that every object
inherits finds a function or an object: something without a monitor. A
request is cached before `performRequest` gives it its monitor.

The listener may read a property of undefined or null; it runs as a
'data' listener, where an exception ends the process.

Of a monitor there is its log, of an entry its number, the header line
and the prefix; the entry's connection id and date are left out. So is
the trace line `addLog` writes: the libraries behind it are taken to
return.
-/
import ProxyBroker.Judge.LevelDetection
import ProxyBroker.Server.SocketHandle

namespace ProxyBroker.Judge

open Lib Server

namespace ServerConnection

/-! ## The cache -/

/-- An entry `addLog(MESSAGE.HED01.k, …)` makes. -/
structure LogEntry where
  nr : Nat
  header : Text
  prefixed : Text
  deriving DecidableEq, Repr

structure Monitor where
  inc : Nat := 0
  logArr : List LogEntry := []
  deriving DecidableEq, Repr

def Monitor.addLog (m : Monitor) (header prefixed : Text) : Monitor where
  inc := m.inc + 1
  logArr := m.logArr ++ [{ nr := m.inc, header := header, prefixed := prefixed }]

/-- A cached `JudgeRequest`. -/
structure CachedRequest where
  monitor : Option Monitor := none
  deriving DecidableEq, Repr

abbrev Cache := List (Text × CachedRequest)

/-- The names every object inherits. -/
def objectPrototype : List Text :=
  ["constructor", "hasOwnProperty", "isPrototypeOf", "propertyIsEnumerable", "toLocaleString",
    "toString", "valueOf", "__defineGetter__", "__defineSetter__", "__lookupGetter__",
    "__lookupSetter__", "__proto__"].map String.toList

/-- What `cache[id]` is. -/
inductive Property where
  | own (request : CachedRequest)
  /-- truthy, and without a `monitor` -/
  | inherited
  | undefined
  deriving DecidableEq, Repr

def get (cache : Cache) (id : Text) : Property :=
  match cache.lookup id with
  | some request => .own request
  | none => if objectPrototype.contains id then .inherited else .undefined

/-- `cache[id].monitor = monitor`, in place. -/
def setMonitor (cache : Cache) (id : Text) (monitor : Monitor) : Cache :=
  cache.map (fun p => if p.1 = id then (p.1, { monitor := some monitor }) else p)

/-! ## The first chunk -/

def crlfcrlfText : Text := ['\r', '\n', '\r', '\n']

/-- The text up to the end of the head. -/
def receivedHead (data : Bytes) : Text :=
  let receivedHead := Utf8.decode data
  if (indexOf? crlfcrlfText receivedHead).isSome then
    (splitSeq crlfcrlfText receivedHead).headD []
  else receivedHead

/-- `x || x.length !== 0`, of the pieces of a path. -/
def pathPieces (path : Text) : List Text := (path.splitOn '/').filter (fun x => !x.isEmpty)

/-- The request id a path asks for. -/
def judgeId (path : Text) : Option Text :=
  match pathPieces path with
  | [firstPath, reqId] => if firstPath = "judge".toList then some reqId else none
  | _ => none

/-- The head lines go to the monitor's log. -/
def addLogs (headers : List Text) (m : Monitor) : Monitor :=
  headers.foldl
    (fun m head => m.addLog (if head.isEmpty then "_UNKNOWN_".toList else head) ">>".toList) m

/-- The 'data' listener. -/
def onData (cache : Cache) (enabled : Bool) (data : Bytes) : Except JsException Cache :=
  if SocketHandle.looksTls data then .ok cache
  else
    let headers := splitSeq crlfText (receivedHead data)
    let head := JsText.splitSpaces (headers.headD [])
    match head.tail with
    -- `path` is undefined
    | [] => .error .typeError
    | path :: _ =>
        match judgeId path with
        | none => .ok cache
        | some reqId =>
            match get cache reqId with
            | .undefined => .ok cache
            | .inherited => if enabled then .error .typeError else .ok cache
            | .own request =>
                if enabled then
                  match request.monitor with
                  | some monitor => .ok (setMonitor cache reqId (addLogs headers monitor))
                  | none => .error .typeError
                else .ok cache

end ServerConnection

end ProxyBroker.Judge
