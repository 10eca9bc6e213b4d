/-
ProxyBroker.Judge.Requests — the judge's requests and its cache of them
(`Judge.ts`: `createRequest`, `handleRequest`, `validate`, `judge`,
`pending`; `performRequest` and `result` of `JudgeRequest.ts` with the
`RequestResponseMonitor` they rest on).

A call of `handleRequest` is cut at its one await. Its first part creates
the request, caches it and starts `performRequest`; the second takes the
result out of the request, removes it from the cache and clears it. The
`then` behind it, which pushes the variant, and the `catch`, which only
logs, belong to the second part here: nothing reads the variants in
between.

`performRequest` gets as far as its monitor or rejects. The promise of a
monitor never rejects, so behind that point it can only resolve, or wait
for ever when `clear` has taken its listener away.

Two others remove requests from the cache: the listeners `judge` puts on
the socket of a proxy that reaches it, and `pending`.

Left out: what is sent and to which url, the log entries, the judge's
flag (the actions say whether it is up where that matters), its lock and
its servers.
-/
import ProxyBroker.Judge.JudgeRequest
import ProxyBroker.Judge.ServerConnection
import ProxyBroker.Proxy.Storage

namespace ProxyBroker.Judge

open Lib Server Proxy

namespace Requests

/-! ## The monitor -/

/-- `RequestResponseMonitor`; `stopped` is its `end`. -/
structure Monitor where
  start : Nat
  stopped : Option Nat := none
  errors : List JudgeError := []
  /-- the listener of `promise` is there -/
  awaited : Bool := true
  deriving DecidableEq, Repr

/-- What the stream, the request and the socket emit. -/
inductive MonitorEvent where
  /-- 'error' of the stream or of the request -/
  | error (e : JudgeError)
  | socketError (e : JudgeError)
  | lookup (e : Option JudgeError)
  | connect
  | secureConnect
  | timeout
  | close
  deriving DecidableEq, Repr

namespace Monitor

def stop (now : Nat) (m : Monitor) : Monitor := { m with stopped := some now }

/-- In milliseconds; `none` is `Infinity`. -/
def duration (m : Monitor) : Option Int := m.stopped.map (fun e => (e : Int) - m.start)

def handleError (e : JudgeError) (m : Monitor) : Monitor :=
  if m.errors.any (fun e' => e'.message == e.message) then m
  else { m with errors := m.errors ++ [e] }

def lastError (m : Monitor) : Option JudgeError := m.errors.getLast?

def clear (m : Monitor) : Monitor := { m with awaited := false }

/-- The listener of an event. -/
def on (now : Nat) (m : Monitor) : MonitorEvent → Monitor
  | .error e => (m.handleError e).stop now
  | .socketError e => m.handleError e
  | .lookup e => e.elim m m.handleError
  | .connect => { m with errors := [] }
  | .secureConnect | .timeout | .close => m.stop now

end Monitor

/-- The listener ends in `finished`. -/
def MonitorEvent.finishes : MonitorEvent → Bool
  | .error _ | .close => true
  | _ => false

/-! ## A request -/

/-- Why `performRequest` rejects. -/
inductive Rejection where
  /-- the level detector finds no address -/
  | lookupFailed
  /-- the http client throws -/
  | clientThrows
  | notAStream
  deriving DecidableEq, Repr

/-- How far `performRequest` is. -/
inductive Progress where
  | preparing
  | rejected (e : Rejection)
  /-- the monitor is there; `finished` tells that its promise is resolved -/
  | monitored (monitor : Monitor) (finished : Bool)
  deriving DecidableEq, Repr

structure JudgeRequest where
  active : Bool := true
  level : Int := -1
  progress : Progress := .preparing
  deriving DecidableEq, Repr

namespace JudgeRequest

/-- The field `monitor`, null until there is one. -/
def monitor (r : JudgeRequest) : Option Monitor :=
  match r.progress with
  | .monitored m _ => some m
  | _ => none

/-- `performRequest` has rejected. -/
def rejects (r : JudgeRequest) : Bool :=
  match r.progress with
  | .rejected _ => true
  | _ => false

/-- `performRequest` has settled. -/
def ended (r : JudgeRequest) : Bool :=
  match r.progress with
  | .preparing => false
  | .rejected _ => true
  | .monitored _ finished => finished

/-- `performRequest` behind `prepare`, with the time if there is a stream. -/
def prepared (outcome : Except Rejection Nat) (r : JudgeRequest) : JudgeRequest :=
  match outcome with
  | .error e => { r with progress := .rejected e }
  | .ok now => { r with progress := .monitored { start := now } false }

def emit (now : Nat) (e : MonitorEvent) (r : JudgeRequest) : JudgeRequest :=
  match r.progress with
  | .monitored m finished =>
      { r with progress := .monitored (m.on now e) (finished || m.awaited && e.finishes) }
  | _ => r

/-- `onJudge` up to its await; without a monitor it rejects. -/
def onJudge (now : Nat) (r : JudgeRequest) : JudgeRequest :=
  match r.progress with
  | .monitored m finished => { r with progress := .monitored (m.stop now) finished }
  | _ => r

def clear (r : JudgeRequest) : JudgeRequest :=
  if !r.active then r
  else
    match r.progress with
    | .monitored m finished => { r with active := false, progress := .monitored m.clear finished }
    | _ => { r with active := false }

/-- A monitor that has finished is stopped, so its `end` is no null and its
duration is a number. -/
def result (r : JudgeRequest) (protocolFrom protocolTo : ProtocolType) :
    Except JsException JudgeResult := do
  -- `this.monitor.start`
  let m ← Judge.JudgeRequest.deref r.monitor
  return {
    error := m.lastError
    protocolFrom := protocolFrom
    protocolTo := protocolTo
    level := r.level
    duration := m.duration.getD (-1)
    start := m.start
    stop := m.stopped.getD 0 }

end JudgeRequest

/-! ## The judge -/

/-- A call of `handleRequest`: its request, the validation it belongs to,
and what its promise is settled with. -/
structure HandleRequest where
  id : Text
  request : Nat
  validation : Nat
  protocolFrom : ProtocolType
  protocolTo : ProtocolType
  outcome : Option (Except JsException JudgeResult) := none
  deriving Repr

structure Enable where
  http : Bool := true
  https : Bool := true
  deriving DecidableEq, Repr

/-- A call of `validate`. -/
structure Validation where
  enable : Enable
  host : Text
  ip : Text
  port : Nat
  results : JudgeResults := {}
  deriving DecidableEq, Repr

end Requests

open Requests

structure Requests where
  inc : Nat := 0
  cache : List (Text × Nat) := []
  cacheSum : Int := 0
  /-- the request objects; elsewhere they are indices into this list -/
  requests : List Requests.JudgeRequest := []
  /-- the listeners `judge` has put on sockets, by the id they remove -/
  listeners : List Text := []
  handles : List HandleRequest := []
  validations : List Validation := []
  /-- history: what `pending` and the sockets have removed -/
  removed : List Text := []
  deriving Repr

namespace Requests

def addToCache (id : Text) (request : Nat) (s : Requests) : Requests :=
  { s with cacheSum := s.cacheSum + 1, cache := s.cache ++ [(id, request)] }

/-- `this.cache[id]` is truthy. -/
def cached (s : Requests) (id : Text) : Bool :=
  (s.cache.lookup id).isSome || ServerConnection.objectPrototype.contains id

def removeFromCache (id : Text) (s : Requests) : Requests :=
  if s.cached id then
    { s with cacheSum := s.cacheSum - 1, cache := s.cache.filter (fun p => p.1 ≠ id) }
  else s

/-- The same by another than `handleRequest`. -/
def removeByOther (id : Text) (s : Requests) : Requests :=
  if s.cached id then { s.removeFromCache id with removed := s.removed ++ [id] } else s

def setRequest (s : Requests) (i : Nat) (f : JudgeRequest → JudgeRequest) : Requests :=
  { s with requests := s.requests.modify i f }

/-- `cacheKeys.map(…)` of `pending`. -/
def clearCache (s : Requests) : Requests :=
  s.cache.foldl (fun s p => (s.setRequest p.2 .clear).removeByOther p.1) s

/-- Source and destination protocols of the requests of a validation. -/
def pairs (enable : Enable) : List (ProtocolType × ProtocolType) :=
  (if enable.http then [(.http, .http), (.http, .https)] else []) ++
    (if enable.https then [(.https, .http), (.https, .https)] else [])

section

-- the hash `createRequest` makes for a value of `inc`
variable (ids : Nat → Text)

/-- `createRequest` and the first part of `performRequest`. -/
def createRequest (s : Requests) : Requests :=
  addToCache (ids s.inc) s.requests.length
    { s with inc := s.inc + 1, requests := s.requests ++ [{ progress := .preparing }] }

/-- `handleRequest` up to its await. -/
def handleRequest (validation : Nat) (s : Requests) (pair : ProtocolType × ProtocolType) :
    Requests :=
  { s.createRequest ids with
    handles := s.handles ++ [{
      id := ids s.inc
      request := s.requests.length
      validation := validation
      protocolFrom := pair.1
      protocolTo := pair.2 }] }

/-- `validate`, where `addr` is what `domainLookup` finds. Without an
address it rejects at once. -/
def validate (ip : Text) (port : Nat) (enable : Enable) (addr : Option Text) (s : Requests) :
    Requests :=
  match addr with
  | none => s
  | some addr =>
      (pairs enable).foldl (handleRequest ids s.validations.length)
        { s with validations := s.validations ++
          [{ enable := enable, host := ip, ip := addr, port := port }] }

/-- `results.variants.push(result)` -/
def Validation.push (result : JudgeResult) (v : Validation) : Validation :=
  { v with results := { v.results with variants := v.results.variants ++ [result] } }

/-- `handleRequest` behind its await, and the `then` or `catch` of its
promise. -/
def goOn (s : Requests) (k : Nat) (h : HandleRequest) (r : JudgeRequest) : Requests :=
  match r.result h.protocolFrom h.protocolTo with
  | .error e => { s with handles := s.handles.set k { h with outcome := some (.error e) } }
  | .ok result =>
      let s := (s.removeFromCache h.id).setRequest h.request .clear
      { s with
        handles := s.handles.set k { h with outcome := some (.ok result) }
        validations := s.validations.modify h.validation (·.push result) }

/-! ## Steps -/

inductive Action where
  | validate (ip : Text) (port : Nat) (enable : Enable) (addr : Option Text)
  /-- the level detector of a request is prepared and the client is asked,
  or one of them fails -/
  | prepared (request : Nat) (outcome : Except Rejection Nat)
  | emit (request now : Nat) (e : MonitorEvent)
  /-- the judge's server is asked for `/judge/<id>` -/
  | judge (id : Text) (now : Nat) (enabled : Bool)
  /-- `detect` has found the level -/
  | detected (request : Nat) (level : Int)
  /-- 'end' or 'error' of a socket `judge` listens to -/
  | socketEnds (id : Text)
  /-- `pending` while the judge is up -/
  | pending
  /-- a call of `handleRequest` goes on -/
  | goOn (handle : Nat)
  deriving Repr

def step (s : Requests) : Action → Option Requests
  | .validate ip port enable addr => some (s.validate ids ip port enable addr)
  | .prepared i outcome =>
      match s.requests[i]? with
      | some r =>
          if r.progress = .preparing then some (s.setRequest i (.prepared outcome)) else none
      | none => none
  | .emit i now e => some (s.setRequest i (.emit now e))
  | .judge id now enabled =>
      if s.cached id then
        let s := { s with listeners := s.listeners ++ [id, id] }
        match s.cache.lookup id with
        | some i => some (if enabled then s.setRequest i (.onJudge now) else s)
        -- not a request: `onJudge` is no function, `judge` rejects
        | none => some s
      else some s
  | .detected i level => some (s.setRequest i (fun r => { r with level := level }))
  | .socketEnds id =>
      if s.listeners.contains id then
        some { s.removeByOther id with listeners := s.listeners.erase id }
      else none
  | .pending => some s.clearCache
  | .goOn k =>
      match s.handles[k]? with
      | some h =>
          match s.requests[h.request]? with
          | some r =>
              if h.outcome.isNone ∧ r.ended then some (s.goOn k h r) else none
          | none => none
      | none => none

/-- The requests of a judge. -/
def machine : Machine Requests Action := ⟨step ids⟩

end

end Requests

end ProxyBroker.Judge
