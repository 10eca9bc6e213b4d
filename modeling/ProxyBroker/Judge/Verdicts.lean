/-
ProxyBroker.Judge.Verdicts — the judge's requests with the visits their
levels come from (`judge` of `Judge.ts`, the handler of its two servers, and
`onJudge` of `JudgeRequest.ts`).

In `Requests` a level is found at any time. Here every request has its
detector, and `judge` gets the path and the headers of a visit. What runs
of `onJudge` before its first await, `detect` with it, is one step: nothing
in `detect` waits.

`judge` answers 200 to the visit of a request that is there and has a
monitor, 400 where none is cached or the judge is down, and 404 to paths it
does not know. It rejects, and answers nothing, where it finds a request
without a monitor or a name every object has, and for a url without a path.

Left out: the bodies of the answers and the log entries.
-/
import ProxyBroker.Judge.LevelTheorems
import ProxyBroker.Judge.Requests
import ProxyBroker.Lib.LegacyUrl
import ProxyBroker.Proxy.CheckRequest

namespace ProxyBroker.Judge

open Lib Server Proxy

namespace Verdicts

/-- A request to one of the judge's servers: the path of its url, its
headers and, as history, the status of the answer. -/
structure Visit where
  path : Option Text
  headers : List (Text × Text)
  statusCode : Option Nat
  deriving DecidableEq, Repr

/-- `proxy_ip` of a request, the host of its `proxy_url`. -/
def proxyIp (protocolFrom : ProtocolType) (ip : Text) (port : Nat) : Text :=
  let proxyUrl := CheckRequest.protocolText protocolFrom ++ "://".toList ++
    (ip ++ ':' :: CheckRequest.portText port)
  (LegacyUrl.parse proxyUrl).hostname.getD []

end Verdicts

open Verdicts

structure Verdicts where
  requests : Requests := {}
  /-- `level_detector`, for each of the requests -/
  detectors : List LevelDetection := []
  visits : List Visit := []
  deriving Repr

namespace Verdicts

/-! ## A visit -/

/-- The cached request whose `onJudge` gets behind its monitor. -/
def visited (s : Verdicts) (reqId : Text) (enabled : Bool) : Option Nat := do
  guard enabled
  let i ← s.requests.cache.lookup reqId
  let r ← s.requests.requests[i]?
  let _ ← r.monitor
  return i

def statusCode (s : Verdicts) (path : Option Text) (enabled : Bool) : Option Nat := do
  let path ← path
  match ServerConnection.judgeId path with
  | some reqId =>
      if s.requests.cached reqId && enabled then (s.visited reqId enabled).map (fun _ => 200)
      else some 400
  | none =>
      if (ServerConnection.pathPieces path).head? = some "ping".toList then some 200 else some 404

def note (path : Option Text) (headers : List (Text × Text)) (enabled : Bool) (s : Verdicts) :
    Verdicts :=
  { s with visits := s.visits ++ [⟨path, headers, s.statusCode path enabled⟩] }

/-! ## Steps -/

inductive Action where
  | validate (ip : Text) (port : Nat) (enable : Requests.Enable) (addr : Option Text)
  | prepared (request : Nat) (outcome : Except Requests.Rejection Nat)
  | emit (request now : Nat) (e : Requests.MonitorEvent)
  | judge (path : Option Text) (headers : List (Text × Text)) (now : Nat) (enabled : Bool)
  | socketEnds (id : Text)
  | pending
  | goOn (handle : Nat)
  deriving Repr

section

variable (ids : Nat → Text) (toLocaleLowerCase : Text → Text)

-- what the lookups answer while a request prepares its detector
variable (dns : Nat → DomainUtils)

variable (localIp : Text)

/-- What is a step of the requests alone. -/
def pass (s : Verdicts) (a : Requests.Action) : Option Verdicts :=
  (Requests.step ids s.requests a).map (fun requests => { s with requests := requests })

/-- `handleRequest` up to its await; `performRequest` makes the detector. -/
def handleRequest (validation : Nat) (addr : Text) (port : Nat) (s : Verdicts)
    (pair : ProtocolType × ProtocolType) : Verdicts :=
  { s with
    requests := s.requests.handleRequest ids validation pair
    detectors := s.detectors ++ [{ proxyIp := proxyIp pair.1 addr port, localIp := localIp }] }

/-- `validate`, as in `Requests`. -/
def validate (ip : Text) (port : Nat) (enable : Requests.Enable) (addr : Option Text)
    (s : Verdicts) : Verdicts :=
  match addr with
  | none => s
  | some addr =>
      (Requests.pairs enable).foldl
        (handleRequest ids localIp s.requests.validations.length addr port)
        { s with requests := { s.requests with
            validations := s.requests.validations ++
              [{ enable := enable, host := ip, ip := addr, port := port }] } }

/-- `addRecvHeader` and `detect`. -/
def detect (headers : List (Text × Text)) (d : LevelDetection) : LevelDetection :=
  (d.addRecvHeader headers).detect toLocaleLowerCase

def setDetector (s : Verdicts) (i : Nat) (f : LevelDetection → LevelDetection) : Verdicts :=
  { s with detectors := s.detectors.modify i f }

/-- The detector behind `prepare`. -/
def prepareDetector (dns : DomainUtils) (outcome : Except Requests.Rejection Nat)
    (d : LevelDetection) : LevelDetection :=
  match outcome with
  | .error .lookupFailed => d
  | _ => d.prepare dns

/-- `judge`. -/
def judge (path : Option Text) (headers : List (Text × Text)) (now : Nat) (enabled : Bool)
    (s : Verdicts) : Option Verdicts := do
  match path.bind ServerConnection.judgeId with
  | none => return s.note path headers enabled
  | some reqId =>
      let t ← (s.note path headers enabled).pass ids (.judge reqId now enabled)
      match s.visited reqId enabled with
      | none => return t
      | some i =>
          let t := t.setDetector i (detect toLocaleLowerCase headers)
          let d ← t.detectors[i]?
          t.pass ids (.detected i d.level)

def step (s : Verdicts) : Action → Option Verdicts
  | .validate ip port enable addr => some (s.validate ids localIp ip port enable addr)
  | .prepared i outcome =>
      (s.setDetector i (prepareDetector (dns i) outcome)).pass ids (.prepared i outcome)
  | .emit i now e => s.pass ids (.emit i now e)
  | .judge path headers now enabled => s.judge ids toLocaleLowerCase path headers now enabled
  | .socketEnds id => s.pass ids (.socketEnds id)
  | .pending => s.pass ids .pending
  | .goOn k => s.pass ids (.goOn k)

/-- A judge with its visitors. -/
def machine : Machine Verdicts Action := ⟨step ids toLocaleLowerCase dns localIp⟩

end

end Verdicts

end ProxyBroker.Judge
