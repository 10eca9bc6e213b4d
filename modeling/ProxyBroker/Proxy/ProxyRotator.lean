/-
ProxyBroker.Proxy.ProxyRotator — the list of checked proxies in memory
(`ProxyRotator.ts`): `take` hands one out, `doLog` books the outcome,
`do` adds a proxy whose health check succeeded, `onEmpty` and
`removeUnusedProxies` tidy up.

Entries are objects: the same object sits in the list, in the hands of
callers, in queued jobs and in suspended calls. So the state has a heap
of objects, and the list holds references.

`doLog` is the one method suspended in between. Its parts are steps of
their own: the call (which looks the entry up), the reads of its
transaction, the commit, and the rest behind the transaction, which
changes the list. A step may come anywhere between the steps of other
calls.

Health checks are over-approximated: a check of any object of the heap
may succeed at any moment. What a query of the database returned is in
the heap from the start.

Left out: the queue and the database queries behind `doEnqueue`, with
the query cache, which do not touch the list; log lines.
-/
import Mathlib.Data.List.Sort
import ProxyBroker.Lib.Transition
import ProxyBroker.Proxy.ProxySelector

namespace ProxyBroker.Proxy

open Lib Server

/-- The identity of an object. -/
abbrev Ref := Nat

/-- `IProxyRotatorOptions`: `cleanup.timeOffset` is in seconds. -/
structure RotatorOptions where
  reuse : Nat := 10
  timeOffset : Nat := 3600
  deriving DecidableEq, Repr

/-- The stored row of an address. -/
structure AddrRow where
  id : Nat
  ip : Text
  port : Nat
  blocked : Bool := false
  toDelete : Bool := false
  deriving DecidableEq, Repr

/-- Where a `doLog` call is suspended. -/
inductive LogStage where
  /-- in front of its transaction -/
  | called
  /-- the rows are read; no rotate row means a new one is inserted -/
  | read (addrId : Nat) (rotate : Option IpRotate)
  /-- the transaction is committed -/
  | committed (rotate : IpRotate) (remove : Bool)
  deriving DecidableEq, Repr

/-- A `doLog` call; `addr` is the entry it found when it was called. -/
structure LogCall where
  used : ProxyUsed
  addr : Option Ref
  stage : LogStage := .called
  deriving DecidableEq, Repr

structure Rotator where
  heap : Ref → IpAddr
  activeList : List Ref := []
  /-- milliseconds -/
  clock : Nat := 0
  addrs : List AddrRow := []
  rotates : List IpRotate := []
  logs : List LogCall := []
  /-- history: the addresses a `doLog` has committed as blocked -/
  blocked : List (Text × Nat) := []
  /-- history: those whose `doLog` has gone on behind the transaction -/
  settled : List (Text × Nat) := []

namespace Rotator

/-! ## The list -/

def modify (s : Rotator) (r : Ref) (f : IpAddr → IpAddr) : Rotator :=
  { s with heap := Function.update s.heap r (f (s.heap r)) }

def findActiveEntry (s : Rotator) (ip : Text) (port : Nat) (protocolDest : ProtocolType) :
    Option Ref :=
  s.activeList.find? (fun x =>
    (s.heap x).ip = ip && (s.heap x).port = port && (s.heap x).state.protocolDest = protocolDest)

/-- What `cleanupList` removes. The fractions .15 and .30 are compared
exactly. -/
def unhealthy (r : IpAddr) : Bool :=
  (9 < r.used && r.success * 100 ≤ 15 * r.used) && (99 < r.used && r.success * 100 ≤ 30 * r.used)

def cleanupList (s : Rotator) : Rotator :=
  { s with activeList := s.activeList.filter (fun r => !unhealthy (s.heap r)) }

/-- The order of `orderActiveList`. Its second key, 'update_at', is a
property no entry has: it is undefined everywhere and orders nothing. -/
def before (a b : IpAddr) : Prop :=
  a.odd < b.odd ∨ a.odd = b.odd ∧
    (b.success < a.success ∨ b.success = a.success ∧ a.durationAvg ≤ b.durationAvg)

instance (a b : IpAddr) : Decidable (before a b) := inferInstanceAs (Decidable (_ ∨ _))

def orderActiveList (s : Rotator) : Rotator :=
  { s with activeList := s.activeList.insertionSort (fun a b => before (s.heap a) (s.heap b)) }

/-- The pause counter in `updateList`. -/
def stepOdd (options : RotatorOptions) (addr : IpAddr) : IpAddr :=
  if addr.odd % options.reuse ≠ 0 ∧ 0 < addr.used then { addr with odd := addr.odd + 1 }
  else { addr with odd := 0 }

/-- The `forEach` of `updateList`. -/
def stepOdds (options : RotatorOptions) (s : Rotator) : Rotator :=
  s.activeList.foldl (fun s r => s.modify r (stepOdd options)) s

def updateList (options : RotatorOptions) (s : Rotator) : Rotator :=
  (stepOdds options s.cleanupList).orderActiveList

def useAddr (s : Rotator) (addr : Ref) : Rotator :=
  s.modify addr (fun a => { a with odd := 1, used := a.used + 1, updatedAt := s.clock })

/-! ## `take` -/

/-- The `findIndex` of `take`. -/
def eligible (s : Rotator) (selector : Object) (r : Ref) : Bool :=
  let value := s.heap r
  value.odd = 0 && !(s.clock < value.updatedAt + 2000) && selectorMatches selector value.state

/-- The entry `take` finds on its fast path. -/
def found (s : Rotator) (selector : Object) : Option Ref :=
  s.activeList.find? (s.eligible selector)

/-- `take` up to its first await; `elapsed` is the time between the two
readings of the clock. -/
def take (options : RotatorOptions) (s : Rotator) (selector : Object) (elapsed : Nat) : Rotator :=
  let addr := s.found selector
  let s := { s.updateList options with clock := s.clock + elapsed }
  match addr with
  | some addr => s.useAddr addr
  | none => s

/-- What `next` hands out on its fast path. -/
def next (s : Rotator) (select : Object) : Option Ref := s.found (parseProxyHeader select)

/-! ## `do` -/

/-- What `do` sets on an object it lists. -/
def listed (now : Nat) (w : IpAddr) : IpAddr :=
  { w with
    success := (w.rotate.map (·.successes)).getD 0
    errors := (w.rotate.map (·.errors)).getD 0
    used := (w.rotate.map (·.inc)).getD 0
    updatedAt := now }

/-- `do` behind a `doRequest` that succeeded. -/
def doSucceeded (s : Rotator) (workLoad : Ref) : Rotator :=
  let w := s.heap workLoad
  match s.findActiveEntry w.ip w.port w.state.protocolDest with
  | some _ => s
  | none =>
      { s.modify workLoad (listed s.clock) with activeList := s.activeList ++ [workLoad] }

/-! ## `doLog` -/

/-- The row `_doLog` saves. -/
def logRotate (ip : ProxyUsed) (r : IpRotate) : IpRotate :=
  let inc := r.inc + 1
  let r := { r with inc := inc, used := if inc % 10 = 0 then 0 else r.used + 1 }
  if ip.success then
    let duration := r.duration + ip.duration
    let successes := r.successes + 1
    { r with
      duration := duration
      successes := successes
      durationAverage :=
        -- `Math.ceil(duration / successes)`
        if 0 < duration ∧ 0 < successes then (duration + successes - 1) / successes
        else r.durationAverage }
  else { r with errors := r.errors + 1 }

/-- The test of `doLog` that blocks an address. -/
def blocks (r : IpRotate) : Bool := 100 < r.inc && r.successes * 100 < 15 * r.inc

/-- `c.manager.findOne(IpAddr, {ip, port})` -/
def findAddr (s : Rotator) (ip : Text) (port : Nat) : Option AddrRow :=
  s.addrs.find? (fun a => a.ip = ip && a.port = port)

/-- `em.findOne(IpRotate, {addr_id, protocol_src})` -/
def findRotate (s : Rotator) (addrId : Nat) (protocol : ProtocolType) : Option IpRotate :=
  s.rotates.find? (fun r => r.addrId = addrId && r.protocolSrc = protocol)

def isRowOf (row : IpRotate) (r : IpRotate) : Bool :=
  r.addrId = row.addrId && r.protocolSrc = row.protocolSrc

def setLog (s : Rotator) (i : Nat) (call : LogCall) : Rotator :=
  { s with logs := s.logs.set i call }

/-- The call is over. -/
def endLog (s : Rotator) (i : Nat) : Rotator := { s with logs := s.logs.eraseIdx i }

/-- `doLog` up to its first await. -/
def logCall (s : Rotator) (ip : ProxyUsed) (test : Bool) : Rotator :=
  let addr := if test then none else s.findActiveEntry ip.ip ip.port ip.protocolDest
  { s with logs := s.logs ++ [{ used := ip, addr := addr }] }

/-- The reads: the address, and inside the transaction the rotate row.
Without an address there is nothing to do. -/
def logRead (s : Rotator) (i : Nat) (call : LogCall) : Rotator :=
  match s.findAddr call.used.ip call.used.port with
  | none => s.endLog i
  | some addr =>
      s.setLog i { call with
        stage := .read addr.id (s.findRotate addr.id call.used.protocol) }

/-- The rotate row a call saves. -/
def savedRotate (call : LogCall) (addrId : Nat) (rotate : Option IpRotate) : IpRotate :=
  logRotate call.used
    (rotate.getD { protocolSrc := call.used.protocol, addrId := addrId })

/-- The commit of the transaction. Inserting a row that exists by now
violates the unique index: the call ends in its catch block. -/
def logCommit (s : Rotator) (i : Nat) (call : LogCall) (addrId : Nat) (rotate : Option IpRotate) :
    Rotator :=
  let ipRotate := savedRotate call addrId rotate
  if rotate.isNone && s.rotates.any (isRowOf ipRotate) then s.endLog i
  else
    let remove := blocks ipRotate
    let rotates :=
      if rotate.isNone then s.rotates ++ [ipRotate]
      else s.rotates.map (fun r => if isRowOf ipRotate r then ipRotate else r)
    let addrs :=
      if remove then
        s.addrs.map (fun a => if a.id = addrId then
          { a with blocked := true, toDelete := a.toDelete || ipRotate.successes = 0 } else a)
      else s.addrs
    { s.setLog i { call with stage := .committed ipRotate remove } with
      rotates := rotates
      addrs := addrs
      blocked := if remove then s.blocked ++ [(call.used.ip, call.used.port)] else s.blocked }

/-- The `if (addr)` of `doLog`: the entry that was found by the call is
removed, or its counters follow. -/
def settleEntry (s : Rotator) (call : LogCall) (rotate : IpRotate) (remove : Bool) : Rotator :=
  match call.addr with
  | none => s
  | some addr =>
      if remove then { s with activeList := s.activeList.filter (· ≠ addr) }
      else if call.used.success then
        s.modify addr (fun a =>
          { a with success := a.success + 1, durationAvg := rotate.durationAverage })
      else s.modify addr (fun a => { a with errors := a.errors + 1 })

/-- `doLog` behind its transaction. -/
def logSettle (s : Rotator) (i : Nat) (call : LogCall) (rotate : IpRotate) (remove : Bool) :
    Rotator :=
  { (s.settleEntry call rotate remove).endLog i with
    settled := if remove then s.settled ++ [(call.used.ip, call.used.port)] else s.settled }

/-- The next part of a suspended call. -/
def logGo (s : Rotator) (i : Nat) (call : LogCall) : Rotator :=
  match call.stage with
  | .called => s.logRead i call
  | .read addrId rotate => s.logCommit i call addrId rotate
  | .committed rotate remove => s.logSettle i call rotate remove

/-! ## Tidying up -/

def onEmpty (s : Rotator) : Rotator := s.cleanupList.orderActiveList

def removeUnusedProxies (options : RotatorOptions) (s : Rotator) : Rotator :=
  { s with activeList := s.activeList.filter (fun r =>
      !((s.heap r).updatedAt + options.timeOffset * 1000 < s.clock)) }

/-! ## Steps -/

inductive Action where
  | tick (ms : Nat)
  | take (selector : Object) (elapsed : Nat)
  /-- a health check succeeds -/
  | doSucceeded (workLoad : Ref)
  | doLog (ip : ProxyUsed) (test : Bool)
  /-- the suspended call number `i` goes on -/
  | logGo (i : Nat)
  /-- a database call of it rejects before the commit; it ends in its
  catch block -/
  | logFail (i : Nat)
  | onEmpty
  | removeUnusedProxies
  deriving DecidableEq, Repr

def step (options : RotatorOptions) (s : Rotator) : Action → Option Rotator
  | .tick ms => some { s with clock := s.clock + ms }
  | .take selector elapsed => some (s.take options selector elapsed)
  | .doSucceeded workLoad => some (s.doSucceeded workLoad)
  | .doLog ip test => some (s.logCall ip test)
  | .logGo i => s.logs[i]?.map (s.logGo i)
  | .logFail i =>
      match s.logs[i]? with
      | some { stage := .committed _ _, .. } | none => none
      | some _ => some (s.endLog i)
  | .onEmpty => some s.onEmpty
  | .removeUnusedProxies => some (s.removeUnusedProxies options)

def machine (options : RotatorOptions) : Machine Rotator Action where
  step := step options

/-- A rotator as `prepare` leaves it. -/
def Initial (s : Rotator) : Prop := s.activeList = [] ∧ s.logs = []

/-! ## To evaluate with -/

/-- A rotator behind some steps; the initial one if they are not possible. -/
def after (options : RotatorOptions) (s : Rotator) (as : List Action) : Rotator :=
  ((machine options).run s as).getD s

def exampleAddr : IpAddr where
  ip := "10.0.0.3".toList
  port := 8080
  state := { protocolSrc := .http, protocolDest := .http, level := 3, duration := 100 }

end Rotator

end ProxyBroker.Proxy
