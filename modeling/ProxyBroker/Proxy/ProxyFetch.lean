/-
ProxyBroker.Proxy.ProxyFetch — where the rotator gets its candidates from
(`fetch`, `cacheQuery` and `doEnqueue` of `ProxyRotator.ts`).

`fetch` puts a query together from the selector, asks the database for
the next page, and keeps in `fetchRequests` where the page ended.
`doEnqueue` pushes the rows of a page as jobs; one number, `inc`, keeps a
second batch for the same request out, counts the jobs and tells that
there are none.

A `doEnqueue` call is suspended at its awaits: the query, the closing of
the connection behind it, and the transaction that saves the usage
records. At each the next step of the call may be that the await rejects.

Of the database it is taken that offset and limit apply to the rows in
their order (the query builder writes no limit for 0), that an address is
handed out once for a page (`entities`),
and that a query on a column the table does not have is rejected. Null
comes first in an order.

Left out: the jobs themselves and their outcome, which `inc` does not
depend on; the date and the selector kept in `fetchRequests`; log lines.
-/
import ProxyBroker.Lib.Paging
import ProxyBroker.Lib.SqlQuery
import ProxyBroker.Lib.Transition
import ProxyBroker.Proxy.ProxySelector
import ProxyBroker.Proxy.Storage

namespace ProxyBroker.Proxy

open Lib Server

namespace ProxyFetch

/-! ## Selectors and tables -/

/-- `IProxySelector` with the request id `doEnqueue` and `fetch` are given
along. An id is a hash and not empty. -/
structure WorkLoad where
  targetSSL : Bool := false
  country : Option Text := none
  level : Option Int := none
  speedLimit : Option Int := none
  limit : Option Nat := none
  /-- `repeat` -/
  rotation : Option Nat := none
  reqId : Option Text := none
  deriving DecidableEq, Repr

/-- A stored `IpRotate` row. -/
structure RotateRow extends IpRotate where
  updatedAt : Nat := 0
  deriving DecidableEq, Repr

structure Tables extends Storage.Database where
  rotates : List RotateRow := []
  deriving Repr

/-- A row of the joined tables; without a usage record its columns are
null. -/
structure Row where
  ip : Storage.IpAddr
  state : Storage.IpAddrState
  rotate : Option RotateRow := none
  deriving DecidableEq, Repr

/-- The inner join with the states of the current validation, and the left
join with the usage record. -/
def Tables.joinedRows (t : Tables) : List Row :=
  t.addrs.flatMap (fun ip =>
    (t.joined ip).map (fun state =>
      { ip := ip
        state := state
        rotate := t.rotates.find? (fun r =>
          r.addrId = ip.id && r.protocolSrc = state.protocolSrc) }))

/-! ## The query -/

inductive Value where
  | bool (b : Bool)
  | int (n : Int)
  | text (s : Text)
  deriving DecidableEq, Repr

def Value.eq (v p : Value) : Bool := v = p

def Value.gt : Value → Value → Bool
  | .int n, .int m => m < n
  | _, _ => false

def Value.lt : Value → Value → Bool
  | .int n, .int m => n < m
  | _, _ => false

/-- The condition on failing proxies; without a usage record `rotate.inc`
is null. -/
def notFailing (rotate : Option RotateRow) : Bool :=
  match rotate with
  | none => true
  | some r =>
      (100 ≤ r.inc && 33 < r.successes * 100 / r.inc) ||
        (10 < r.inc && r.inc < 100 && 15 < r.successes * 100 / r.inc) || r.inc ≤ 10

def stateEnabled (row : Row) : Option Value := some (.bool row.state.enabled)
def stateLevel (row : Row) : Option Value := some (.int row.state.level)
def stateDuration (row : Row) : Option Value := some (.int row.state.duration)
def stateProtocolDest (row : Row) : Option Value := some (.int row.state.protocolDest.code)
def ipToDelete (row : Row) : Option Value := some (.bool row.ip.toDelete)
def ipBlocked (row : Row) : Option Value := some (.bool row.ip.blocked)

/-- `IpLoc` has no column port, so its condition is true of no row. -/
def noColumn (_ : Row) : Option Value := none

/-- The conditions `fetch` always sets. -/
def baseQuery : Query Row Value :=
  (((({} : Query Row Value).andCompare Value.eq stateEnabled "enable" (.bool true)).andCompare
    Value.gt stateLevel "level" (.int 0)).andCompare
    Value.eq ipToDelete "toDelete" (.bool false)).andCompare
    Value.eq ipBlocked "blocked" (.bool false)
  |>.andWhere (fun row _ => some (notFailing row.rotate))

def whereLevel (select : WorkLoad) (q : Query Row Value) : Query Row Value :=
  match select.level with
  | some level => if 0 < level then q.andCompare Value.eq stateLevel "level" (.int level) else q
  | none => q

def whereCountry (select : WorkLoad) (q : Query Row Value) : Query Row Value :=
  match select.country with
  | some country =>
      if country ≠ [] then q.andCompare Value.eq noColumn "country_code" (.text country) else q
  | none => q

def whereSpeedLimit (select : WorkLoad) (q : Query Row Value) : Query Row Value :=
  match select.speedLimit with
  | some limit =>
      if 0 < limit then q.andCompare Value.lt stateDuration "speed_limit" (.int limit) else q
  | none => q

def protocolOf (select : WorkLoad) : ProtocolType := if select.targetSSL then .https else .http

def whereProtocol (select : WorkLoad) (q : Query Row Value) : Query Row Value :=
  q.andCompare Value.eq stateProtocolDest "protocol" (.int (protocolOf select).code)

def queryOf (select : WorkLoad) : Query Row Value :=
  whereProtocol select (whereSpeedLimit select (whereCountry select (whereLevel select baseQuery)))

/-- The column a rotation is ordered by. -/
def orderKey (rotation : Nat) (row : Row) : Option Nat :=
  row.rotate.map (fun r =>
    match rotation % 4 with
    | 0 => r.updatedAt
    | 1 => r.used
    | 2 => r.durationAverage
    | _ => r.inc)

/-- What is asked of the database. -/
structure Select where
  query : Query Row Value
  /-- joined with `IpLoc` on `country.port` -/
  joinsLocation : Bool
  orderBy : Option Nat
  offset : Nat
  limit : Nat

def selectOf (select : WorkLoad) (offset : Nat) : Select where
  query := queryOf select
  joinsLocation := select.country.any (· ≠ [])
  orderBy := select.rotation
  offset := offset
  limit := select.limit.getD 1

/-- An address is handed out once, with the first of its rows. -/
def entities : List Row → List Row
  | [] => []
  | row :: rows => row :: (entities rows).filter (fun r => r.ip.id ≠ row.ip.id)

/-- Null comes first. -/
def keyBefore (a b : Option Nat) : Prop :=
  match a, b with
  | none, _ => True
  | some _, none => False
  | some n, some m => n ≤ m

instance : DecidableRel keyBefore := fun a b =>
  match a, b with
  | none, _ => inferInstanceAs (Decidable True)
  | some _, none => inferInstanceAs (Decidable False)
  | some n, some m => inferInstanceAs (Decidable (n ≤ m))

/-- The rows of a query in their order. -/
def Tables.resultSet (t : Tables) (s : Select) : List Row :=
  let rows := t.joinedRows.filter s.query.accepts
  match s.orderBy with
  | none => rows
  | some rotation =>
      rows.insertionSort (fun a b => keyBefore (orderKey rotation a) (orderKey rotation b))

/-- `q.getMany()`, `none` if it rejects. -/
def Tables.getMany (t : Tables) (s : Select) : Option (List Row) :=
  if s.joinsLocation then none else some (entities (page s.limit (t.resultSet s) s.offset))

/-! ## Pages -/

/-- `IFetchQuery`. -/
structure FetchQuery extends Cursor where
  inc : Int := -1
  deriving DecidableEq, Repr

abbrev FetchRequests := Text → Option FetchQuery

/-- `cacheQuery`; `reqId` is the hash of the selector. -/
def cacheQuery (requests : FetchRequests) (reqId : Text) : FetchRequests :=
  match requests reqId with
  | none => Function.update requests reqId (some {})
  | some _ => requests

/-- `fetch` up to its query: where the page begins. Reading the offset of
an unknown request throws. -/
def fetchOffset (requests : FetchRequests) (select : WorkLoad) : Option Nat :=
  match select.reqId with
  | none => some 0
  | some reqId => (requests reqId).map (fun fetchQuery => fetchQuery.offset + fetchQuery.size)

/-- `fetch` behind its query. -/
def recordPage (requests : FetchRequests) (select : WorkLoad) (offset : Nat) (res : List Row) :
    FetchRequests :=
  match select.reqId with
  | none => requests
  | some reqId =>
      match requests reqId with
      | none => requests
      | some fetchQuery =>
          Function.update requests reqId (some
            (if 0 < res.length then { fetchQuery with size := res.length, offset := offset }
              else { fetchQuery with offset := 0, size := 0 }))

/-- `fetch` without anything in between. -/
def fetch (getMany : Select → Option (List Row)) (requests : FetchRequests) (select : WorkLoad) :
    Option (List Row × FetchRequests) := do
  let offset ← fetchOffset requests select
  let res ← getMany (selectOf select offset)
  return (res, recordPage requests select offset res)

/-! ## Batches -/

/-- Where a `doEnqueue` call is suspended. -/
inductive Stage where
  /-- in the query of `fetch` -/
  | querying (offset : Nat)
  /-- `fetch` has thrown -/
  | failed
  /-- in `c.close()` of `fetch` -/
  | closing (proxyList : List Row)
  /-- the usage records are saved -/
  | saving (proxyList : List Row)
  deriving DecidableEq, Repr

structure Call where
  workLoad : WorkLoad
  stage : Stage
  deriving DecidableEq, Repr

/-- A pushed row, until its `done()` settles. -/
structure Job where
  reqId : Option Text
  proxy : Row
  deriving DecidableEq, Repr

structure Enqueuer where
  fetchRequests : FetchRequests := fun _ => none
  calls : List Call := []
  jobs : List Job := []

namespace Enqueuer

/-- `fetchRequests[reqId].inc = f(inc)`. -/
def setInc (s : Enqueuer) (reqId : Text) (f : Int → Int) : Enqueuer :=
  { s with
    fetchRequests := Function.update s.fetchRequests reqId
      ((s.fetchRequests reqId).map (fun q => { q with inc := f q.inc })) }

/-- The guard of `doEnqueue`. -/
def busy (s : Enqueuer) (reqId : Option Text) : Bool :=
  match reqId with
  | none => false
  | some reqId => (s.fetchRequests reqId).any (fun q => 0 ≤ q.inc)

/-- `doEnqueue` up to its first await. -/
def doEnqueue (fetchSize : Nat) (s : Enqueuer) (workLoad : WorkLoad) : Enqueuer :=
  if s.busy workLoad.reqId then s
  else
    let s :=
      match workLoad.reqId with
      | none => s
      | some reqId => s.setInc reqId (fun _ => 0)
    let workLoad := { workLoad with limit := some (workLoad.limit.getD fetchSize) }
    let stage :=
      match fetchOffset s.fetchRequests workLoad with
      | some offset => Stage.querying offset
      | none => Stage.failed
    { s with calls := s.calls ++ [{ workLoad := workLoad, stage := stage }] }

/-- `this.queue.push(c)` in the loop of `doEnqueue`. -/
def pushJob (reqId : Option Text) (s : Enqueuer) (c : Row) : Enqueuer :=
  let s :=
    match reqId with
    | none => s
    | some reqId => s.setInc reqId (· + 1)
  { s with jobs := s.jobs ++ [{ reqId := reqId, proxy := c }] }

/-- The inc of a request, 0 where there is none. -/
def inc (s : Enqueuer) (reqId : Text) : Int := ((s.fetchRequests reqId).map (·.inc)).getD 0

/-- The loop of `doEnqueue` and what follows it. -/
def enqueueList (s : Enqueuer) (reqId : Option Text) (proxyList : List Row) : Enqueuer :=
  let s := proxyList.foldl (pushJob reqId) s
  match reqId with
  | none => s
  | some reqId =>
      if proxyList.length = 0 ∨ s.inc reqId = 0 then s.setInc reqId (fun _ => -1) else s

def setCall (s : Enqueuer) (i : Nat) (call : Call) : Enqueuer :=
  { s with calls := s.calls.set i call }

def endCall (s : Enqueuer) (i : Nat) : Enqueuer := { s with calls := s.calls.eraseIdx i }

/-- The call behind its `try`. -/
def finish (s : Enqueuer) (i : Nat) (call : Call) (proxyList : List Row) : Enqueuer :=
  (s.endCall i).enqueueList call.workLoad.reqId proxyList

/-- A suspended call goes on; `answer` is what the await resolves to, and
`none` if it rejects. Only the query resolves to rows. -/
def callGo (s : Enqueuer) (i : Nat) (call : Call) (answer : Option (List Row)) : Enqueuer :=
  match call.stage, answer with
  | .querying offset, some res =>
      { s.setCall i { call with stage := .closing res } with
        fetchRequests := recordPage s.fetchRequests call.workLoad offset res }
  | .closing proxyList, some _ => s.setCall i { call with stage := .saving proxyList }
  -- `proxyList` is assigned, also if the saving fails
  | .saving proxyList, _ => s.finish i call proxyList
  | .querying _, none | .closing _, none | .failed, _ => s.finish i call []

/-- The `finally` behind `done()`. -/
def jobSettled (s : Enqueuer) (i : Nat) (job : Job) : Enqueuer :=
  let s := { s with jobs := s.jobs.eraseIdx i }
  match job.reqId with
  | none => s
  | some reqId =>
      let s := s.setInc reqId (· - 1)
      if s.inc reqId ≤ 0 then s.setInc reqId (fun _ => -1) else s

inductive Action where
  | cacheQuery (reqId : Text)
  | doEnqueue (workLoad : WorkLoad)
  /-- the suspended call number `i` goes on -/
  | callGo (i : Nat) (answer : Option (List Row))
  /-- the `done()` of job number `i` settles, resolved or rejected -/
  | jobSettled (i : Nat)
  deriving DecidableEq, Repr

def step (fetchSize : Nat) (s : Enqueuer) : Action → Option Enqueuer
  | .cacheQuery reqId =>
      some { s with fetchRequests := ProxyFetch.cacheQuery s.fetchRequests reqId }
  | .doEnqueue workLoad => some (s.doEnqueue fetchSize workLoad)
  | .callGo i answer => s.calls[i]?.map (fun call => s.callGo i call answer)
  | .jobSettled i => s.jobs[i]?.map (s.jobSettled i)

def machine (fetchSize : Nat) : Machine Enqueuer Action where
  step := step fetchSize

/-- As `prepare` finds it. -/
def Initial (s : Enqueuer) : Prop :=
  (∀ reqId, s.fetchRequests reqId = none) ∧ s.calls = [] ∧ s.jobs = []

end Enqueuer

end ProxyFetch

end ProxyBroker.Proxy
