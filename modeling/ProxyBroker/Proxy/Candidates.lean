/-
ProxyBroker.Proxy.Candidates — the way of a proxy from the tables to a
call of `next` (`ProxyRotator.ts`): `fetch` makes an entity of a row,
`doEnqueue` gives it a usage record and pushes it as a job, `do` checks it
and lists it, and `take` hands it out.

The parts are the machines of `ProxyFetch` and `NextCalls`. Here a query
is answered from the tables as they are then, or rejected, and the check
of a job is one of its entity and ends once, in front of its `done()`.

The tables change as they like, since the validator and `doLog` write
them. `doEnqueue` is called with any selector at any time, by a call of
`next` among others, and may return to that call at any time.

The duration of a state in the tables is taken as not negative. Left out:
the columns of an entity nobody reads; its location, which no query joins.
-/
import ProxyBroker.Proxy.NextCalls
import ProxyBroker.Proxy.ProxyFetch

namespace ProxyBroker.Proxy

open Lib Server ProxyFetch

/-- The body of the loop of `attachRotateEntriesToIpAddr`. -/
def attachRotate (row : Row) : IpRotate :=
  match row.rotate with
  | some rotate => rotate.toIpRotate
  | none => { addrId := row.ip.id, protocolSrc := row.state.protocolSrc }

/-- The `IpAddr` object of a row, as `doEnqueue` pushes it. -/
def entityOf (row : Row) : IpAddr where
  ip := row.ip.ip
  port := row.ip.port
  state :=
    { protocolSrc := row.state.protocolSrc
      protocolDest := row.state.protocolDest
      level := row.state.level
      duration := row.state.duration.toNat }
  rotate := some (attachRotate row)

namespace Candidates

/-- A query `fetch` has made, and its answer. -/
structure Answer where
  tables : Tables
  select : WorkLoad
  offset : Nat
  rows : List Row

structure Pool where
  tables : Tables
  enqueuer : Enqueuer := {}
  calls : NextCalls.Calls
  /-- the entity of each job, until its `do` has ended -/
  checks : List (Option Ref) := []
  /-- the identity of the next entity -/
  nextRef : Ref := 0
  /-- history -/
  answered : List Answer := []

/-- What the await of a `doEnqueue` call resolves to. -/
def resolved (s : Pool) (call : Call) : Option (List Row) :=
  match call.stage with
  | .querying offset => s.tables.getMany (selectOf call.workLoad offset)
  | _ => some []

/-- The answer to a query. -/
def record (s : Pool) (call : Call) (res : Option (List Row)) : List Answer :=
  match call.stage, res with
  | .querying offset, some rows => [⟨s.tables, call.workLoad, offset, rows⟩]
  | _, _ => []

/-- The heap with the entities of jobs, from the identity `next` on. -/
def allocate (heap : Ref → IpAddr) (next : Ref) (jobs : List Job) (r : Ref) : IpAddr :=
  match jobs[r - next]? with
  | some job => if next ≤ r then entityOf job.proxy else heap r
  | none => heap r

/-- Jobs are pushed. -/
def push (s : Pool) (enqueuer : Enqueuer) : Pool :=
  let jobs := enqueuer.jobs.drop s.enqueuer.jobs.length
  let rotator :=
    { s.calls.rotator with heap := allocate s.calls.rotator.heap s.nextRef jobs }
  { s with
    enqueuer := enqueuer
    calls := { s.calls with rotator := rotator }
    checks := s.checks ++ (List.range' s.nextRef jobs.length).map some
    nextRef := s.nextRef + jobs.length }

/-- What the end of a successful `do` is for the calls of `next`. -/
def success (job : Job) (workLoad : Ref) : NextCalls.Action :=
  match job.reqId with
  | some reqId => .success reqId workLoad
  | none => .rotator (.doSucceeded workLoad)

/-- A step of the calls that is no check. -/
def isOther : NextCalls.Action → Bool
  | .success _ _ | .rotator (.doSucceeded _) => false
  | _ => true

inductive Action where
  | tables (tables : Tables)
  | cacheQuery (reqId : Text)
  | doEnqueue (workLoad : WorkLoad)
  /-- the `doEnqueue` call number `i` goes on -/
  | callGo (i : Nat) (rejected : Bool)
  /-- `do` of job number `i` ends -/
  | checked (i : Nat) (succeeded : Bool)
  | jobSettled (i : Nat)
  | calls (a : NextCalls.Action)

def step (env : NextCalls.Env) (fetchSize : Nat) (s : Pool) : Action → Option Pool
  | .tables tables => some { s with tables := tables }
  | .cacheQuery reqId =>
      (s.enqueuer.step fetchSize (.cacheQuery reqId)).map (fun enqueuer =>
        { s with enqueuer := enqueuer })
  | .doEnqueue workLoad =>
      (s.enqueuer.step fetchSize (.doEnqueue workLoad)).map (fun enqueuer =>
        { s with enqueuer := enqueuer })
  | .callGo i rejected =>
      match s.enqueuer.calls[i]? with
      | some call =>
          let res := if rejected then none else resolved s call
          some ({ push s (s.enqueuer.callGo i call res) with
            answered := s.answered ++ record s call res })
      | none => none
  | .checked i succeeded =>
      match s.checks[i]?, s.enqueuer.jobs[i]? with
      | some (some workLoad), some job =>
          let s := { s with checks := s.checks.set i none }
          if succeeded then
            (NextCalls.step env s.calls (success job workLoad)).map (fun calls =>
              { s with calls := calls })
          else some s
      | _, _ => none
  | .jobSettled i =>
      match s.checks[i]?, s.enqueuer.jobs[i]? with
      | some none, some job =>
          some { s with
            enqueuer := s.enqueuer.jobSettled i job
            checks := s.checks.eraseIdx i }
      | _, _ => none
  | .calls a =>
      if isOther a then
        (NextCalls.step env s.calls a).map (fun calls => { s with calls := calls })
      else none

def machine (env : NextCalls.Env) (fetchSize : Nat) : Machine Pool Action where
  step := step env fetchSize

end Candidates

end ProxyBroker.Proxy
