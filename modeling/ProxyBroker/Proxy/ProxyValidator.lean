/-
ProxyBroker.Proxy.ProxyValidator — the jobs of the validator's queue and
its `onEmpty` (`ProxyValidator.ts`), interleaved at every await.

A `do` call and an `onEmpty` call are cut into the parts between their
awaits; where a call is suspended is its phase, and the resumption of one
call, or the settling of what it waits for, is one step. Any call may be
the next to go on.

The queue is taken as follows: a pushed job starts at any later moment,
`onEmpty` may be called whenever no job is queued or running, and calls
of `onEmpty` hold nothing back: jobs and further `onEmpty` calls may
start while one is suspended.

`connect`, `close`, the lookup of a validation and the writes of `store`
may succeed or fail. What `wakeup` and `pending` return is ignored by
both callers, so the outcome of the servers is no part of a step.

Left out: `run` and `shutdown`, what `store` writes, log lines.
-/
import ProxyBroker.Judge.Lifecycle
import ProxyBroker.Lib.Transition

namespace ProxyBroker.Proxy

open Lib

/-- The callers of the judge's lock. -/
inductive Caller where
  | wakeup (job : Nat)
  | pending (run : Nat)
  deriving DecidableEq, Repr

/-- A storage connection, by the number of `close` calls on it. -/
structure ConnectionWrapper where
  closeCalls : Nat := 0
  deriving DecidableEq, Repr

def ConnectionWrapper.isOpen (c : ConnectionWrapper) : Bool := c.closeCalls == 0

/-- Where a job is. -/
inductive JobPhase where
  | queued
  /-- awaits `progressing` -/
  | progressing
  /-- `progressing` has resolved, `do` is about to test the flag -/
  | checking
  /-- `wakeup` awaits the lock -/
  | acquiring
  /-- `wakeup` holds the lock and awaits the servers -/
  | starting
  /-- `wakeup` has returned -/
  | woken
  | connecting
  /-- `validate` awaits the domain lookup -/
  | looking
  /-- `validate` awaits its requests; those still out -/
  | requesting (ids : List Nat)
  /-- `store` is writing to the connection it has read -/
  | storing (conn : Nat)
  | done
  | failed
  deriving DecidableEq, Repr

def JobPhase.isOver : JobPhase → Bool
  | .done | .failed => true
  | _ => false

/-- Where an `onEmpty` call is. -/
inductive EmptyPhase where
  | closing
  /-- `pending` awaits the lock -/
  | acquiring
  /-- `pending` holds the lock and awaits the servers -/
  | stopping
  /-- `pending` has returned -/
  | leaving
  | done
  | failed
  deriving DecidableEq, Repr

/-- What lets a job go on. -/
inductive JobEvent where
  | start
  | progressed
  | checked
  | acquired
  | settled
  | resumed
  | connected
  | lookedUp
  | answered (id : Nat)
  | validated (hasSuccess : Bool)
  | stored
  | rejected
  deriving DecidableEq, Repr

/-- What lets an `onEmpty` call go on. -/
inductive EmptyEvent where
  | closed
  | rejected
  | acquired
  | settled
  | resumed
  deriving DecidableEq, Repr

inductive ValidatorAction where
  | push
  | job (j : Nat) (e : JobEvent)
  | onEmpty
  | empty (k : Nat) (e : EmptyEvent)
  deriving DecidableEq, Repr

/-- What `initialize` is given. -/
structure ValidatorOptions where
  skipFailed : Bool := true
  storage : Bool := true
  deriving DecidableEq, Repr

structure ProxyValidator where
  judge : Judge Caller := {}
  connection : Option Nat := none
  /-- every connection there was, by its number -/
  conns : List ConnectionWrapper := []
  jobs : List JobPhase := []
  empties : List EmptyPhase := []
  isEmpty : Bool := true
  deriving DecidableEq, Repr

namespace ProxyValidator

/-- The number of requests `validate` makes: each protocol to each. -/
def variants : Nat := 4

def goto (s : ProxyValidator) (j : Nat) (phase : JobPhase) : ProxyValidator :=
  { s with jobs := s.jobs.set j phase }

def emptyGoto (s : ProxyValidator) (k : Nat) (phase : EmptyPhase) : ProxyValidator :=
  { s with empties := s.empties.set k phase }

/-- `this.connection` is there and nobody has called `close` on it. -/
def connectionOpen (s : ProxyValidator) : Bool :=
  s.connection.any (fun c => s.conns[c]?.any (·.isOpen))

/-! ## `do` -/

/-- From the test of the flag to the next await. -/
def check (s : ProxyValidator) (j : Nat) : ProxyValidator :=
  if !s.judge.isEnabled then
    match s.judge.wakeup (.wakeup j) with
    | none => s.goto j .woken
    | some judge => { s with judge := judge }.goto j .acquiring
  else s.goto j .looking

/-- `this.connection = await this.storage.connect()`, with the start of
`validate` behind it. -/
def setConnection (s : ProxyValidator) (j : Nat) : ProxyValidator :=
  let s : ProxyValidator := { s with conns := s.conns ++ [{}], connection := some s.conns.length }
  s.goto j .looking

/-- `validate` behind its lookup. -/
def handleRequests (s : ProxyValidator) (j : Nat) : ProxyValidator :=
  let (judge, ids) := s.judge.createRequests variants
  { s with judge := judge }.goto j (.requesting ids)

/-- Whether the result is stored. -/
def stores (options : ValidatorOptions) (hasSuccess : Bool) : Bool :=
  options.storage && (options.skipFailed && hasSuccess || !options.skipFailed)

/-- `do` behind `validate`; a null connection throws in `store`. -/
def store (options : ValidatorOptions) (s : ProxyValidator) (j : Nat) (hasSuccess : Bool) :
    ProxyValidator :=
  if stores options hasSuccess then
    match s.connection with
    | none => s.goto j .failed
    | some c => s.goto j (.storing c)
  else s.goto j .done

def stepJob (options : ValidatorOptions) (s : ProxyValidator) (j : Nat) :
    JobPhase → JobEvent → Option ProxyValidator
  | .queued, .start => some (s.goto j .progressing)
  | .progressing, .progressed => if s.judge.progressing then some (s.goto j .checking) else none
  | .checking, .checked => some (s.check j)
  | .acquiring, .acquired =>
      if s.judge.lock.holder = some (.wakeup j) then
        some ({ s with judge := s.judge.enable }.goto j .starting)
      else none
  | .starting, .settled => some ({ s with judge := s.judge.release }.goto j .woken)
  -- without a storage the call of `connect` throws
  | .woken, .resumed => some (s.goto j (if options.storage then .connecting else .failed))
  | .connecting, .connected => some (s.setConnection j)
  | .connecting, .rejected => some (s.goto j .failed)
  | .looking, .lookedUp => some (s.handleRequests j)
  | .looking, .rejected => some (s.goto j .failed)
  | .requesting ids, .answered id =>
      if id ∈ ids then
        some ({ s with judge := s.judge.removeFromCache id }.goto j (.requesting (ids.erase id)))
      else none
  | .requesting [], .validated hasSuccess => some (s.store options j hasSuccess)
  | .storing _, .stored => some (s.goto j .done)
  | .storing _, .rejected => some (s.goto j .failed)
  | _, _ => none

/-! ## `onEmpty` -/

/-- The end of `onEmpty`: the event, and the flag. -/
def finish (s : ProxyValidator) (k : Nat) : ProxyValidator :=
  { s with isEmpty := true }.emptyGoto k .done

/-- `onEmpty` behind the close. -/
def stopJudge (s : ProxyValidator) (k : Nat) : ProxyValidator :=
  if s.judge.isEnabled then
    match s.judge.pending (.pending k) with
    | none => s.emptyGoto k .leaving
    | some judge => { s with judge := judge }.emptyGoto k .acquiring
  else s.finish k

/-- The call of `close`. -/
def closeConnection (s : ProxyValidator) (c : Nat) : ProxyValidator :=
  { s with conns := s.conns.modify c (fun w => { w with closeCalls := w.closeCalls + 1 }) }

/-- The call of `onEmpty`, to its first await. -/
def onEmpty (s : ProxyValidator) : ProxyValidator :=
  let k := s.empties.length
  let s : ProxyValidator := { s with empties := s.empties ++ [.closing] }
  match s.connection with
  | some c => s.closeConnection c
  | none => s.stopJudge k

def stepEmpty (s : ProxyValidator) (k : Nat) : EmptyPhase → EmptyEvent → Option ProxyValidator
  | .closing, .closed => some ({ s with connection := none }.stopJudge k)
  | .closing, .rejected => some (s.emptyGoto k .failed)
  | .acquiring, .acquired =>
      if s.judge.lock.holder = some (.pending k) then
        some ({ s with judge := s.judge.disable }.emptyGoto k .stopping)
      else none
  | .stopping, .settled => some ({ s with judge := s.judge.release }.emptyGoto k .leaving)
  | .leaving, .resumed => some (s.finish k)
  | _, _ => none

/-! ## The machine -/

/-- Nothing is queued or running. -/
def idle (s : ProxyValidator) : Bool := s.jobs.all JobPhase.isOver

def push (s : ProxyValidator) : ProxyValidator :=
  { s with jobs := s.jobs ++ [.queued], isEmpty := false }

def step (options : ValidatorOptions) (s : ProxyValidator) :
    ValidatorAction → Option ProxyValidator
  | .push => some s.push
  | .job j e => s.jobs[j]?.bind (fun phase => s.stepJob options j phase e)
  | .onEmpty => if s.idle then some s.onEmpty else none
  | .empty k e => s.empties[k]?.bind (fun phase => s.stepEmpty k phase e)

def machine (options : ValidatorOptions) : Machine ProxyValidator ValidatorAction where
  step := step options

end ProxyValidator

end ProxyBroker.Proxy
