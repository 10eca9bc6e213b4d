/-
ProxyBroker.Proxy.NextCalls — the calls of `next` that find no entry at
once (`take` of `ProxyRotator.ts`).

Such a call lets `doEnqueue` look for candidates. Then it waits for the
first success of its request, for 5 s at most, and begins again. A
listener on the queue and a timer belong to each call that waits: the
listener clears the timer, the timer removes the listener.

What goes on in the rotator meanwhile are its own steps. Any check of any
request may succeed at any moment, and a call may be suspended in
`doEnqueue` as long as it likes.

Taken from the surroundings: `shorthash`, of the selector as JSON. Left
out: log lines.
-/
import ProxyBroker.Proxy.ProxyRotator

namespace ProxyBroker.Proxy.NextCalls

open Lib Server

/-- A selector object with its `repeat`. -/
structure Selector where
  fields : Object
  rotation : Nat := 0
  deriving DecidableEq, Repr

structure Env where
  options : RotatorOptions
  /-- `CryptUtils.shorthash(JSON.stringify(selector))` -/
  shorthash : Selector → Text

/-- A call that goes on with `selector` when there is a success of
`reqId`. -/
structure Pending where
  call : Nat
  selector : Selector
  reqId : Text
  deriving DecidableEq, Repr

structure Timer where
  call : Nat
  due : Nat
  deriving DecidableEq, Repr

structure Calls where
  rotator : Rotator
  /-- the selector each call of `next` was given -/
  asked : List Object := []
  /-- calls in `doEnqueue` -/
  enqueueing : List Pending := []
  /-- the listeners on the queue -/
  listeners : List Pending := []
  timers : List Timer := []
  /-- calls whose listener has set a timeout to begin again -/
  retries : List Pending := []
  /-- calls that were resolved with an entry, or rejected -/
  settled : List (Nat × Option Ref) := []

/-- `take`, up to the await of `doEnqueue` if no entry is found. -/
def takeCall (env : Env) (s : Calls) (call : Nat) (selector : Selector) (elapsed : Nat) : Calls :=
  let reqId := env.shorthash selector
  let addr := s.rotator.found selector.fields
  let s := { s with rotator := s.rotator.take env.options selector.fields elapsed }
  match addr with
  | some addr => { s with settled := s.settled ++ [(call, some addr)] }
  | none =>
      let rotation := selector.rotation + 1
      let selector :=
        { selector with rotation := if env.options.reuse ≤ rotation then 0 else rotation }
      { s with enqueueing := s.enqueueing ++ [⟨call, selector, reqId⟩] }

def next (env : Env) (s : Calls) (select : Object) (elapsed : Nat) : Calls :=
  takeCall env { s with asked := s.asked ++ [select] } s.asked.length
    { fields := parseProxyHeader select } elapsed

/-- `take` behind `doEnqueue`. -/
def listen (s : Calls) (p : Pending) : Calls :=
  { s with
    listeners := s.listeners ++ [p]
    timers := s.timers ++ [⟨p.call, s.rotator.clock + 5000⟩] }

/-- The listeners of a request. -/
def woken (s : Calls) (reqId : Text) : List Pending :=
  s.listeners.filter (fun p => p.reqId = reqId)

/-- `queue.emit('success_request_' + reqId)` -/
def emit (s : Calls) (reqId : Text) : Calls :=
  { s with
    listeners := s.listeners.filter (fun p => p.reqId ≠ reqId)
    timers := s.timers.filter (fun t => t.call ∉ (woken s reqId).map Pending.call)
    retries := s.retries ++ woken s reqId }

/-- The timer of a call is due. -/
def reject (s : Calls) (t : Timer) : Calls :=
  { s with
    listeners := s.listeners.filter (fun p => p.call ≠ t.call)
    settled := s.settled ++ [(t.call, none)] }

inductive Action where
  /-- a step of the rotator that is no `take` -/
  | rotator (a : Rotator.Action)
  | next (select : Object) (elapsed : Nat)
  /-- `doEnqueue` has returned to the call at place `i` -/
  | enqueued (i : Nat)
  /-- the check of a proxy of a request succeeds -/
  | success (reqId : Text) (workLoad : Ref)
  /-- the next call begins again -/
  | retry (elapsed : Nat)
  /-- the timer at place `i` is due -/
  | timeout (i : Nat)
  /-- the queue loses its listeners -/
  | shutdown
  deriving DecidableEq, Repr

def step (env : Env) (s : Calls) : Action → Option Calls
  | .rotator a =>
      match a with
      | .take _ _ => none
      | a => (s.rotator.step env.options a).map (fun rotator => { s with rotator := rotator })
  | .next select elapsed => some (next env s select elapsed)
  | .enqueued i =>
      s.enqueueing[i]?.map (fun p =>
        listen { s with enqueueing := s.enqueueing.eraseIdx i } p)
  | .success reqId workLoad =>
      some (emit { s with rotator := s.rotator.doSucceeded workLoad } reqId)
  | .retry elapsed =>
      match s.retries with
      | p :: rest => some (takeCall env { s with retries := rest } p.call p.selector elapsed)
      | [] => none
  | .timeout i =>
      match s.timers[i]? with
      | some t =>
          if t.due ≤ s.rotator.clock then
            some (reject { s with timers := s.timers.eraseIdx i } t)
          else none
      | none => none
  | .shutdown => some { s with listeners := [] }

def machine (env : Env) : Machine Calls Action := ⟨step env⟩

end ProxyBroker.Proxy.NextCalls
