/-
ProxyBroker.Judge.Servers — the two servers of the judge and the calls of
`wakeup` and `pending` that start and stop them (`Judge.ts`).

Any number of calls may be under way. What a call does between two awaits
is one step: the call itself (its first part), `resume` when it holds the
lock (the flag changes and both servers are called), `finish` when
`Promise.all` has settled (the lock is released and the call returns).
`Promise.all` rejects with the first rejection, so a call may return
while its other server is still busy.

The servers are not code of this repository. A start that resolves leaves
a server running, one that rejects leaves it stopped; a stop the other
way round. Both are busy until they settle. A call on a server that is
not ready for it is recorded (`misused`), and the server is busy with it.

Calls need no identity: only the one that holds the lock is past its
first part, and of those that wait it only matters which of the two
methods they are.
-/
import ProxyBroker.Judge.Lifecycle
import ProxyBroker.Lib.Transition

namespace ProxyBroker

open Lib

inductive JudgeCall where
  | wakeup
  | pending
  deriving DecidableEq, Repr

inductive ServerState where
  | stopped
  | starting
  | running
  | stopping
  deriving DecidableEq, Repr

inductive ServerName where
  | http
  | https
  deriving DecidableEq, Repr

/-- Something of each server. -/
structure Both (α : Type) where
  http : α
  https : α
  deriving DecidableEq, Repr

namespace Both

variable {α : Type}

def get (b : Both α) : ServerName → α
  | .http => b.http
  | .https => b.https

def set (b : Both α) (n : ServerName) (a : α) : Both α :=
  match n with
  | .http => { b with http := a }
  | .https => { b with https := a }

@[simp] theorem get_set_self (b : Both α) (n : ServerName) (a : α) : (b.set n a).get n = a := by
  cases n <;> rfl

theorem get_set_of_ne (b : Both α) {n n' : ServerName} (h : n' ≠ n) (a : α) :
    (b.set n a).get n' = b.get n' := by
  cases n <;> cases n' <;> first | exact absurd rfl h | rfl

end Both

structure JudgeServers where
  judge : Judge JudgeCall := {}
  servers : Both ServerState := ⟨.stopped, .stopped⟩
  /-- what the servers have answered to the call that holds the lock;
  `none` before it goes on -/
  answers : Option (Both (Option Bool)) := none
  /-- history: a server was started that was not stopped, or stopped that
  was not running -/
  misused : Bool := false
  /-- history: a `wakeup` has returned false and left the judge enabled -/
  leftEnabled : Bool := false
  deriving DecidableEq, Repr

namespace JudgeServers

inductive Action where
  | wakeup
  | pending
  /-- the call that was handed the lock goes on -/
  | resume
  /-- a start or stop of a server settles -/
  | settle (n : ServerName) (ok : Bool)
  /-- the call that holds the lock goes on behind `Promise.all` -/
  | finish
  deriving DecidableEq, Repr

/-- What a server has to be for the call, what it is during the call, and
what it is then. -/
def ready : JudgeCall → ServerState
  | .wakeup => .stopped
  | .pending => .running

def busy : JudgeCall → ServerState
  | .wakeup => .starting
  | .pending => .stopping

def done : JudgeCall → ServerState
  | .wakeup => .running
  | .pending => .stopped

/-- The second part of a call: the flag, and both servers. -/
def callServers (s : JudgeServers) (call : JudgeCall) : JudgeServers :=
  { s with
    judge := match call with
      | .wakeup => s.judge.enable
      | .pending => s.judge.disable
    servers := ⟨busy call, busy call⟩
    answers := some ⟨none, none⟩
    misused := s.misused || s.servers.http ≠ ready call || s.servers.https ≠ ready call }

/-- `Promise.all`, once it has settled. -/
def promiseAll (answers : Both (Option Bool)) : Option Bool :=
  if answers.http = some false ∨ answers.https = some false then some false
  else if answers.http = some true ∧ answers.https = some true then some true
  else none

/-- The third part of a call, which returns `res`. -/
def finishCall (s : JudgeServers) (call : JudgeCall) (res : Bool) : JudgeServers :=
  { s with
    judge := s.judge.release
    answers := none
    leftEnabled := s.leftEnabled || (call = .wakeup && !res && s.judge.isEnabled) }

/-- What a server is behind a start or stop that has settled. -/
def settled (ok : Bool) : ServerState → Option ServerState
  | .starting => some (if ok then .running else .stopped)
  | .stopping => some (if ok then .stopped else .running)
  | .stopped | .running => none

def step (s : JudgeServers) : Action → Option JudgeServers
  | .wakeup => some { s with judge := (s.judge.wakeup .wakeup).getD s.judge }
  | .pending => some { s with judge := (s.judge.pending .pending).getD s.judge }
  | .resume =>
      match s.judge.lock.holder, s.answers with
      | some call, none => some (s.callServers call)
      | _, _ => none
  | .settle n ok =>
      (settled ok (s.servers.get n)).map (fun server =>
        { s with
          servers := s.servers.set n server
          answers := s.answers.map (fun answers => answers.set n (some ok)) })
  | .finish =>
      match s.judge.lock.holder, s.answers with
      | some call, some answers => (promiseAll answers).map (s.finishCall call)
      | _, _ => none

def machine : Machine JudgeServers Action where
  step := step

end JudgeServers

end ProxyBroker
