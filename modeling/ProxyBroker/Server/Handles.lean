/-
ProxyBroker.Server.Handles — the handles a broker keeps on its sockets
(`createSocketHandle`, `removeHandle`, `getSocketHandle` and
`preFinalize` of `ProxyServer.ts`).

A handle goes into `handles` when its socket comes. It leaves in the
`then` of its `onFinish`, one microtask after `finish` has emitted on the
socket. `preFinalize` waits for an empty list, for 500 ms at most: its
timer finishes what is left there.

What a socket emits, microtasks and timers are actions, in any order. A
socket has one handle, with the id that stands in its `handle_id`. The
ids are counted by all servers of the process together.

Left out: the options of a handle, and log lines.
-/
import ProxyBroker.Lib.Transition
import ProxyBroker.Server.SocketHandle

namespace ProxyBroker.Server.Handles

open Lib SocketHandle

structure ProxyServer where
  /-- `SocketHandle.inc` -/
  inc : Nat := 1
  /-- the sockets that were given a handle, by `handle_id` -/
  sockets : List (Nat × SocketHandle) := []
  /-- the ids of `handles` -/
  handles : List Nat := []
  /-- resolved promises of `onFinish` whose `then` did not run yet -/
  settled : List Nat := []
  /-- how often `preFinalize` was called -/
  calls : Nat := 0
  /-- calls with a listener and a timer -/
  waiting : List Nat := []
  /-- calls whose promise is resolved -/
  resolved : List Nat := []
  deriving DecidableEq, Repr

/-- The handle on a socket. -/
def handleOf (s : ProxyServer) (id : Nat) : Option SocketHandle :=
  (s.sockets.find? (·.1 = id)).map Prod.snd

def createSocketHandle (s : ProxyServer) : ProxyServer :=
  { s with
    inc := s.inc + 1
    sockets := s.sockets ++ [(s.inc, {})]
    handles := s.handles ++ [s.inc] }

/-- `server.emit(E_EMPTY_SOCKET_HANDLES)`: every listener clears its timer
and resolves. -/
def emitEmpty (s : ProxyServer) : ProxyServer :=
  { s with
    waiting := []
    resolved := s.resolved ++ s.waiting }

def removeHandle (s : ProxyServer) (id : Nat) : ProxyServer :=
  let s := { s with handles := s.handles.filter (· ≠ id) }
  if s.handles.length = 0 then emitEmpty s else s

def getSocketHandle (s : ProxyServer) (id : Nat) : Option SocketHandle :=
  (s.handles.find? (· = id)).bind (handleOf s)

/-- A handle has changed. The promises of its `onFinish` resolve when it
has finished only now. -/
def update (s : ProxyServer) (id : Nat) (handle handle' : SocketHandle) : ProxyServer :=
  { s with
    sockets := s.sockets.map (fun x => if x.1 = id then (x.1, handle') else x)
    settled := if !handle.finished && handle'.finished then s.settled ++ [id] else s.settled }

/-- `handle.finish()` -/
def finishHandle (s : ProxyServer) (id : Nat) : ProxyServer :=
  match handleOf s id with
  | some handle => update s id handle handle.finish
  | none => s

/-- The loop of the timer over what is in `handles`. -/
def finishHandles : List Nat → ProxyServer → ProxyServer
  | [], s => s
  | id :: rest, s => finishHandles rest (finishHandle { s with handles := rest } id)

def onTimer (s : ProxyServer) : ProxyServer := emitEmpty (finishHandles s.handles s)

def preFinalize (s : ProxyServer) : ProxyServer :=
  let s' := { s with calls := s.calls + 1 }
  if 0 < s.handles.length then { s' with waiting := s.waiting ++ [s.calls] }
  else { s' with resolved := s.resolved ++ [s.calls] }

inductive Action where
  /-- another server of the process makes a handle -/
  | otherServer
  /-- a client connects, or a downstream is opened -/
  | connection
  /-- what happens to the handle of a socket -/
  | socket (id : Nat) (e : Event)
  /-- the `then` of the next promise runs -/
  | microtask
  | preFinalize
  /-- the timer of a call is due -/
  | timer (call : Nat)
  deriving DecidableEq, Repr

def step (host : Host) (s : ProxyServer) : Action → Option ProxyServer
  | .otherServer => some { s with inc := s.inc + 1 }
  | .connection => some (createSocketHandle s)
  | .socket id e =>
      match handleOf s id with
      | some handle =>
          match handleEvent host handle e with
          | .ok handle' => some (update s id handle handle')
          | .error _ => none
      | none => none
  | .microtask =>
      match s.settled with
      | id :: rest => some (removeHandle { s with settled := rest } id)
      | [] => none
  | .preFinalize => some (preFinalize s)
  | .timer call => if call ∈ s.waiting then some (onTimer s) else none

def machine (host : Host) : Machine ProxyServer Action := ⟨step host⟩

end ProxyBroker.Server.Handles
