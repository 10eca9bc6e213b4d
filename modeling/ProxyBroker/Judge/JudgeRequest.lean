/-
ProxyBroker.Judge.JudgeRequest — a request of the judge over a proxy, and
what its socket does to it (`JudgeRequest.ts`).

The methods of a `JudgeRequest` listen to the stream of the http client,
to every request the stream brings and to every socket such a request is
given. Emitters, sockets and error objects have no content here: they are
numbers, which is their identity.

A method may read a property of null. The exception is then thrown out of
the event listener and ends the process, so a method returns `Except`.

`Watched` is a started request with the events that have reached it. An
event that no method listens to does not reach it and is no step.

Left out: the level detector, the monitor and what they record, the timer
(nothing sets it), options and log lines.
-/
import ProxyBroker.Lib.EventEmitter
import ProxyBroker.Lib.Transition
import ProxyBroker.Server.SocketHandle

namespace ProxyBroker.Judge

open Lib Server

namespace JudgeRequest

/-! ## Emitters and events -/

inductive Emitter where
  | stream
  | request (request : Nat)
  | socket (socket : Nat)
  deriving DecidableEq, Repr

inductive EventName where
  | request
  | socket
  | error
  | timeout
  | data
  deriving DecidableEq, Repr

/-- An event with its argument; a timeout with the error
`Exceptions.newSocketTimeout` makes for it. -/
inductive Event where
  | request (request : Nat)
  | socket (socket : Nat)
  | error (error : Nat)
  | timeout (error : Nat)
  | data
  deriving DecidableEq, Repr

def Event.name : Event → EventName
  | .request _ => .request
  | .socket _ => .socket
  | .error _ => .error
  | .timeout _ => .timeout
  | .data => .data

/-- The methods that listen. -/
inductive Method where
  | onRequest
  | onSocket
  | onRequestError
  | onSocketError
  | onSocketTimeout
  | onSocketData
  deriving DecidableEq, Repr

end JudgeRequest

open JudgeRequest

structure JudgeRequest where
  active : Bool := false
  aborted : Bool := false
  judgeConnected : Bool := false
  stream : Bool := false
  request : Option Nat := none
  socket : Option Nat := none
  socketStack : List Nat := []
  errors : List Nat := []
  listeners : Listeners Emitter EventName Method := {}
  /-- the sockets that are destroyed -/
  destroyed : List Nat := []
  deriving DecidableEq, Repr

namespace JudgeRequest

/-- `performRequest`, once the stream is there. -/
def performRequest (r : JudgeRequest) : JudgeRequest :=
  { r with
    active := true
    stream := true
    listeners := r.listeners.onBound .stream .request .onRequest }

/-- A property of `o` is read. -/
def deref {α : Type} (o : Option α) : Except JsException α :=
  match o with
  | some a => .ok a
  | none => .error .typeError

/-! ## The methods -/

def onRequest (r : JudgeRequest) (request : Nat) : JudgeRequest :=
  { r with
    request := some request
    listeners := (r.listeners.onBound (.request request) .socket .onSocket).onBound
      (.request request) .error .onRequestError }

def onSocket (r : JudgeRequest) (socket : Nat) : JudgeRequest :=
  { r with
    socketStack := r.socketStack ++ [socket]
    socket := some socket
    listeners := ((r.listeners.onBound (.socket socket) .error .onSocketError).onBound
      (.socket socket) .timeout .onSocketTimeout).onBound (.socket socket) .data .onSocketData }

def onSocketData (r : JudgeRequest) : Except JsException JudgeRequest := do
  -- `this.socket.setTimeout(0)`
  let _ ← deref r.socket
  return r

def abort (r : JudgeRequest) : Except JsException JudgeRequest :=
  if r.aborted then .ok r
  else do
    -- `this.request.emit('abort', …)`, `this.request.abort()`
    let _ ← deref r.request
    return { r with aborted := true }

def handleError (r : JudgeRequest) (error : Nat) : Except JsException JudgeRequest :=
  if error ∈ r.errors then .ok r else abort { r with errors := r.errors ++ [error] }

def onSocketTimeout (r : JudgeRequest) (error : Nat) : Except JsException JudgeRequest :=
  if r.judgeConnected then .ok r else handleError r error

/-- `freeSockets()` -/
def freeSockets (r : JudgeRequest) : JudgeRequest :=
  { r with destroyed := r.destroyed ++ r.socketStack.filter (· ∉ r.destroyed) }

/-- The part of `clear` about the request; `removeListener` is given
functions that are bound anew. -/
def clearRequest (r : JudgeRequest) : JudgeRequest :=
  match r.request with
  | some request =>
      { r with
        request := none
        listeners := (r.listeners.removeBound (.request request) .socket).removeBound
          (.request request) .error }
  | none => r

def clearSocket (r : JudgeRequest) : JudgeRequest :=
  match r.socket with
  | some socket =>
      { r with
        socket := none
        listeners := ((r.listeners.removeBound (.socket socket) .error).removeBound
          (.socket socket) .timeout).removeBound (.socket socket) .data }
  | none => r

def clearStream (r : JudgeRequest) : JudgeRequest :=
  if r.stream then
    { r with stream := false, listeners := r.listeners.removeBound .stream .request }
  else r

def clear (r : JudgeRequest) : JudgeRequest :=
  if !r.active then r
  else freeSockets (clearStream (clearSocket (clearRequest { r with active := false })))

/-! ## Events -/

/-- A method is called with the argument of the event. -/
def call (e : Event) (r : JudgeRequest) : Method → Except JsException JudgeRequest
  | .onRequest =>
      match e with
      | .request request => .ok (r.onRequest request)
      | _ => .ok r
  | .onSocket =>
      match e with
      | .socket socket => .ok (r.onSocket socket)
      | _ => .ok r
  | .onRequestError | .onSocketError =>
      match e with
      | .error error => r.handleError error
      | _ => .ok r
  | .onSocketTimeout =>
      match e with
      | .timeout error => r.onSocketTimeout error
      | _ => .ok r
  | .onSocketData => r.onSocketData

inductive Action where
  | emit (emitter : Emitter) (e : Event)
  /-- the judge server is reached over the proxy -/
  | onJudge
  | clear
  deriving DecidableEq, Repr

/-- The methods an event runs. -/
def heard (r : JudgeRequest) (emitter : Emitter) (e : Event) : List Method :=
  r.listeners.methods emitter e.name

def act (r : JudgeRequest) : Action → Except JsException JudgeRequest
  | .emit emitter e => (r.heard emitter e).foldlM (call e) r
  | .onJudge => .ok { r with judgeConnected := true }
  | .clear => .ok r.clear

/-- Whether anything happens: an event needs a listener. -/
def reaches (r : JudgeRequest) : Action → Bool
  | .emit emitter e => !(r.heard emitter e).isEmpty
  | .onJudge | .clear => true

end JudgeRequest

/-- A started request, with what has happened to it. -/
structure Watched where
  request : JudgeRequest := JudgeRequest.performRequest {}
  /-- history: what has happened, the latest first -/
  past : List Action := []
  /-- a listener has thrown -/
  crashed : Bool := false
  deriving DecidableEq, Repr

namespace Watched

def step (s : Watched) (a : Action) : Option Watched :=
  if s.crashed || !s.request.reaches a then none
  else
    some (match s.request.act a with
      | .ok request => { s with request := request, past := a :: s.past }
      | .error _ => { s with past := a :: s.past, crashed := true })

def machine : Machine Watched Action where
  step := step

end Watched

end ProxyBroker.Judge
