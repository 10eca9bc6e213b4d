/-
ProxyBroker.Server.Broker — the server with the rotator behind it
(`initialize`, `connectToExternProxy` and `doStateLog` of `ProxyServer.ts`).

A server that goes over proxies and has no target of its own gets `next`
and `log` of the rotator for `target` and `proxyLog`. So a request that
names no proxy calls `next` with its headers and awaits the call, and what
a request reports is a call of `doLog`.

The parts are the machines of `Exchange`, one for each request, and of
`Candidates`. The requests and all that goes on in the rotator interleave
at the awaits. Here a request may also stay in front of `getTarget`, and
the promise of `log` settles at any time.

The texts of the engine's exceptions are a parameter. A url `net.connect`
throws for is taken as none: either way the request ends and nothing is
sent.
-/
import ProxyBroker.Proxy.Candidates
import ProxyBroker.Server.GetTarget

namespace ProxyBroker.Server

open Lib SocketHandle Proxy

namespace Broker

/-- A request, and the call of `next` it awaits. -/
structure Client where
  request : Request
  ssl : Bool
  exchange : Exchange
  call : Option Nat := none
  /-- history: the entry its proxy is of, if the rotator has chosen it -/
  entry : Option Ref := none

def Client.config (options : Options) (c : Client) : Exchange.Config where
  options := options
  request := c.request
  ssl := c.ssl

end Broker

open Broker

structure Broker where
  pool : Candidates.Pool
  clients : List Client := []

namespace Broker

/-! ## `getTarget` -/

/-- A url that is connected to. One with a port has a host. -/
def connectable (t : GetTarget.ProxyUrl) : TargetResult :=
  match t.hostname, t.port with
  | some hostname, .num port =>
      if 0 ≤ port ∧ port ≤ 65535 then .url ⟨t.protocol, hostname, port.toNat⟩ else .nothing
  | _, _ => .nothing

def cantFindProxy : JsError := ⟨"cant find proxy address!".toList⟩

section

variable (describe : JsException → JsError)

/-- What `getTarget` comes to, for the request. -/
def settledAs : Except JsException (Option GetTarget.ProxyUrl) → TargetResult
  | .ok (some t) => connectable t
  | .ok none => .nothing
  | .error e => .rejected (describe e)

/-- `getTarget` for a request that names its proxy. -/
def selected (headers : List (Text × Text)) : Option TargetResult :=
  match headers.lookup (toLowerCase headerKeyProxySelectProxy) with
  | some value =>
      if ProxyAddress.test value then
        some (settledAs describe ((GetTarget.ofUrl (LegacyUrl.parse value)).map some))
      else none
  | none => none

/-- Both are parts of `getTarget`. -/
theorem settledAs_getTarget (next : List (Text × Text) → Except JsException GetTarget.Answer)
    (headers : List (Text × Text)) :
    settledAs describe (GetTarget.getTarget (.function next) headers) =
      (selected describe headers).getD
        (settledAs describe ((next headers).bind GetTarget.ofAnswer)) := by
  unfold GetTarget.getTarget selected
  cases headers.lookup (toLowerCase headerKeyProxySelectProxy) with
  | none => rfl
  | some value =>
      by_cases htest : ProxyAddress.test value = true
      · simp only [if_pos htest, Option.getD_some]
      · simp only [if_neg htest, Option.getD_none, GetTarget.configured]

/-- `getTarget` behind the await of `next`. -/
def answer (heap : Ref → IpAddr) : Option Ref → TargetResult
  | some e =>
      settledAs describe
        (GetTarget.ofAnswer (.ipAddr (heap e).state.protocolSrc (heap e).ip (heap e).port))
  | none => .rejected cantFindProxy

end

/-! ## `proxyLog` -/

/-- What a step has reported. -/
def reported (x y : Exchange) : Option ProxyUsed :=
  (y.outputs.drop x.outputs.length).findSome? (fun
    | .logged used => some used
    | _ => none)

/-! ## Steps -/

inductive Action where
  /-- node's server calls `root` or `onServerConnect` soon -/
  | accept (request : Request) (ssl : Bool) (requestHandle : SocketHandle)
  /-- a step of request number `i` that does not concern its target -/
  | exchange (i : Nat) (a : Exchange.Action)
  | getTarget (i elapsed : Nat)
  /-- the call of `next` is settled, and request number `i` goes on -/
  | answered (i : Nat)
  | pool (a : Candidates.Action)

def isOwn : Exchange.Action → Bool
  | .targetSettled _ => false
  | _ => true

section

variable (host : Host) (options : Options) (env : NextCalls.Env) (fetchSize : Nat)
variable (describe : JsException → JsError)

/-- `doStateLog`. -/
def report (pool : Candidates.Pool) : Option ProxyUsed → Option Candidates.Pool
  | some used => Candidates.step env fetchSize pool (.calls (.rotator (.doLog used false)))
  | none => some pool

def setClient (s : Broker) (i : Nat) (c : Client) : Broker :=
  { s with clients := s.clients.set i c }

/-- The target of a request is settled. -/
def settle (s : Broker) (i : Nat) (c : Client) (result : TargetResult) (entry : Option Ref) :
    Option Broker :=
  (Exchange.step host (c.config options) c.exchange (.targetSettled result)).map (fun exchange =>
    s.setClient i { c with exchange := exchange, call := none, entry := entry })

/-- `connectToExternProxy` up to its await. -/
def getTarget (s : Broker) (i : Nat) (c : Client) (elapsed : Nat) : Option Broker :=
  match selected describe c.request.headers with
  | some result => s.settle host options i c result none
  | none =>
      let select := selectorOf c.request.headers c.ssl
      (Candidates.step env fetchSize s.pool (.calls (.next select elapsed))).map (fun pool =>
        { s.setClient i { c with call := some s.pool.calls.asked.length } with pool := pool })

def step (s : Broker) : Action → Option Broker
  | .accept request ssl requestHandle =>
      let client : Client :=
        { request := request, ssl := ssl, exchange := { requestHandle := requestHandle } }
      some { s with clients := s.clients ++ [client] }
  | .exchange i a => do
      let c ← s.clients[i]?
      guard (isOwn a = true)
      let exchange ← Exchange.step host (c.config options) c.exchange a
      let pool ← report env fetchSize s.pool (reported c.exchange exchange)
      return { s.setClient i { c with exchange := exchange } with pool := pool }
  | .getTarget i elapsed => do
      let c ← s.clients[i]?
      guard (c.exchange.stage = .selecting ∧ c.call = none)
      s.getTarget host options env fetchSize describe i c elapsed
  | .answered i => do
      let c ← s.clients[i]?
      let call ← c.call
      let e ← s.pool.calls.settled.lookup call
      s.settle host options i c (answer describe s.pool.calls.rotator.heap e) e
  | .pool a => (Candidates.step env fetchSize s.pool a).map (fun pool => { s with pool := pool })

/-- A server with its rotator. -/
def machine : Machine Broker Action := ⟨step host options env fetchSize describe⟩

end

end Broker

end ProxyBroker.Server
