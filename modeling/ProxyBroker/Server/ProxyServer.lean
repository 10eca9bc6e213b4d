/-
ProxyBroker.Server.ProxyServer — one request through the broker
(`ProxyServer.ts`): `root` for plain HTTP, `onServerConnect` for CONNECT,
the attempts over extern proxies with their retries, the direct
connection, and the answers the broker writes itself.

The methods await each other; what runs between two awaits is one step.
`Stage` says which await the request is suspended in. The actions are
what can happen next: `getTarget` settles, the downstream connects or
emits an event, `onFinish` goes on, `proxyLog` settles. Everything that
is seen from outside is appended to `outputs`: a downstream is opened, a
chunk of it is piped to the client, the proxy is reported to `proxyLog`,
a 504 head is written, the answer is closed.

The downstream's handle parses what it reads, so a chunk may end the
process (`step` is then `none`, as for an action that is not possible).
A downstream that has finished is destroyed or closed and emits nothing
more that is read.

Left out: what the client sends while the request runs (`Server.Relay`),
and the log lines. The texts of the broker's own heads are in
`Server.Message`.
-/
import ProxyBroker.Lib.Transition
import ProxyBroker.Proxy.ProxyUsed
import ProxyBroker.Server.Relay

namespace ProxyBroker.Server

open Lib SocketHandle Proxy

/-! ## Headers of the broker -/

def headerKeyProxySelectLevel : Text := "Proxy-Select-Level".toList
def headerKeyProxySelectSpeedLimit : Text := "Proxy-Select-Speed-Limit".toList
def headerKeyProxySelectSsl : Text := "Proxy-Select-SSL".toList
def headerKeyProxySelectFallback : Text := "Proxy-Select-Fallback".toList
def headerKeyProxySelectCountry : Text := "Proxy-Select-Country".toList
def headerKeyProxySelectProxy : Text := "Proxy-Select-Proxy".toList
def headerKeyProxyVia : Text := "Via".toList
def headerKeyProxyXForwardedFor : Text := "X-Forwarded-For".toList
def headerKeyProxyBroker : Text := "Proxy-Broker".toList
def headerKeyProxyBrokerError : Text := "Proxy-Broker-Error".toList
def headerKeyProxyAgent : Text := "Proxy-agent".toList

/-! ## Options and requests -/

/-- `IProxyServerOptions`, as far as a request depends on it. -/
structure Options where
  level : Nat := 3
  toProxy : Bool := false
  /-- `target` is set -/
  target : Bool := false
  /-- `proxyLog` is set -/
  proxyLog : Bool := false
  repeatLimit : Nat := 3
  deriving DecidableEq, Repr

/-- What the server reads of an `http.IncomingMessage`. Node lower-cases
the names in `headers`. -/
structure Request extends ConnectRequest where
  headers : List (Text × Text)
  remoteAddress : Text
  localAddress : Text
  localPort : Text
  deriving DecidableEq, Repr

/-- `toLowerCase()` of the names above, which are ASCII. -/
def toLowerCase : Text → Text := List.map Char.toLower

def hasSelectedProxy (request : Request) : Bool :=
  request.headers.any (·.1 = toLowerCase headerKeyProxySelectProxy)

def hasFallbackHeader (reqHandle : SocketHandle) : Bool :=
  match reqHandle.headersList.find? (·.key = toLowerCase headerKeyProxySelectFallback) with
  | some res => !res.value.isEmpty
  | none => false

def viaValue (request : Request) : Text :=
  "ProxyBroker on ".toList ++ request.localAddress ++ [':'] ++ request.localPort

def onProxyRequest (host : Host) (options : Options) (handle : SocketHandle) (request : Request) :
    SocketHandle :=
  let handle := handle.removeHeader host headerKeyProxySelectLevel
  let handle := handle.removeHeader host headerKeyProxySelectSpeedLimit
  let handle := handle.removeHeader host headerKeyProxySelectSsl
  let handle := handle.removeHeader host headerKeyProxySelectFallback
  let handle := handle.removeHeader host headerKeyProxySelectCountry
  let handle := handle.removeHeader host headerKeyProxySelectProxy
  if options.level = 3 then
    (handle.setHeader host headerKeyProxyXForwardedFor request.remoteAddress).setHeader host
      headerKeyProxyVia (viaValue request)
  else if options.level = 2 then
    handle.setHeader host headerKeyProxyVia (viaValue request)
  else handle

/-! ## The exchange -/

/-- What is seen of a request from outside. -/
inductive Output where
  /-- a downstream socket is opened: over an extern proxy, or direct -/
  | opened (proxyUrl : Option UrlBase)
  /-- '200 Connection Established' of a direct tunnel -/
  | established
  /-- a chunk of the downstream is written to the client -/
  | piped (chunk : Bytes)
  /-- `proxyLog` is called -/
  | logged (used : ProxyUsed)
  /-- the 504 head of `errorResponse` or `errorUpstream` -/
  | gatewayTimeout (error : JsError)
  /-- `res.destroy()` or `upstream.end()` -/
  | closed
  deriving DecidableEq, Repr

/-- Where the request is suspended. -/
inductive Stage where
  /-- `root` or `onServerConnect` is not called yet -/
  | idle
  /-- `connectToExternProxy`: await `getTarget` -/
  | selecting
  /-- await `handle.onFinish()`; without `proxyUrl` the downstream is
  direct -/
  | attempt (proxyUrl : Option UrlBase) (connected : Bool) (handle : SocketHandle)
  /-- await `doStateLog` -/
  | logging (handle : SocketHandle)
  | ended
  deriving DecidableEq, Repr

structure Exchange where
  requestHandle : SocketHandle
  /-- the handle is still in `handles` -/
  present : Bool := true
  stage : Stage := .idle
  outputs : List Output := []
  deriving DecidableEq, Repr

inductive TargetResult where
  | url (proxyUrl : UrlBase)
  | nothing
  | rejected (error : JsError)
  deriving DecidableEq, Repr

namespace Exchange

/-- What the request is and how the server is configured. `ssl` tells a
CONNECT request. -/
structure Config where
  options : Options
  request : Request
  ssl : Bool
  deriving DecidableEq, Repr

def emit (x : Exchange) (o : Output) : Exchange := { x with outputs := x.outputs ++ [o] }

def suspend (x : Exchange) (stage : Stage) : Exchange := { x with stage := stage }

/-- `errorResponse`, `errorUpstream`. -/
def fail (x : Exchange) (error : JsError) : Exchange :=
  (x.emit (.gatewayTimeout error)).suspend .ended

/-- A downstream socket with a handle of its own. -/
def openDownstream (x : Exchange) (proxyUrl : Option UrlBase) : Exchange :=
  (x.emit (.opened proxyUrl)).suspend (.attempt proxyUrl false {})

def cantEstablish : JsError := ⟨"Can't establish connection.".toList⟩

/-- Over an extern proxy, or direct: the second half of `root` and of
`onServerConnect`. -/
def route (cfg : Config) (disableProxyToProxy : Bool) (x : Exchange) : Exchange :=
  if cfg.options.toProxy && cfg.options.target && !disableProxyToProxy then x.suspend .selecting
  else x.openDownstream none

def root (host : Host) (cfg : Config) (disableProxyToProxy : Bool) (x : Exchange) : Exchange :=
  if x.present then
    route cfg disableProxyToProxy
      { x with requestHandle := onProxyRequest host cfg.options x.requestHandle cfg.request }
  else x.fail cantEstablish

def onServerConnect (host : Host) (cfg : Config) (disableProxyToProxy : Bool) (x : Exchange) :
    Exchange :=
  if x.present then
    route cfg disableProxyToProxy
      { x with requestHandle := onProxyRequest host cfg.options x.requestHandle cfg.request }
  else
    -- `onProxyRequest` reads a property of undefined: the promise rejects
    x.suspend .ended

/-- Try again over another proxy, fall back to a direct connection
(`direct`), or answer with the error. -/
def retry (cfg : Config) (direct : Exchange → Exchange) (error : Option JsError)
    (x : Exchange) : Exchange :=
  let checkRepeats := cfg.options.toProxy && !hasSelectedProxy cfg.request
  if x.requestHandle.metaRepeat < cfg.options.repeatLimit ∧ checkRepeats then
    { x with
      requestHandle := { x.requestHandle with metaRepeat := x.requestHandle.metaRepeat + 1 }
      stage := .selecting }
  else if cfg.options.repeatLimit ≤ x.requestHandle.metaRepeat ∧ checkRepeats ∧
      hasFallbackHeader x.requestHandle then
    direct x
  else
    match error with
    | some error => x.fail error
    | none => x

def handleUpstreamAfterFinishedRequest (host : Host) (cfg : Config) (handle : SocketHandle)
    (x : Exchange) : Exchange :=
  if handle.hasError && handle.hasSocketError then
    retry cfg (onServerConnect host cfg true) handle.error x
  else (x.emit .closed).suspend .ended

def handleResponseAfterFinishedRequest (host : Host) (cfg : Config) (handle : SocketHandle)
    (x : Exchange) : Exchange :=
  if handle.hasError then retry cfg (root host cfg true) handle.error x
  else (x.emit .closed).suspend .ended

def handleAfterFinishedRequest (host : Host) (cfg : Config) (handle : SocketHandle)
    (x : Exchange) : Exchange :=
  if cfg.ssl then handleUpstreamAfterFinishedRequest host cfg handle x
  else handleResponseAfterFinishedRequest host cfg handle x

/-! ## Steps -/

inductive Action where
  /-- `root` or `onServerConnect` is called -/
  | start
  /-- the promise of `getTarget` settles -/
  | targetSettled (result : TargetResult)
  /-- the connect callback of the downstream -/
  | connect
  /-- an event of the downstream -/
  | socket (e : Event)
  /-- the promise of `onFinish` resolves; `duration` is what the handle
  measured -/
  | resume (duration : Nat)
  /-- the promise of `doStateLog` settles -/
  | logSettled (ok : Bool)
  /-- the client's handle has finished and leaves `handles` -/
  | clientGone
  deriving DecidableEq, Repr

/-- Which events a socket emits; data only once it is connected. -/
def emits (connected : Bool) : Event → Bool
  | .data _ => connected
  | .error _ | .timeout | .close | .finish => true
  | .removeHeader _ | .setHeader _ _ => false

def step (host : Host) (cfg : Config) (x : Exchange) : Action → Option Exchange
  | .start =>
      match x.stage with
      | .idle =>
          some (if cfg.ssl then x.onServerConnect host cfg false else x.root host cfg false)
      | _ => none
  | .targetSettled result =>
      match x.stage, result with
      | .selecting, .url proxyUrl => some (x.openDownstream (some proxyUrl))
      -- the TodoException rejects the promise of the whole chain
      | .selecting, .nothing => some (x.suspend .ended)
      | .selecting, .rejected error => some (x.fail error)
      | _, _ => none
  | .connect =>
      match x.stage with
      | .attempt proxyUrl false handle =>
          if handle.finished then none
          else
            let x := x.suspend (.attempt proxyUrl true handle)
            some (if cfg.ssl && proxyUrl.isNone then x.emit .established else x)
      | _ => none
  | .socket e =>
      match x.stage with
      | .attempt proxyUrl connected handle =>
          if handle.finished || !emits connected e then none
          else
            match handleEvent host handle e with
            | .error _ => none
            | .ok handle' =>
                let x := x.suspend (.attempt proxyUrl connected handle')
                some (match e.chunk? with
                  | some chunk => x.emit (.piped chunk)
                  | none => x)
      | _ => none
  | .resume duration =>
      match x.stage with
      | .attempt proxyUrl _ handle =>
          if handle.finished then
            match proxyUrl with
            | some proxyUrl =>
                let x := x.suspend (.logging handle)
                some (if cfg.options.proxyLog then
                    x.emit (.logged (ProxyUsed.ofHandle proxyUrl handle cfg.ssl duration))
                  else x)
            | none => some (x.handleAfterFinishedRequest host cfg handle)
          else none
      | _ => none
  | .logSettled ok =>
      match x.stage with
      | .logging handle =>
          some (if ok then x.handleAfterFinishedRequest host cfg handle else x.suspend .ended)
      | _ => none
  | .clientGone => some { x with present := false }

def machine (host : Host) (cfg : Config) : Machine Exchange Action where
  step := step host cfg

end Exchange

end ProxyBroker.Server
