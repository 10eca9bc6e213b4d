/-
ProxyBroker.Proxy.ProxyUsed — the report on one use of an extern proxy
(`ProxyUsed.ts`), which the server writes and the rotator reads.

Left out: `start` and `stop`, which only go into a log table that is not
written any more.
-/
import ProxyBroker.Server.SocketHandle

namespace ProxyBroker.Proxy

open Server

/-- `ProtocolType`. -/
inductive ProtocolType where
  | http
  | https
  deriving DecidableEq, Repr

/-- `IUrlBase`. -/
structure UrlBase where
  protocol : Text
  hostname : Text
  port : Nat
  deriving DecidableEq, Repr

structure ProxyUsed where
  protocol : ProtocolType
  protocolDest : ProtocolType
  ip : Text
  port : Nat
  duration : Nat := 0
  success : Bool := false
  error : Option JsError := none
  statusCode : Option Nat := none
  deriving DecidableEq, Repr

/-- `new ProxyUsed(options, handle)`: the url says which proxy was used,
the handle what came of it. `sslTarget` and `duration` are fields of the
handle. -/
def ProxyUsed.ofHandle (options : UrlBase) (handle : SocketHandle) (sslTarget : Bool)
    (duration : Nat) : ProxyUsed where
  protocol := if options.protocol = "https".toList then .https else .http
  protocolDest := if sslTarget then .https else .http
  ip := options.hostname
  port := options.port
  duration := duration
  success := !handle.hasError
  error := handle.error
  statusCode := handle.statusCode

end ProxyBroker.Proxy
