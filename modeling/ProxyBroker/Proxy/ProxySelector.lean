/-
ProxyBroker.Proxy.ProxySelector — how a request says which proxy it
wants: the selector `connectToExternProxy` passes on,
`ProxyRotator.parseProxyHeader`, and the test `take` makes on an entry
of the active list.

A selector is a JavaScript object: the request headers, names
lower-cased by Node, with `targetSSL` set on it. `parseProxyHeader`
copies what it takes for selection headers into a new object; the
regular expression in it has an escaped backslash, so it is kept here
as written.
-/
import ProxyBroker.Lib.JsValue
import ProxyBroker.Proxy.ProxyUsed

namespace ProxyBroker.Proxy

open Lib Server

/-! ## Entries -/

/-- `IpAddrState`: one verdict of the judge. A null duration compares
like 0. -/
structure IpAddrState where
  protocolSrc : ProtocolType
  protocolDest : ProtocolType
  level : Int
  duration : Nat
  deriving DecidableEq, Repr

/-- `IpRotate`: the usage record of an address and source protocol. -/
structure IpRotate where
  protocolSrc : ProtocolType
  addrId : Nat
  successes : Nat := 0
  errors : Nat := 0
  duration : Nat := 0
  durationAverage : Nat := 0
  inc : Nat := 0
  used : Nat := 0
  deriving DecidableEq, Repr

/-- An `IpAddr` object as the rotator holds it: the address with its
joined rows and the counters that live in memory only. -/
structure IpAddr where
  ip : Text
  port : Nat
  state : IpAddrState
  rotate : Option IpRotate := none
  /-- country code of the address's `IpLoc` row; `take` does not read
  it -/
  country : Option Text := none
  used : Nat := 0
  success : Nat := 0
  errors : Nat := 0
  durationAvg : Nat := 0
  odd : Nat := 0
  updatedAt : Nat := 0
  deriving DecidableEq, Repr

/-! ## From headers to a selector -/

def kTargetSSL : Text := "targetSSL".toList
def kSsl : Text := "ssl".toList
def kLevel : Text := "level".toList
def kSpeedLimit : Text := "speed-limit".toList

/-- `_.clone(request.headers)` with `targetSSL` set. -/
def selectorOf (headers : List (Text × Text)) (ssl : Bool) : Object :=
  Object.set (headers.map (fun h => (h.1, .str h.2))) kTargetSSL (.bool ssl)

/-- `s.replace(pat, rep)` with a text as pattern: the first occurrence. -/
def replaceFirst (pat rep s : Text) : Text :=
  match indexOf? pat s with
  | some i => s.take i ++ rep ++ s.drop (i + pat.length)
  | none => s

/-- `/^proxy\\-select/`: in the regular expression the first backslash
escapes the second. -/
def selectPattern : Text := "proxy\\-select".toList

/-- The text that is cut out of a recognised name. -/
def proxySelect : Text := "proxy-select-".toList

/-- The value of a selection header. -/
def headerValue : JsValue → JsValue
  | .str s =>
      if s = "true".toList then .bool true
      else if s = "false".toList then .bool false
      else if s.any Char.isDigit then JsValue.parseInt s
      else .str s
  | v => v

/-- The body of the `forEach` in `parseProxyHeader`. -/
def parseEntry (acc : Object) (entry : Text × JsValue) : Object :=
  if selectPattern.isPrefixOf entry.1 then
    acc.set (replaceFirst proxySelect [] entry.1) (headerValue entry.2)
  else if entry.1 = kSsl ∨ entry.1 = kTargetSSL then acc.set kTargetSSL entry.2
  else acc

def parseProxyHeader (headers : Object) : Object := headers.foldl parseEntry []

/-! ## What `take` asks of an entry -/

/-- The selector part of the `findIndex` in `take`. -/
def selectorMatches (selector : Object) (state : IpAddrState) : Bool :=
  let speedLimit := selector.get kSpeedLimit
  let level := selector.get kLevel
  (!speedLimit.truthy || JsValue.le state.duration speedLimit) &&
    (!level.truthy || JsValue.le state.level level) &&
    (if (selector.get kTargetSSL).truthy then decide (state.protocolDest = .https)
      else decide (state.protocolDest = .http))

end ProxyBroker.Proxy
