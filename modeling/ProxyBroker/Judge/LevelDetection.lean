/-
ProxyBroker.Judge.LevelDetection — how well a proxy hides its client
(`LevelDetection.ts`): the headers the judge server receives are searched
for the local address and for the proxy's own.

The two patterns are regular expressions with the flags `g` and `i`: an
alternative for each name of the address, the name literally and behind
it white space, a colon or the end. `test` on such an expression starts
at `lastIndex`, which it moves, so an expression is a state here and
`test` returns the next one.

Node decodes header bytes as Latin-1: a character is one code unit, and
`canonicalize` is the case folding on that range.

Taken from the surroundings: the lower-casing of the locale, and the
lookups of `DomainUtils`. `escapeRegExp` is taken to escape literally,
so an alternative is its text.
-/
import ProxyBroker.Lib.JsText

namespace ProxyBroker.Judge

open Lib

abbrev Text := List Char

/-! ## Header names -/

def httpForwardHeader : List Text :=
  ["forwarded-for", "http-x-forwarded-for", "http-client-ip", "x-client-ip",
    "x-http-forwarded-for", "forwarded", "http-forwarded", "accproxyws", "cdn-src-ip",
    "client-ip", "cuda_cliip", "forwarded", "forwarded-for", "remote-host", "x-client-ip",
    "x-coming-from", "x-forwarded", "x-forwarded-for", "x-forwarded-for-ip",
    "x-forwarded-host", "x-forwarded-server", "x-host", "x-network-info",
    "x-nokia-remotesocket", "x-proxyuser-ip", "x-qihoo-ip", "x-real-ip",
    "xcnool_forwarded_for", "xcnool_remote_addr"].map String.toList

def httpViaHeader : List Text :=
  ["http-via", "proxy-connection", "mt-proxy-id", "proxy-agent", "surrogate-capability", "via",
    "x-authenticated-user", "x-bluecoat-via", "x-cache", "x-cid-hash", "x-content-opt",
    "x-d-forwarder", "x-fikker", "x-forwarded-proto", "x-imforwards", "x-loop-control",
    "x-mato-param", "x-nai-id", "x-nokia-gateway-id", "x-nokia-localsocket", "x-proxy-id",
    "x-roaming", "x-turbopage", "x-varnish", "x-via", "x-wap-profile", "x-wrproxy-id",
    "x-xff-0", "xroxy-connection"].map String.toList

def ignoreHeaders : List Text := ["host".toList]

/-! ## Address patterns -/

/-- Case folding of the flag `i`, on Latin-1. -/
def canonicalize (c : Char) : Char :=
  let n := c.toNat
  if (0x61 ≤ n ∧ n ≤ 0x7A) ∨ (0xE0 ≤ n ∧ n ≤ 0xFE ∧ n ≠ 0xF7) then Char.ofNat (n - 0x20) else c

/-- What may stand behind the address: `(\s|$|:)`, and how many
characters of it belong to the match. -/
def boundary : Text → Option Nat
  | [] => some 0
  | c :: _ => if JsText.isSpace c || c = ':' then some 1 else none

/-- One alternative at the start of a text: the length of its match. -/
def matchAlternative (name s : Text) : Option Nat :=
  if (name.map canonicalize).isPrefixOf (s.map canonicalize) then
    (boundary (s.drop name.length)).map (name.length + ·)
  else none

/-- The first alternative that matches at the start of a text. -/
def matchStart (names : List Text) (s : Text) : Option Nat :=
  names.findSome? (fun name => matchAlternative name s)

/-- Where the first match in a text ends; `i` is the index the text
starts at. -/
def searchFrom (names : List Text) : Nat → Text → Option Nat
  | i, s =>
      match matchStart names s with
      | some n => some (i + n)
      | none =>
          match s with
          | [] => none
          | _ :: s => searchFrom names (i + 1) s

/-- A regular expression with flags `gi`. -/
structure AddrRegex where
  names : List Text := []
  lastIndex : Nat := 0
  deriving DecidableEq, Repr

/-- `regex.test(value)`. -/
def AddrRegex.test (regex : AddrRegex) (value : Text) : Bool × AddrRegex :=
  let found :=
    if value.length < regex.lastIndex then none
    else searchFrom regex.names regex.lastIndex (value.drop regex.lastIndex)
  match found with
  | some last => (true, { regex with lastIndex := last })
  | none => (false, { regex with lastIndex := 0 })

/-! ## Detection -/

/-- `DomainUtils`: the address of a name, if there is one, and the names
of an address. -/
structure DomainUtils where
  domainLookup : Text → Option Text
  reverse : Text → List Text

structure Header where
  key : Text
  value : Text
  hasLocalIp : Bool := false
  hasProxyIp : Bool := false
  isForward : Bool := false
  isVia : Bool := false
  deriving DecidableEq, Repr

structure Stats where
  hasLocalIp : Nat := 0
  hasProxyIp : Nat := 0
  isVia : Nat := 0
  isForward : Nat := 0
  deriving DecidableEq, Repr

structure LevelDetection where
  proxyIp : Text
  localIp : Text
  localRegex : AddrRegex := {}
  proxyRegex : AddrRegex := {}
  stats : Stats := {}
  recvHeaders : List Header := []
  level : Int := -1
  deriving DecidableEq, Repr

namespace LevelDetection

def createAddrRegex (dns : DomainUtils) (ip : Text) : List Text :=
  match dns.domainLookup ip with
  | none => [ip]
  | some addr =>
      [ip] ++ (if addr ≠ ip then [addr] else []) ++ (if addr ≠ [] then dns.reverse addr else [])

def prepare (dns : DomainUtils) (d : LevelDetection) : LevelDetection :=
  { d with
    localRegex := { names := createAddrRegex dns d.localIp }
    proxyRegex := { names := createAddrRegex dns d.proxyIp } }

/-- The headers that are looked at. -/
def received (headers : List (Text × Text)) : List (Text × Text) :=
  headers.filter (fun h => h.1 ∉ ignoreHeaders)

def addRecvHeader (headers : List (Text × Text)) (d : LevelDetection) : LevelDetection :=
  { d with
    recvHeaders := d.recvHeaders ++
      (received headers).map (fun h => { key := h.1, value := h.2 }) }

/-- The flags of a header, set but never reset. -/
def markHeader (toLocaleLowerCase : Text → Text) (isLocal isProxy : Bool) (header : Header) :
    Header :=
  { header with
    hasLocalIp := header.hasLocalIp || isLocal
    hasProxyIp := header.hasProxyIp || isProxy
    isForward := header.isForward || decide (toLocaleLowerCase header.key ∈ httpForwardHeader)
    isVia := header.isVia || decide (toLocaleLowerCase header.key ∈ httpViaHeader) }

/-- The counters of the flags that are true. -/
def countFlags (stats : Stats) (header : Header) : Stats where
  hasLocalIp := stats.hasLocalIp + header.hasLocalIp.toNat
  hasProxyIp := stats.hasProxyIp + header.hasProxyIp.toNat
  isVia := stats.isVia + header.isVia.toNat
  isForward := stats.isForward + header.isForward.toNat

/-- The loop of `detect`. -/
def detectHeaders (toLocaleLowerCase : Text → Text) :
    List Header → LevelDetection → List Header × LevelDetection
  | [], d => ([], d)
  | header :: headers, d =>
      let (isLocal, localRegex) := d.localRegex.test header.value
      let (isProxy, proxyRegex) := d.proxyRegex.test header.value
      let header := markHeader toLocaleLowerCase isLocal isProxy header
      let (rest, d') := detectHeaders toLocaleLowerCase headers
        { d with
          localRegex := localRegex
          proxyRegex := proxyRegex
          stats := countFlags d.stats header }
      (header :: rest, d')

def hasForwardHeader (d : LevelDetection) : Bool := 0 < d.stats.isForward
def hasViaHeader (d : LevelDetection) : Bool := 0 < d.stats.isVia
def hasProxyIP (d : LevelDetection) : Bool := 0 < d.stats.hasProxyIp
def hasLocalIP (d : LevelDetection) : Bool := 0 < d.stats.hasLocalIp

def detect (toLocaleLowerCase : Text → Text) (d : LevelDetection) : LevelDetection :=
  let (headers, d) := detectHeaders toLocaleLowerCase d.recvHeaders d
  { d with
    recvHeaders := headers
    level :=
      if !d.hasLocalIP && !d.hasProxyIP && !d.hasViaHeader && !d.hasForwardHeader then 1
      else if !d.hasLocalIP then 2
      else 3 }

end LevelDetection

end ProxyBroker.Judge
