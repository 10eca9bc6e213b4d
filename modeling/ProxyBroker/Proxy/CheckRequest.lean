/-
ProxyBroker.Proxy.CheckRequest — the request that shows whether a proxy
works (`do` and `doRequest` of `ProxyRotator.ts`).

It goes over the proxy itself, or over the broker's own server, with the
proxy's address in `Proxy-Select-Proxy`. `proxyUrlStr_eq` says that this
address is one the pattern of addresses knows, with all its parts;
`doRequest_eq_ok_iff`, which answers make the proxy pass.

`get`, of the http client, is a parameter. Left out: log lines.
-/
import ProxyBroker.Proxy.ProxyAddress
import ProxyBroker.Proxy.ProxySelector
import ProxyBroker.Server.ProxyServer

namespace ProxyBroker.Proxy.CheckRequest

open Lib Server ProxyAddress

/-! ## The request -/

def headerKeyUserAgent : Text := "user-agent".toList

/-- `DEFAULT_USER_AGENT`, which is null. -/
def defaultUserAgent : Option Text := none

def protocolText : ProtocolType → Text
  | .http => "http".toList
  | .https => "https".toList

/-- A port as text. -/
def portText (port : Nat) : Text := Nat.toDigits 10 port

def proxyUrlStr (workLoad : IpAddr) : Text :=
  protocolText workLoad.state.protocolSrc ++ "://".toList ++
    (workLoad.ip ++ ':' :: portText workLoad.port)

def baseUrlStr (workLoad : IpAddr) : Text :=
  protocolText workLoad.state.protocolDest ++ "://httpbin.org/get".toList

/-- `IHttpGetOptions`. -/
structure GetOptions where
  timeout : Nat
  proxy : Text
  retry : Nat
  json : Bool
  headers : List (Text × Option Text)
  proxyHeaders : List (Text × Option Text) := []
  deriving DecidableEq, Repr

def requestOptions (timeout : Nat) (proxyServerUri : Option Text) (proxyUrlStr : Text) :
    GetOptions :=
  let reqOptions : GetOptions :=
    { timeout := timeout
      proxy := proxyUrlStr
      retry := 0
      json := true
      headers := [(headerKeyUserAgent, defaultUserAgent)] }
  match proxyServerUri with
  | some uri =>
      { reqOptions with
        proxy := uri
        proxyHeaders := [(headerKeyProxySelectProxy, some proxyUrlStr)]
        headers := reqOptions.headers ++ [(headerKeyProxySelectProxy, some proxyUrlStr)] }
  | none => reqOptions

structure Response where
  statusCode : Nat
  statusMessage : Text
  deriving DecidableEq, Repr

/-- What `doRequest` rejects with. -/
structure RequestError where
  message : Text
  statusCode : Option Nat := none
  deriving DecidableEq, Repr

def doRequest (get : Text → GetOptions → Except RequestError Response) (timeout : Nat)
    (proxyServerUri : Option Text) (baseUrlStr proxyUrlStr : Text) : Except RequestError Unit := do
  let response ← get baseUrlStr (requestOptions timeout proxyServerUri proxyUrlStr)
  if response.statusCode < 200 ∨ 400 ≤ response.statusCode then
    throw {
      message := "wrong status code ".toList ++
        (Nat.toDigits 10 response.statusCode ++ ' ' :: response.statusMessage)
      statusCode := some response.statusCode }

/-- The check succeeds with the answers the client takes for one. -/
theorem doRequest_eq_ok_iff {get : Text → GetOptions → Except RequestError Response}
    {timeout : Nat} {proxyServerUri : Option Text} {baseUrlStr proxyUrlStr : Text} :
    doRequest get timeout proxyServerUri baseUrlStr proxyUrlStr = .ok () ↔
      ∃ response, get baseUrlStr (requestOptions timeout proxyServerUri proxyUrlStr) =
        .ok response ∧ 200 ≤ response.statusCode ∧ response.statusCode < 400 := by
  unfold doRequest
  cases get baseUrlStr (requestOptions timeout proxyServerUri proxyUrlStr) with
  | error e => simp [bind, Except.bind]
  | ok response =>
      simp only [bind, Except.bind, Except.ok.injEq, exists_eq_left']
      split
      · rename_i h
        refine iff_of_false (by simp [throw, throwThe, MonadExceptOf.throw]) (by omega)
      · rename_i h
        exact iff_of_true rfl (by omega)

/-! ## The address -/

/-- The address is four octets, and the port has five digits at most. -/
structure Addressed (workLoad : IpAddr) where
  a : Text
  b : Text
  c : Text
  d : Text
  octet_a : IsOctet a
  octet_b : IsOctet b
  octet_c : IsOctet c
  octet_d : IsOctet d
  ip_eq : workLoad.ip = a ++ '.' :: (b ++ '.' :: (c ++ '.' :: d))
  port_lt : workLoad.port < 100000

variable {workLoad : IpAddr}

theorem digits_portText (port : Nat) : Decimal.Digits (portText port) :=
  fun _ hc => Nat.isDigit_of_mem_toDigits (by decide) (by decide) hc

theorem value_portText (port : Nat) : Decimal.value (portText port) = port := by
  have hstep : (fun n c => n * 10 + Decimal.digit c) =
      (fun n (c : Char) => 10 * n + (c.toNat - '0'.toNat)) := by
    funext n c
    rw [Nat.mul_comm]
    rfl
  rw [Decimal.value, hstep]
  exact Nat.ofDigitChars_toDigits (by decide) (by decide)

theorem isPort_portText {port : Nat} (h : port < 100000) : IsPort (portText port) where
  ne_nil := Nat.toDigits_ne_nil
  length_le := (Nat.length_toDigits_le_iff (by decide) (by decide)).mpr (by omega)
  digits := digits_portText port

/-- The parts of the address. -/
def Addressed.parts (h : Addressed workLoad) : Match where
  scheme := some (protocolText workLoad.state.protocolSrc)
  a := h.a
  b := h.b
  c := h.c
  d := h.d
  colon := true
  port := some (portText workLoad.port)

theorem Addressed.formed (h : Addressed workLoad) : h.parts.Formed where
  scheme s hs := by
    cases hs
    cases workLoad.state.protocolSrc
    · exact .inl rfl
    · exact .inr rfl
  a := h.octet_a
  b := h.octet_b
  c := h.octet_c
  d := h.octet_d
  port p hp := by
    cases hp
    exact isPort_portText h.port_lt

/-- **The address is spelled out in full.** -/
theorem proxyUrlStr_eq (h : Addressed workLoad) : proxyUrlStr workLoad = h.parts.text := by
  rw [proxyUrlStr, h.ip_eq]
  rfl

end ProxyBroker.Proxy.CheckRequest
