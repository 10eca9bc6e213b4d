/-
ProxyBroker.Server.SelectedProxyTheorems — a request that names its proxy.

The broker's own check of a proxy goes over its own server and names the
proxy in `Proxy-Select-Proxy`. That the check says something about this
proxy rests on three parts: the address is written so that `getTarget`
reads the same address (`getTarget_checked`), the server goes on to no
other proxy and to no direct connection when it fails
(`logSettled_selected`), and so nothing comes to the client but over this
proxy, or from the server as an error (`checked_run`).

A server that does not go over proxies takes no notice of the header. The
http client and node's server hand headers on as they are, with the names
lower-cased (`Carries`).
-/
import ProxyBroker.Proxy.CheckRequest
import ProxyBroker.Server.GetTarget
import ProxyBroker.Server.RetryTheorems

namespace ProxyBroker.Server

open Lib SocketHandle Proxy CheckRequest

namespace Exchange

variable {host : Host} {cfg : Config}

/-! ## A request with a selected proxy -/

theorem retry_selected (hselected : hasSelectedProxy cfg.request = true)
    (direct : Exchange → Exchange) (error : JsError) (x : Exchange) :
    retry cfg direct (some error) x = x.fail error := by
  simp [retry, hselected]

/-- **There is no second attempt.** -/
theorem logSettled_selected (hselected : hasSelectedProxy cfg.request = true) {x y : Exchange}
    {ok : Bool} {handle : SocketHandle} (hstage : x.stage = .logging handle)
    (h : step host cfg x (.logSettled ok) = some y) : y.stage = .ended := by
  simp only [step, hstage, Option.some.injEq] at h
  subst h
  cases ok with
  | false => rfl
  | true =>
      cases hf : failed cfg handle with
      | false =>
          rw [if_pos rfl, handleAfterFinishedRequest_ok host hf]
          rfl
      | true =>
          obtain ⟨direct, error, -, heq⟩ := handleAfterFinishedRequest_failed host hf x
          rw [if_pos rfl, heq, retry_selected hselected]
          rfl

/-- What may follow the connection to a proxy. -/
def Follows (proxyUrl : UrlBase) : Output → Prop
  | .piped _ | .closed | .gatewayTimeout _ => True
  | .logged used => used.ip = proxyUrl.hostname ∧ used.port = proxyUrl.port
  | .opened _ | .established => False

/-- The one connection is to `proxyUrl`, and everything follows it. -/
def Connected (proxyUrl : UrlBase) (os : List Output) : Prop :=
  ∃ rest, os = .opened (some proxyUrl) :: rest ∧ ∀ o ∈ rest, Follows proxyUrl o

/-- Nothing comes to the client but over `proxyUrl`, or from the server as
an error. -/
def OnlyOver (proxyUrl : UrlBase) (os : List Output) : Prop :=
  os = [] ∨ (∃ error, os = [.gatewayTimeout error]) ∨ Connected proxyUrl os

theorem Connected.emit {proxyUrl : UrlBase} {os : List Output} {o : Output}
    (h : Connected proxyUrl os) (ho : Follows proxyUrl o) : Connected proxyUrl (os ++ [o]) := by
  obtain ⟨rest, rfl, hrest⟩ := h
  refine ⟨rest ++ [o], rfl, ?_⟩
  intro o' ho'
  rcases List.mem_append.mp ho' with hmem | hmem
  · exact hrest o' hmem
  · exact List.mem_singleton.mp hmem ▸ ho

/-- The outputs of a request with a selected proxy, at each stage. -/
def Selected (proxyUrl : UrlBase) (x : Exchange) : Prop :=
  match x.stage with
  | .idle | .selecting => x.outputs = []
  | .attempt used _ _ => used = some proxyUrl ∧ Connected proxyUrl x.outputs
  | .logging _ => Connected proxyUrl x.outputs
  | .ended => OnlyOver proxyUrl x.outputs

theorem Selected.onlyOver {proxyUrl : UrlBase} {x : Exchange} (h : Selected proxyUrl x) :
    OnlyOver proxyUrl x.outputs := by
  unfold Selected at h
  split at h
  · exact .inl h
  · exact .inl h
  · exact .inr (.inr h.2)
  · exact .inr (.inr h)
  · exact h

/-- **Step lemma**: where the target is settled, it is the selected one. -/
theorem Selected.step {proxyUrl : UrlBase} (hselected : hasSelectedProxy cfg.request = true)
    {x y : Exchange} {a : Action} (hx : Selected proxyUrl x)
    (ha : ∀ result, a = .targetSettled result → result = .url proxyUrl)
    (hstep : Exchange.step host cfg x a = some y) (h : Next cfg x a y) :
    Selected proxyUrl y := by
  unfold Selected at hx
  cases h with
  | select handle hidle =>
      rw [hidle] at hx
      exact hx
  | gone hidle =>
      rw [hidle] at hx
      exact .inl hx
  | refuse hidle =>
      rw [hidle] at hx
      exact .inr (.inl ⟨cantEstablish, by rw [fail, suspend_outputs, emit_outputs, hx]; rfl⟩)
  | opened url hstage =>
      rw [hstage] at hx
      cases ha _ rfl
      refine ⟨rfl, [], ?_, by simp⟩
      show x.outputs ++ [.opened (some proxyUrl)] = _
      rw [hx]
      rfl
  | nothing hstage => cases ha _ rfl
  | rejected error hstage => cases ha _ rfl
  | connected url handle hstage =>
      rw [hstage] at hx
      exact hx
  | event e url connected handle handle' hstage =>
      rw [hstage] at hx
      exact hx
  | piped e chunk url connected handle handle' hstage =>
      rw [hstage] at hx
      exact ⟨hx.1, hx.2.emit trivial⟩
  | reported duration url connected handle hstage hlog =>
      rw [hstage] at hx
      cases hx.1
      exact hx.2.emit ⟨rfl, rfl⟩
  | unreported duration url connected handle hstage hlog =>
      rw [hstage] at hx
      exact hx.2
  | logRejected handle hstage =>
      rw [hstage] at hx
      exact .inr (.inr hx)
  | closed handle hstage =>
      rw [hstage] at hx
      exact .inr (.inr (hx.emit trivial))
  | again handle hstage hlt =>
      have hended := logSettled_selected hselected hstage hstep
      cases hended
  | failed handle error hstage =>
      rw [hstage] at hx
      exact .inr (.inr (hx.emit trivial))
  | clientGone => exact hx

/-! ## The check of a proxy -/

/-- `getTarget` has resolved to a url. -/
def ofProxyUrl (proxyUrl : UrlBase) : GetTarget.ProxyUrl where
  protocol := proxyUrl.protocol
  hostname := some proxyUrl.hostname
  port := .num proxyUrl.port

/-- The promise of `getTarget` settles with what it computes. -/
inductive Settles (target : GetTarget.Target) (headers : List (Text × Text)) :
    TargetResult → Prop
  | url (proxyUrl : UrlBase)
      (h : GetTarget.getTarget target headers = .ok (some (ofProxyUrl proxyUrl))) :
      Settles target headers (.url proxyUrl)
  | nothing (h : GetTarget.getTarget target headers = .ok none) : Settles target headers .nothing
  | rejected (e : JsException) (error : JsError)
      (h : GetTarget.getTarget target headers = .error e) : Settles target headers (.rejected error)

/-- The request has the headers of the options: those for the proxy in a
CONNECT, else its own. -/
def Carries (options : GetOptions) (cfg : Config) : Prop :=
  ∀ name value, (name, some value) ∈ (if cfg.ssl then options.proxyHeaders else options.headers) →
    cfg.request.headers.lookup (toLowerCase name) = some value

/-- The proxy that a check is for. -/
def urlOf (workLoad : IpAddr) : UrlBase where
  protocol := protocolText workLoad.state.protocolSrc
  hostname := workLoad.ip
  port := workLoad.port

theorem ofProxyUrl_injective {u v : UrlBase} (h : ofProxyUrl u = ofProxyUrl v) : u = v := by
  cases u
  cases v
  simp only [ofProxyUrl, GetTarget.ProxyUrl.mk.injEq, Option.some.injEq, JsValue.num.injEq] at h
  obtain ⟨rfl, rfl, hport⟩ := h
  rw [Int.ofNat_inj.mp hport]

section Check

variable {workLoad : IpAddr} {timeout : Nat} {uri : Text}

theorem lookup_checked
    (hcarries : Carries (requestOptions timeout (some uri) (proxyUrlStr workLoad)) cfg) :
    cfg.request.headers.lookup (toLowerCase headerKeyProxySelectProxy) =
      some (proxyUrlStr workLoad) := by
  refine hcarries headerKeyProxySelectProxy _ ?_
  cases cfg.ssl <;> simp [requestOptions]

theorem hasSelectedProxy_checked
    (hcarries : Carries (requestOptions timeout (some uri) (proxyUrlStr workLoad)) cfg) :
    hasSelectedProxy cfg.request = true := by
  obtain ⟨l, r, hsplit, -⟩ := List.lookup_eq_some_iff.mp (lookup_checked hcarries)
  simp [hasSelectedProxy, hsplit]

/-- **`getTarget` reads the address the check is for.** -/
theorem getTarget_checked (haddressed : Addressed workLoad) (target : GetTarget.Target)
    (hcarries : Carries (requestOptions timeout (some uri) (proxyUrlStr workLoad)) cfg) :
    GetTarget.getTarget target cfg.request.headers = .ok (some (ofProxyUrl (urlOf workLoad))) := by
  have hlookup := lookup_checked hcarries
  rw [proxyUrlStr_eq haddressed] at hlookup
  have hexec : ProxyAddress.exec haddressed.parts.text = some haddressed.parts :=
    ProxyAddress.exec_eq_some_iff.mpr
      ⟨rfl, haddressed.formed, fun hno => absurd hno Bool.noConfusion⟩
  have htest : ProxyAddress.test haddressed.parts.text = true := by
    rw [ProxyAddress.test, hexec]
    rfl
  rw [GetTarget.getTarget_selected hlookup htest,
    GetTarget.ofUrl_spelledOut haddressed.formed rfl rfl rfl, value_portText]
  have hquad : haddressed.parts.quad = workLoad.ip := haddressed.ip_eq.symm
  rw [hquad]
  rfl

theorem settles_checked (haddressed : Addressed workLoad) {target : GetTarget.Target}
    (hcarries : Carries (requestOptions timeout (some uri) (proxyUrlStr workLoad)) cfg)
    {result : TargetResult} (h : Settles target cfg.request.headers result) :
    result = .url (urlOf workLoad) := by
  have hget := getTarget_checked haddressed target hcarries
  cases h with
  | url proxyUrl h =>
      rw [h, Except.ok.injEq, Option.some.injEq] at hget
      rw [ofProxyUrl_injective hget]
  | nothing h =>
      rw [h] at hget
      cases hget
  | rejected e error h =>
      rw [h] at hget
      cases hget

/-- **A check over the own server is one of the proxy it is for**: in every
run nothing comes to the client but over this proxy, with one connection
to it, or from the server as an error. -/
theorem checked_run (hhost : LowersAscii host) (hproxy : cfg.options.toProxy = true)
    (hoption : cfg.options.target = true) (haddressed : Addressed workLoad)
    (target : GetTarget.Target)
    (hcarries : Carries (requestOptions timeout (some uri) (proxyUrlStr workLoad)) cfg)
    {x y : Exchange} (hidle : x.stage = .idle) (hnil : x.outputs = []) {as : List Action}
    (hsettles : ∀ result, .targetSettled result ∈ as → Settles target cfg.request.headers result)
    (hrun : (machine host cfg).run x as = some y) : OnlyOver (urlOf workLoad) y.outputs := by
  have hselected := hasSelectedProxy_checked hcarries
  have hgood : ∀ a ∈ as, ∀ result, a = .targetSettled result → result = .url (urlOf workLoad) := by
    rintro a ha result rfl
    exact settles_checked haddressed hcarries (hsettles result ha)
  have hrouted : Routed x := ⟨by simp [hidle, Stage.isRunning], by simp [hidle]⟩
  have hstart : Selected (urlOf workLoad) x := by
    unfold Selected
    rw [hidle]
    exact hnil
  have hstep : ∀ x a y, Routed x ∧ Selected (urlOf workLoad) x →
      (∀ result, a = .targetSettled result → result = .url (urlOf workLoad)) →
      Exchange.step host cfg x a = some y → Routed y ∧ Selected (urlOf workLoad) y := by
    intro x a y hx ha hstep
    have hnext := step_next hhost hproxy hoption hx.1 hstep
    exact ⟨hx.1.step hnext, hx.2.step hselected ha hstep hnext⟩
  exact ((machine host cfg).run_invariant_on hstep ⟨hrouted, hstart⟩ hgood hrun).2.onlyOver

end Check

/-- The address 10.0.0.3:8080. -/
def checkedAddr : IpAddr where
  ip := "10.0.0.3".toList
  port := 8080
  state := { protocolSrc := .http, protocolDest := .http, level := 1, duration := 100 }

def checkedConfig : Config :=
  { exampleConfig with
    request := { exampleConfig.request with
      headers := [("proxy-select-proxy".toList, "http://10.0.0.3:8080".toList)] } }

/-- The proxy answers with an error; there is no second attempt. -/
def checkFails : List Action :=
  .start :: attemptActions "HTTP/1.1 404 Not Found\r\nA: b\r\n\r\nno"

theorem checked_run_notFound :
    ∃ y, (machine Host.ascii checkedConfig).run { requestHandle := {} } checkFails = some y ∧
      OnlyOver (urlOf checkedAddr) y.outputs := by
  have hoctet (s : Text) (h : (!s.isEmpty && decide (s.length ≤ 3) && s.all Char.isDigit) = true) :
      ProxyAddress.IsOctet s := by
    simp only [Bool.and_eq_true, Bool.not_eq_true', List.isEmpty_eq_false_iff,
      decide_eq_true_eq] at h
    exact ⟨h.1.1, h.1.2, Decimal.digits_iff_all.mpr h.2⟩
  have haddressed : Addressed checkedAddr :=
    ⟨"10".toList, "0".toList, "0".toList, "3".toList, hoctet _ rfl, hoctet _ rfl, hoctet _ rfl,
      hoctet _ rfl, rfl, by decide⟩
  have hcarries : Carries (requestOptions 1000 (some "http://10.0.0.2:3128".toList)
      (proxyUrlStr checkedAddr)) checkedConfig := by
    intro name value hmem
    have hmem' :
        (name, some value) = (headerKeyProxySelectProxy, some (proxyUrlStr checkedAddr)) := by
      simpa [checkedConfig, exampleConfig, requestOptions, defaultUserAgent] using hmem
    cases hmem'
    decide +kernel
  have hsettles : ∀ result, .targetSettled result ∈ checkFails →
      Settles .unset checkedConfig.request.headers result := by
    intro result hmem
    simp only [checkFails, attemptActions, List.mem_cons, reduceCtorEq, List.not_mem_nil, or_false,
      false_or, Action.targetSettled.injEq] at hmem
    rw [hmem]
    exact .url (urlOf checkedAddr) (getTarget_checked haddressed .unset hcarries)
  have hrun : ((machine Host.ascii checkedConfig).run { requestHandle := {} }
      checkFails).isSome = true := by decide +kernel
  obtain ⟨y, hy⟩ := Option.isSome_iff_exists.mp hrun
  exact ⟨y, hy,
    checked_run lowersAscii_ascii rfl rfl haddressed .unset hcarries rfl rfl hsettles hy⟩

end Exchange

end ProxyBroker.Server
