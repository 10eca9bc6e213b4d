/-
ProxyBroker.Server.RetryTheorems — the attempts of one request over
extern proxies.

A failed attempt is tried again while the repeat counter of the client's
handle is below the limit, so a request makes at most one attempt more
than the limit, each is reported before the next is opened, and there is
at most one 504, at the end (`boundedRetry_of_run`).

All of it rests on `step_next`, which says what one step can do once the
request is routed to extern proxies. The ledger and the rank are then
read off it, step by step.

There is a third way to go on, the direct attempt a
'Proxy-Select-Fallback' header asks for. `onProxyRequest` has taken that
header out of the handle's list before it is looked for.

`toLocaleLowerCase` is the host's. What is needed of it is that names
without a capital I are lower-cased as everywhere else; only that letter
depends on the locale.
-/
import ProxyBroker.Server.ProxyServerTheorems

namespace ProxyBroker.Server

open Lib SocketHandle Proxy

/-- Every locale lower-cases ASCII texts alike, but for the letter I. -/
def LowersAscii (host : Host) : Prop :=
  ∀ t : Text, (∀ c ∈ t, c.toNat < 128 ∧ c ≠ 'I') → host.toLocaleLowerCase t = toLowerCase t

theorem lowersAscii_ascii : LowersAscii Host.ascii := fun _ _ => rfl

theorem LowersAscii.lower {host : Host} (h : LowersAscii host) {t : Text}
    (ht : t.all (fun c => decide (c.toNat < 128) && c != 'I') = true) :
    host.toLocaleLowerCase t = toLowerCase t :=
  h t (by simpa using ht)

/-! ## The header list -/

@[simp] theorem removeHeader_metaRepeat (host : Host) (h : SocketHandle) (key : Text) :
    (h.removeHeader host key).metaRepeat = h.metaRepeat := rfl

@[simp] theorem setHeader_metaRepeat (host : Host) (h : SocketHandle) (orgKey value : Text) :
    (h.setHeader host orgKey value).metaRepeat = h.metaRepeat := rfl

/-- No entry of the list has the key `key`. -/
def NoKey (key : Text) (h : SocketHandle) : Prop := ∀ e ∈ h.headersList, e.key ≠ key

theorem noKey_removeHeader_self (host : Host) (h : SocketHandle) (key : Text) :
    NoKey (host.toLocaleLowerCase key) (h.removeHeader host key) := by
  intro e he
  simpa using (List.mem_filter.mp he).2

theorem NoKey.removeHeader {host : Host} {h : SocketHandle} {key : Text} (hno : NoKey key h)
    (other : Text) : NoKey key (h.removeHeader host other) :=
  fun e he => hno e (List.mem_of_mem_filter he)

theorem NoKey.setHeader {host : Host} {h : SocketHandle} {key : Text} (hno : NoKey key h)
    {orgKey : Text} (hne : host.toLocaleLowerCase orgKey ≠ key) (value : Text) :
    NoKey key (h.setHeader host orgKey value) := by
  intro e he
  rcases List.mem_append.mp he with he | he
  · exact hno.removeHeader orgKey e he
  · rw [List.mem_singleton.mp he]
    exact hne

theorem hasFallbackHeader_of_noKey {h : SocketHandle}
    (hno : NoKey (toLowerCase headerKeyProxySelectFallback) h) : hasFallbackHeader h = false := by
  have hnone : h.headersList.find? (·.key = toLowerCase headerKeyProxySelectFallback) = none := by
    rw [List.find?_eq_none]
    intro e he
    simpa using hno e he
  rw [hasFallbackHeader, hnone]

/-- **`onProxyRequest` takes the fallback header away**, and leaves the
repeat counter. -/
theorem onProxyRequest_fallback {host : Host} (hhost : LowersAscii host) (options : Options)
    (handle : SocketHandle) (request : Request) :
    hasFallbackHeader (onProxyRequest host options handle request) = false ∧
      (onProxyRequest host options handle request).metaRepeat = handle.metaRepeat := by
  have hfallback : host.toLocaleLowerCase headerKeyProxySelectFallback =
      toLowerCase headerKeyProxySelectFallback := hhost.lower (by decide)
  have hforwarded : host.toLocaleLowerCase headerKeyProxyXForwardedFor ≠
      toLowerCase headerKeyProxySelectFallback := by
    rw [hhost.lower (by decide)]
    decide
  have hvia : host.toLocaleLowerCase headerKeyProxyVia ≠
      toLowerCase headerKeyProxySelectFallback := by
    rw [hhost.lower (by decide)]
    decide
  let cleaned := ((((((handle.removeHeader host headerKeyProxySelectLevel).removeHeader host
    headerKeyProxySelectSpeedLimit).removeHeader host headerKeyProxySelectSsl).removeHeader host
    headerKeyProxySelectFallback).removeHeader host headerKeyProxySelectCountry).removeHeader host
    headerKeyProxySelectProxy)
  have hcleaned : NoKey (toLowerCase headerKeyProxySelectFallback) cleaned := by
    rw [← hfallback]
    exact ((noKey_removeHeader_self host _ headerKeyProxySelectFallback).removeHeader
      _).removeHeader _
  refine ⟨?_, ?_⟩
  · unfold onProxyRequest
    dsimp only
    split
    · exact hasFallbackHeader_of_noKey ((hcleaned.setHeader hforwarded _).setHeader hvia _)
    · split
      · exact hasFallbackHeader_of_noKey (hcleaned.setHeader hvia _)
      · exact hasFallbackHeader_of_noKey hcleaned
  · unfold onProxyRequest
    dsimp only
    split
    · simp
    · split <;> simp

/-- The request runs: it is neither waiting for its start nor over. -/
def Stage.isRunning : Stage → Bool
  | .idle | .ended => false
  | _ => true

namespace Exchange

variable {host : Host} {cfg : Config}

/-! ## Behind an attempt -/

/-- The request is tried again over another proxy. -/
def again (x : Exchange) : Exchange :=
  { x with
    requestHandle := { x.requestHandle with metaRepeat := x.requestHandle.metaRepeat + 1 }
    stage := .selecting }

/-- `retry` spends one repetition, or answers with the error. -/
theorem retry_cases (cfg : Config) {x : Exchange} (hno : hasFallbackHeader x.requestHandle = false)
    (direct : Exchange → Exchange) (error : JsError) :
    (x.requestHandle.metaRepeat < cfg.options.repeatLimit ∧
        retry cfg direct (some error) x = x.again) ∨
      ((cfg.options.repeatLimit ≤ x.requestHandle.metaRepeat ∨ cfg.options.toProxy = false ∨
          hasSelectedProxy cfg.request = true) ∧
        retry cfg direct (some error) x = x.fail error) := by
  unfold retry
  dsimp only
  by_cases hlt : x.requestHandle.metaRepeat < cfg.options.repeatLimit ∧
      (cfg.options.toProxy && !hasSelectedProxy cfg.request) = true
  · rw [if_pos hlt]
    exact .inl ⟨hlt.1, rfl⟩
  · rw [if_neg hlt, if_neg (by simp [hno])]
    refine .inr ⟨?_, rfl⟩
    by_cases hle : x.requestHandle.metaRepeat < cfg.options.repeatLimit
    · refine .inr ?_
      simpa [hle, or_iff_not_imp_left] using hlt
    · exact .inl (Nat.le_of_not_lt hle)

/-- A failed attempt has an error, and goes through `retry`. -/
theorem handleAfterFinishedRequest_failed (host : Host) {handle : SocketHandle}
    (h : failed cfg handle = true) (x : Exchange) :
    ∃ direct error, handle.error = some error ∧
      handleAfterFinishedRequest host cfg handle x = retry cfg direct (some error) x := by
  have herror : handle.hasError = true := by
    unfold failed at h
    split at h
    · exact (Bool.and_eq_true_iff.mp h).1
    · exact h
  obtain ⟨error, he⟩ := Option.isSome_iff_exists.mp herror
  unfold handleAfterFinishedRequest handleUpstreamAfterFinishedRequest
    handleResponseAfterFinishedRequest
  unfold failed at h
  split
  · rw [if_pos ‹_›] at h
    rw [if_pos h, he]
    exact ⟨_, error, rfl, rfl⟩
  · rw [he]
    exact ⟨_, error, rfl, rfl⟩

/-! ## One step -/

@[simp] theorem suspend_stage (x : Exchange) (stage : Stage) :
    (x.suspend stage).stage = stage := rfl

@[simp] theorem suspend_outputs (x : Exchange) (stage : Stage) :
    (x.suspend stage).outputs = x.outputs := rfl

@[simp] theorem suspend_requestHandle (x : Exchange) (stage : Stage) :
    (x.suspend stage).requestHandle = x.requestHandle := rfl

@[simp] theorem emit_stage (x : Exchange) (o : Output) : (x.emit o).stage = x.stage := rfl

@[simp] theorem emit_outputs (x : Exchange) (o : Output) :
    (x.emit o).outputs = x.outputs ++ [o] := rfl

@[simp] theorem emit_requestHandle (x : Exchange) (o : Output) :
    (x.emit o).requestHandle = x.requestHandle := rfl

/-- A request that goes to extern proxies: while it runs there is no
fallback header and no direct connection. -/
structure Routed (x : Exchange) : Prop where
  fallback : x.stage.isRunning = true → hasFallbackHeader x.requestHandle = false
  proxied : ∀ connected handle, x.stage ≠ .attempt none connected handle

/-- The steps a routed request can make. -/
inductive Next (cfg : Config) (x : Exchange) : Action → Exchange → Prop where
  | select (handle : SocketHandle) (hidle : x.stage = .idle)
      (hno : hasFallbackHeader handle = false)
      (hrepeat : handle.metaRepeat = x.requestHandle.metaRepeat) :
      Next cfg x .start { x with requestHandle := handle, stage := .selecting }
  | gone (hidle : x.stage = .idle) : Next cfg x .start (x.suspend .ended)
  | refuse (hidle : x.stage = .idle) : Next cfg x .start (x.fail cantEstablish)
  | opened (proxyUrl : UrlBase) (hstage : x.stage = .selecting) :
      Next cfg x (.targetSettled (.url proxyUrl)) (x.openDownstream (some proxyUrl))
  | nothing (hstage : x.stage = .selecting) :
      Next cfg x (.targetSettled .nothing) (x.suspend .ended)
  | rejected (error : JsError) (hstage : x.stage = .selecting) :
      Next cfg x (.targetSettled (.rejected error)) (x.fail error)
  | connected (proxyUrl : UrlBase) (handle : SocketHandle)
      (hstage : x.stage = .attempt (some proxyUrl) false handle) :
      Next cfg x .connect (x.suspend (.attempt (some proxyUrl) true handle))
  | event (e : Event) (proxyUrl : UrlBase) (connected : Bool) (handle handle' : SocketHandle)
      (hstage : x.stage = .attempt (some proxyUrl) connected handle) :
      Next cfg x (.socket e) (x.suspend (.attempt (some proxyUrl) connected handle'))
  | piped (e : Event) (chunk : Bytes) (proxyUrl : UrlBase) (connected : Bool)
      (handle handle' : SocketHandle)
      (hstage : x.stage = .attempt (some proxyUrl) connected handle) :
      Next cfg x (.socket e)
        ((x.suspend (.attempt (some proxyUrl) connected handle')).emit (.piped chunk))
  | reported (duration : Nat) (proxyUrl : UrlBase) (connected : Bool) (handle : SocketHandle)
      (hstage : x.stage = .attempt (some proxyUrl) connected handle)
      (hlog : cfg.options.proxyLog = true) :
      Next cfg x (.resume duration) ((x.suspend (.logging handle)).emit
        (.logged (ProxyUsed.ofHandle proxyUrl handle cfg.ssl duration)))
  | unreported (duration : Nat) (proxyUrl : UrlBase) (connected : Bool) (handle : SocketHandle)
      (hstage : x.stage = .attempt (some proxyUrl) connected handle)
      (hlog : cfg.options.proxyLog = false) :
      Next cfg x (.resume duration) (x.suspend (.logging handle))
  | logRejected (handle : SocketHandle) (hstage : x.stage = .logging handle) :
      Next cfg x (.logSettled false) (x.suspend .ended)
  | closed (handle : SocketHandle) (hstage : x.stage = .logging handle) :
      Next cfg x (.logSettled true) ((x.emit .closed).suspend .ended)
  | again (handle : SocketHandle) (hstage : x.stage = .logging handle)
      (hlt : x.requestHandle.metaRepeat < cfg.options.repeatLimit) :
      Next cfg x (.logSettled true) x.again
  | failed (handle : SocketHandle) (error : JsError) (hstage : x.stage = .logging handle) :
      Next cfg x (.logSettled true) (x.fail error)
  | clientGone : Next cfg x .clientGone { x with present := false }

theorem start_next (hhost : LowersAscii host) (hproxy : cfg.options.toProxy = true)
    (htarget : cfg.options.target = true) {x y : Exchange} (hidle : x.stage = .idle)
    (h : step host cfg x .start = some y) : Next cfg x .start y := by
  obtain ⟨hno, hrepeat⟩ := onProxyRequest_fallback hhost cfg.options x.requestHandle cfg.request
  have hroute : ∀ x : Exchange, route cfg false x = x.suspend .selecting := by
    intro x
    simp [route, hproxy, htarget]
  have hselect : Next cfg x .start (route cfg false { x with
      requestHandle := onProxyRequest host cfg.options x.requestHandle cfg.request }) := by
    rw [hroute]
    exact .select _ hidle hno hrepeat
  simp only [step, hidle, Option.some.injEq] at h
  rw [← h]
  unfold onServerConnect root
  split
  · split
    · exact hselect
    · exact .gone hidle
  · split
    · exact hselect
    · exact .refuse hidle

theorem logSettled_next {x : Exchange} {handle : SocketHandle} (hx : Routed x)
    (hstage : x.stage = .logging handle) :
    Next cfg x (.logSettled true) (x.handleAfterFinishedRequest host cfg handle) := by
  have hno := hx.fallback (by rw [hstage]; rfl)
  cases hf : failed cfg handle with
  | false =>
      rw [handleAfterFinishedRequest_ok host hf]
      exact .closed handle hstage
  | true =>
      obtain ⟨direct, error, -, heq⟩ := handleAfterFinishedRequest_failed host hf x
      rw [heq]
      rcases retry_cases cfg hno direct error with ⟨hlt, h⟩ | ⟨-, h⟩
      · rw [h]
        exact .again handle hstage hlt
      · rw [h]
        exact .failed handle error hstage

/-- **What one step does** to a routed request. -/
theorem step_next (hhost : LowersAscii host) (hproxy : cfg.options.toProxy = true)
    (htarget : cfg.options.target = true) {x y : Exchange} {a : Action} (hx : Routed x)
    (h : step host cfg x a = some y) : Next cfg x a y := by
  cases a with
  | start =>
      cases hstage : x.stage with
      | idle => exact start_next hhost hproxy htarget hstage h
      | _ => simp [step, hstage] at h
  | targetSettled result =>
      cases hstage : x.stage with
      | selecting =>
          cases result <;> simp only [step, hstage, Option.some.injEq] at h <;> rw [← h]
          · exact .opened _ hstage
          · exact .nothing hstage
          · exact .rejected _ hstage
      | _ => simp [step, hstage] at h
  | connect =>
      simp only [step] at h
      split at h
      · rename_i proxyUrl handle hstage
        cases proxyUrl with
        | none => exact absurd hstage (hx.proxied _ _)
        | some proxyUrl =>
            split at h
            · cases h
            · cases h
              simpa using Next.connected proxyUrl handle hstage
      · cases h
  | socket e =>
      simp only [step] at h
      split at h
      · rename_i proxyUrl connected handle hstage
        cases proxyUrl with
        | none => exact absurd hstage (hx.proxied _ _)
        | some proxyUrl =>
            split at h
            · cases h
            · split at h
              · cases h
              · cases h
                split
                · exact .piped e _ proxyUrl connected handle _ hstage
                · exact .event e proxyUrl connected handle _ hstage
      · cases h
  | resume duration =>
      simp only [step] at h
      split at h
      · rename_i proxyUrl connected handle hstage
        cases proxyUrl with
        | none => exact absurd hstage (hx.proxied _ _)
        | some proxyUrl =>
            split at h
            · cases h
              split
              · exact .reported duration proxyUrl connected handle hstage ‹_›
              · exact .unreported duration proxyUrl connected handle hstage
                  (Bool.not_eq_true _ ▸ ‹¬ cfg.options.proxyLog = true›)
            · cases h
      · cases h
  | logSettled ok =>
      cases hstage : x.stage with
      | logging handle =>
          simp only [step, hstage, Option.some.injEq] at h
          rw [← h]
          cases ok with
          | true => exact logSettled_next hx hstage
          | false => exact .logRejected handle hstage
      | _ => simp [step, hstage] at h
  | clientGone =>
      cases h
      exact .clientGone

theorem Routed.ended {x : Exchange} (h : x.stage = .ended) : Routed x :=
  ⟨by simp [h, Stage.isRunning], by simp [h]⟩

/-- The request goes on with the handle it has. -/
theorem Routed.of_running {x y : Exchange} (hx : Routed x) (hrun : x.stage.isRunning = true)
    (hhandle : hasFallbackHeader y.requestHandle = hasFallbackHeader x.requestHandle)
    (hproxied : ∀ connected handle, y.stage ≠ .attempt none connected handle) : Routed y :=
  ⟨fun _ => hhandle.trans (hx.fallback hrun), hproxied⟩

theorem Routed.step {x y : Exchange} {a : Action} (hx : Routed x) (h : Next cfg x a y) :
    Routed y := by
  cases h with
  | select handle hidle hno hrepeat => exact ⟨fun _ => hno, by simp⟩
  | opened proxyUrl hstage =>
      exact hx.of_running (by rw [hstage]; rfl) rfl (by simp [openDownstream])
  | connected proxyUrl handle hstage => exact hx.of_running (by rw [hstage]; rfl) rfl (by simp)
  | event e proxyUrl connected handle handle' hstage =>
      exact hx.of_running (by rw [hstage]; rfl) rfl (by simp)
  | piped e chunk proxyUrl connected handle handle' hstage =>
      exact hx.of_running (by rw [hstage]; rfl) rfl (by simp)
  | reported duration proxyUrl connected handle hstage hlog =>
      exact hx.of_running (by rw [hstage]; rfl) rfl (by simp)
  | unreported duration proxyUrl connected handle hstage hlog =>
      exact hx.of_running (by rw [hstage]; rfl) rfl (by simp)
  | again handle hstage hlt =>
      exact hx.of_running (by rw [hstage]; rfl) rfl (by simp [Exchange.again])
  | clientGone => exact ⟨hx.fallback, hx.proxied⟩
  | gone hidle => exact Routed.ended rfl
  | refuse hidle => exact Routed.ended rfl
  | nothing hstage => exact Routed.ended rfl
  | rejected error hstage => exact Routed.ended rfl
  | logRejected handle hstage => exact Routed.ended rfl
  | closed handle hstage => exact Routed.ended rfl
  | failed handle error hstage => exact Routed.ended rfl

/-! ## Accounting -/

/-- An attempt is opened. -/
def isOpened : Output → Bool
  | .opened _ => true
  | _ => false

/-- Reads the outputs as a ledger: `pending` is the proxy that is in use
and not reported yet. `none` if an attempt is opened before the last one
is reported, a report is not for the proxy in use, or a connection is
direct. -/
def account : Option UrlBase → List Output → Option (Option UrlBase)
  | pending, [] => some pending
  | none, .opened (some proxyUrl) :: os => account (some proxyUrl) os
  | some proxyUrl, .logged used :: os =>
      if used.ip = proxyUrl.hostname ∧ used.port = proxyUrl.port then account none os else none
  | _, .opened _ :: _ => none
  | none, .logged _ :: _ => none
  | pending, .established :: os | pending, .piped _ :: os | pending, .gatewayTimeout _ :: os
  | pending, .closed :: os => account pending os

theorem account_concat (pending : Option UrlBase) (os : List Output) (o : Output) :
    account pending (os ++ [o]) = (account pending os).bind (fun q => account q [o]) := by
  induction os generalizing pending with
  | nil => rfl
  | cons x os ih =>
      cases x with
      | opened proxyUrl => cases pending <;> cases proxyUrl <;> simp [account, ih]
      | logged used =>
          cases pending with
          | none => simp [account]
          | some proxyUrl =>
              simp only [List.cons_append, account]
              split
              · exact ih none
              · rfl
      | _ => simp only [List.cons_append, account]; exact ih pending

/-- Only the last output may be the answer with an error. -/
def ErrorLast (os : List Output) : Prop := ∀ error, .gatewayTimeout error ∉ os.dropLast

/-- The outputs of a request that runs: so many attempts, all reported but
`pending`, and no error answer. -/
structure Attempts (pending : Option UrlBase) (opened : Nat) (os : List Output) : Prop where
  account : account none os = some pending
  opened : os.countP isOpened = opened
  noError : ∀ error, .gatewayTimeout error ∉ os

/-- The repeat counter counts the attempts. -/
def Ledger (cfg : Config) (x : Exchange) : Prop :=
  match x.stage with
  | .idle => x.requestHandle.metaRepeat = 0 ∧ x.outputs = []
  | .selecting =>
      x.requestHandle.metaRepeat ≤ cfg.options.repeatLimit ∧
        Attempts none x.requestHandle.metaRepeat x.outputs
  | .attempt proxyUrl _ _ =>
      x.requestHandle.metaRepeat ≤ cfg.options.repeatLimit ∧
        Attempts proxyUrl (x.requestHandle.metaRepeat + 1) x.outputs
  | .logging _ =>
      x.requestHandle.metaRepeat ≤ cfg.options.repeatLimit ∧
        Attempts none (x.requestHandle.metaRepeat + 1) x.outputs
  | .ended =>
      x.outputs.countP isOpened ≤ cfg.options.repeatLimit + 1 ∧
        account none x.outputs = some none ∧ ErrorLast x.outputs

theorem noError_concat {os : List Output} {o : Output}
    (h : ∀ error, .gatewayTimeout error ∉ os) (ho : ∀ error, o ≠ .gatewayTimeout error) :
    ∀ error, .gatewayTimeout error ∉ os ++ [o] := by
  intro error hmem
  rcases List.mem_append.mp hmem with hmem | hmem
  · exact h error hmem
  · exact ho error (List.mem_singleton.mp hmem).symm

/-- The other outputs leave the ledger alone. -/
theorem Attempts.emit {pending : Option UrlBase} {n : Nat} {os : List Output} {o : Output}
    (h : Attempts pending n os) (ho : Exchange.account pending [o] = some pending)
    (hopened : isOpened o = false) (herror : ∀ error, o ≠ .gatewayTimeout error) :
    Attempts pending n (os ++ [o]) where
  account := by rw [account_concat, h.account]; exact ho
  opened := by simp [h.opened, hopened]
  noError := noError_concat h.noError herror

theorem Attempts.open {n : Nat} {os : List Output} (h : Attempts none n os)
    (proxyUrl : UrlBase) : Attempts (some proxyUrl) (n + 1) (os ++ [.opened (some proxyUrl)]) where
  account := by rw [account_concat, h.account]; rfl
  opened := by simp [h.opened, isOpened]
  noError := noError_concat h.noError (by simp)

theorem Attempts.report {n : Nat} {os : List Output} {proxyUrl : UrlBase}
    (h : Attempts (some proxyUrl) n os) (handle : SocketHandle) (ssl : Bool) (duration : Nat) :
    Attempts none n (os ++ [.logged (ProxyUsed.ofHandle proxyUrl handle ssl duration)]) where
  account := by rw [account_concat, h.account]; simp [Exchange.account, ProxyUsed.ofHandle]
  opened := by simp [h.opened, isOpened]
  noError := noError_concat h.noError (by simp)

theorem errorLast_of_noError {os : List Output} (h : ∀ error, .gatewayTimeout error ∉ os) :
    ErrorLast os := fun error hmem => h error (List.mem_of_mem_dropLast hmem)

/-- The request ends, with or without a last output. -/
theorem Attempts.ended {n : Nat} {x : Exchange} (h : Attempts none n x.outputs)
    (hn : n ≤ cfg.options.repeatLimit + 1) : Ledger cfg (x.suspend .ended) :=
  ⟨h.opened.trans_le hn, h.account, errorLast_of_noError h.noError⟩

theorem Attempts.failed {n : Nat} {x : Exchange} (h : Attempts none n x.outputs)
    (hn : n ≤ cfg.options.repeatLimit + 1) (error : JsError) : Ledger cfg (x.fail error) := by
  refine ⟨?_, ?_, ?_⟩
  · simpa [fail, isOpened, h.opened] using hn
  · show Exchange.account none (x.outputs ++ [.gatewayTimeout error]) = some none
    rw [account_concat, h.account]
    rfl
  · intro e
    show Output.gatewayTimeout e ∉ (x.outputs ++ [Output.gatewayTimeout error]).dropLast
    rw [List.dropLast_concat]
    exact h.noError e

theorem attempts_nil : Attempts none 0 [] := ⟨rfl, rfl, by simp⟩

/-- **Step lemma** of the ledger. -/
theorem Ledger.step {x y : Exchange} {a : Action} (hlog : cfg.options.proxyLog = true)
    (hx : Ledger cfg x) (h : Next cfg x a y) : Ledger cfg y := by
  unfold Ledger at hx
  cases h with
  | select handle hidle hno hrepeat =>
      rw [hidle] at hx
      obtain ⟨hzero, hnil⟩ := hx
      rw [hzero] at hrepeat
      refine ⟨hrepeat.trans_le (Nat.zero_le _), ?_⟩
      show Attempts none handle.metaRepeat x.outputs
      rw [hrepeat, hnil]
      exact attempts_nil
  | gone hidle =>
      rw [hidle] at hx
      exact (hx.2 ▸ attempts_nil).ended (Nat.zero_le _)
  | refuse hidle =>
      rw [hidle] at hx
      exact (hx.2 ▸ attempts_nil).failed (Nat.zero_le _) cantEstablish
  | opened proxyUrl hstage =>
      rw [hstage] at hx
      exact ⟨hx.1, hx.2.open proxyUrl⟩
  | nothing hstage =>
      rw [hstage] at hx
      exact hx.2.ended (Nat.le_succ_of_le hx.1)
  | rejected error hstage =>
      rw [hstage] at hx
      exact hx.2.failed (Nat.le_succ_of_le hx.1) error
  | connected proxyUrl handle hstage =>
      rw [hstage] at hx
      exact hx
  | event e proxyUrl connected handle handle' hstage =>
      rw [hstage] at hx
      exact hx
  | piped e chunk proxyUrl connected handle handle' hstage =>
      rw [hstage] at hx
      exact ⟨hx.1, hx.2.emit rfl rfl (by simp)⟩
  | reported duration proxyUrl connected handle hstage _ =>
      rw [hstage] at hx
      exact ⟨hx.1, hx.2.report handle cfg.ssl duration⟩
  | unreported duration proxyUrl connected handle hstage hno =>
      rw [hlog] at hno
      cases hno
  | logRejected handle hstage =>
      rw [hstage] at hx
      exact hx.2.ended (Nat.succ_le_succ hx.1)
  | closed handle hstage =>
      rw [hstage] at hx
      exact (hx.2.emit (o := .closed) rfl rfl (by simp)).ended (Nat.succ_le_succ hx.1)
  | again handle hstage hlt =>
      rw [hstage] at hx
      exact ⟨hlt, hx.2⟩
  | failed handle error hstage =>
      rw [hstage] at hx
      exact hx.2.failed (Nat.succ_le_succ hx.1) error
  | clientGone => exact hx

/-! ## Termination -/

/-- The steps of the recursion: a call, or the settling of a promise one
of the methods waits for. -/
def isRecursion : Action → Bool
  | .start | .targetSettled _ | .resume _ | .logSettled _ => true
  | .connect | .socket _ | .clientGone => false

/-- How many steps of the recursion are left at most; the repetitions
that are left cost three each. -/
def rank (cfg : Config) (x : Exchange) : Nat :=
  let left := 3 * (cfg.options.repeatLimit - x.requestHandle.metaRepeat)
  match x.stage with
  | .idle => left + 4
  | .selecting => left + 3
  | .attempt _ _ _ => left + 2
  | .logging _ => left + 1
  | .ended => 0

theorem rank_step {x y : Exchange} {a : Action} (h : Next cfg x a y) :
    rank cfg y + (isRecursion a).toNat ≤ rank cfg x := by
  cases h with
  | select handle hidle hno hrepeat => simp [rank, hidle, hrepeat, isRecursion]
  | again handle hstage hlt =>
      simp [rank, hstage, Exchange.again, isRecursion]
      omega
  | clientGone => exact Nat.le_refl _
  | gone h | refuse h | nothing h | rejected _ h | opened _ h | connected _ _ h | logRejected _ h
    | closed _ h | failed _ _ h =>
      simp [rank, h, isRecursion, fail, openDownstream]
  | event _ _ _ _ _ h | piped _ _ _ _ _ _ h | reported _ _ _ _ h _ | unreported _ _ _ _ h _ =>
      simp [rank, h, isRecursion]

/-- What a request waits for can happen; an attempt can be closed first. -/
theorem progress (host : Host) (cfg : Config) {x : Exchange} (hx : Routed x)
    (hend : x.stage ≠ .ended) :
    ∃ bs, ((machine host cfg).run x bs).isSome = true ∧ 0 < bs.countP isRecursion := by
  cases hstage : x.stage with
  | idle =>
      refine ⟨[.start], ?_, by simp [isRecursion]⟩
      simp [Machine.run, machine, step, hstage]
  | selecting =>
      refine ⟨[.targetSettled (.rejected cantEstablish)], ?_, by simp [isRecursion]⟩
      simp [Machine.run, machine, step, hstage]
  | attempt proxyUrl connected handle =>
      cases proxyUrl with
      | none => exact absurd hstage (hx.proxied _ _)
      | some proxyUrl =>
          cases hfinished : handle.finished with
          | true =>
              refine ⟨[.resume 0], ?_, by simp [isRecursion]⟩
              simp [Machine.run, machine, step, hstage, hfinished]
          | false =>
              refine ⟨[.socket .close, .resume 0], ?_, by simp [isRecursion]⟩
              simp [Machine.run, machine, step, hstage, hfinished, emits, handleEvent, onClose,
                finish, Event.chunk?]
  | logging handle =>
      refine ⟨[.logSettled true], ?_, by simp [isRecursion]⟩
      simp [Machine.run, machine, step, hstage]
  | ended => exact absurd hstage hend

section

variable (hhost : LowersAscii host) (hproxy : cfg.options.toProxy = true)
  (htarget : cfg.options.target = true)

include hhost hproxy htarget

theorem routed_step (x : Exchange) (a : Action) (y : Exchange) (hx : Routed x)
    (h : step host cfg x a = some y) : Routed y :=
  hx.step (step_next hhost hproxy htarget hx h)

theorem routed_run {x y : Exchange} {as : List Action} (hx : Routed x)
    (h : (machine host cfg).run x as = some y) : Routed y :=
  (machine host cfg).run_invariant
    (fun x a y hx hstep => routed_step hhost hproxy htarget x a y hx hstep) hx h

theorem rank_run {x y : Exchange} {as : List Action} (hx : Routed x)
    (h : (machine host cfg).run x as = some y) :
    rank cfg y + as.countP isRecursion ≤ rank cfg x := by
  refine (machine host cfg).run_rank ?_ hx h
  intro x a y hx hstep
  exact ⟨routed_step hhost hproxy htarget x a y hx hstep,
    rank_step (step_next hhost hproxy htarget hx hstep)⟩

/-- A routed request can always be brought to its end. -/
theorem can_end {x : Exchange} (hx : Routed x) :
    ∃ bs y, (machine host cfg).run x bs = some y ∧ y.stage = .ended := by
  induction hr : rank cfg x using Nat.strong_induction_on generalizing x with
  | _ r ih =>
      by_cases hend : x.stage = .ended
      · exact ⟨[], x, rfl, hend⟩
      · obtain ⟨bs, hsome, hpos⟩ := progress host cfg hx hend
        obtain ⟨y, hy⟩ := Option.isSome_iff_exists.mp hsome
        have hrank := rank_run hhost hproxy htarget hx hy
        obtain ⟨cs, z, hz, hzend⟩ :=
          ih (rank cfg y) (by omega) (routed_run hhost hproxy htarget hx hy) rfl
        refine ⟨bs ++ cs, z, ?_, hzend⟩
        rw [Machine.run_append, hy]
        exact hz

theorem ledger_run (hlog : cfg.options.proxyLog = true) {x y : Exchange} {as : List Action}
    (hx : Routed x) (hledger : Ledger cfg x) (h : (machine host cfg).run x as = some y) :
    Ledger cfg y := by
  have hkeep : ∀ x a y, Routed x ∧ Ledger cfg x → step host cfg x a = some y →
      Routed y ∧ Ledger cfg y := by
    intro x a y hxy hstep
    have hnext := step_next hhost hproxy htarget hxy.1 hstep
    exact ⟨hxy.1.step hnext, hxy.2.step hlog hnext⟩
  exact ((machine host cfg).run_invariant hkeep ⟨hx, hledger⟩ h).2

end

/-! ## Whole runs -/

theorem routed_idle (requestHandle : SocketHandle) : Routed { requestHandle := requestHandle } :=
  ⟨by simp [Stage.isRunning], by simp⟩

/-- What the ledger says of the outputs. -/
structure BoundedRetry (cfg : Config) (x : Exchange) : Prop where
  opened : x.outputs.countP isOpened ≤ cfg.options.repeatLimit + 1
  /-- each attempt is reported once, for its own proxy and before the next
  is opened; only the one in use is not reported yet -/
  reported : account none x.outputs = some none ∨ ∃ proxyUrl connected handle,
    x.stage = .attempt (some proxyUrl) connected handle ∧
      account none x.outputs = some (some proxyUrl)
  errorLast : ErrorLast x.outputs
  errorEnds : ∀ error, .gatewayTimeout error ∈ x.outputs → x.stage = .ended

theorem Attempts.bounded {n : Nat} {x : Exchange} (h : Attempts none n x.outputs)
    (hn : n ≤ cfg.options.repeatLimit + 1) : BoundedRetry cfg x where
  opened := h.opened.trans_le hn
  reported := .inl h.account
  errorLast := errorLast_of_noError h.noError
  errorEnds error hmem := absurd hmem (h.noError error)

theorem Ledger.bounded {x : Exchange} (hx : Routed x) (h : Ledger cfg x) :
    BoundedRetry cfg x := by
  unfold Ledger at h
  cases hstage : x.stage with
  | idle =>
      rw [hstage] at h
      exact (h.2 ▸ attempts_nil : Attempts none 0 x.outputs).bounded (Nat.zero_le _)
  | selecting =>
      rw [hstage] at h
      exact h.2.bounded (Nat.le_succ_of_le h.1)
  | attempt proxyUrl connected handle =>
      rw [hstage] at h
      obtain ⟨hn, hattempts⟩ := h
      cases proxyUrl with
      | none => exact absurd hstage (hx.proxied _ _)
      | some proxyUrl =>
          refine ⟨hattempts.opened.trans_le (Nat.succ_le_succ hn), .inr ?_,
            errorLast_of_noError hattempts.noError, ?_⟩
          · exact ⟨proxyUrl, connected, handle, hstage, hattempts.account⟩
          · exact fun error hmem => absurd hmem (hattempts.noError error)
  | logging handle =>
      rw [hstage] at h
      exact h.2.bounded (Nat.succ_le_succ h.1)
  | ended =>
      rw [hstage] at h
      exact ⟨h.1, .inl h.2.1, h.2.2, fun _ _ => hstage⟩

/-- **Bounded retry with exact accounting**, in every run of a first
request that is routed to extern proxies. The recursion takes a bounded
number of steps, and from every state it can be brought to its end. -/
theorem boundedRetry_of_run (hhost : LowersAscii host) (hproxy : cfg.options.toProxy = true)
    (htarget : cfg.options.target = true) (hlog : cfg.options.proxyLog = true)
    {requestHandle : SocketHandle} (hfirst : requestHandle.metaRepeat = 0) {as : List Action}
    {x : Exchange} (h : (machine host cfg).run { requestHandle := requestHandle } as = some x) :
    BoundedRetry cfg x ∧ as.countP isRecursion ≤ 3 * cfg.options.repeatLimit + 4 ∧
      ∃ bs y, (machine host cfg).run x bs = some y ∧ y.stage = .ended := by
  have hidle := routed_idle requestHandle
  have hx := routed_run hhost hproxy htarget hidle h
  have hledger := ledger_run hhost hproxy htarget hlog hidle ⟨hfirst, rfl⟩ h
  refine ⟨hledger.bounded hx, ?_, can_end hhost hproxy htarget hx⟩
  have hrank := rank_run hhost hproxy htarget hidle h
  have hstart : rank cfg { requestHandle := requestHandle } = 3 * cfg.options.repeatLimit + 4 := by
    simp [rank, hfirst]
  omega

def exampleProxy : UrlBase := ⟨"http".toList, "10.0.0.3".toList, 8080⟩

/-- An attempt that fails with a socket error. -/
def failedAttempt : List Action :=
  [.targetSettled (.url exampleProxy), .socket (.error cantEstablish), .resume 0]

def reportingConfig : Config :=
  { exampleConfig with options := { exampleConfig.options with proxyLog := true } }

/-- Both attempts fail; the report on the second is still waited for. -/
def lastFails : List Action := .start :: failedAttempt ++ [.logSettled true] ++ failedAttempt

/-- The run to its end. -/
def bothFail : List Action := lastFails ++ [.logSettled true]

theorem boundedRetry_bothFail :
    ∃ x, (machine Host.ascii reportingConfig).run { requestHandle := {} } bothFail = some x ∧
      BoundedRetry reportingConfig x ∧ bothFail.countP isRecursion ≤ 7 ∧
        ∃ bs y, (machine Host.ascii reportingConfig).run x bs = some y ∧ y.stage = .ended := by
  have hrun : ((machine Host.ascii reportingConfig).run { requestHandle := {} }
      bothFail).isSome = true := by decide
  exact ⟨_, (Option.some_get hrun).symm,
    boundedRetry_of_run lowersAscii_ascii rfl rfl rfl rfl (Option.some_get hrun).symm⟩

end Exchange

end ProxyBroker.Server
