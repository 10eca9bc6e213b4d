/-
ProxyBroker.Server.FallbackTheorems — the fallback to a direct connection
is never taken.

'Proxy-Select-Fallback' asks for a direct attempt when all attempts over
extern proxies have failed. `hasFallbackHeader` looks for it in the list
of the request's handle, at the end of the last attempt; `onProxyRequest`
has removed it from that list when the request came in. So for every
request that asks for it the run in which all attempts fail ends with the
error (`fallback_never`).
-/
import ProxyBroker.Server.RetryTheorems

namespace ProxyBroker.Server

open Lib SocketHandle Proxy

namespace Exchange

variable {host : Host} {cfg : Config}

/-! ## What the header asks for -/

/-- The request asks for a fallback, in the headers of its handle. -/
def CarriesFallback (requestHandle : SocketHandle) : Prop :=
  ∃ e ∈ requestHandle.headersList,
    e.key = toLowerCase headerKeyProxySelectFallback ∧ e.value = "true".toList

def socketError (handle : SocketHandle) : Bool := handle.hasError && handle.hasSocketError

/-- Attempts finish with a socket error. -/
def fails (x : Exchange) : Action → Bool
  | .resume _ =>
      match x.stage with
      | .attempt _ _ handle => socketError handle
      | _ => true
  | _ => true

/-- The runs in which all attempts fail. -/
def AllFail (host : Host) (cfg : Config) (x : Exchange) (as : List Action) : Prop :=
  (machine host cfg).Along (fun x a => fails x a = true) x as

instance (host : Host) (cfg : Config) (x : Exchange) (as : List Action) :
    Decidable (AllFail host cfg x as) := inferInstanceAs (Decidable (Machine.Along ..))

/-- The last attempt has failed, and no repetition is left. -/
def Exhausted (cfg : Config) (x : Exchange) : Prop :=
  ∃ handle, x.stage = .logging handle ∧ socketError handle = true ∧
    cfg.options.repeatLimit ≤ x.requestHandle.metaRepeat

/-- What the header asks for: when all attempts have failed a direct one
is opened, and when that fails the request ends with the error. -/
def FallbackHonoured (host : Host) (cfg : Config) (requestHandle : SocketHandle) : Prop :=
  CarriesFallback requestHandle → ∀ as x y,
    AllFail host cfg { requestHandle := requestHandle } as →
    (machine host cfg).run { requestHandle := requestHandle } as = some x → Exhausted cfg x →
    step host cfg x (.logSettled true) = some y →
      y = (x.emit (.opened none)).suspend (.attempt none false {}) ∧
        ∀ bs z duration w, AllFail host cfg y bs → (machine host cfg).run y bs = some z →
          fails z (.resume duration) = true → step host cfg z (.resume duration) = some w →
            ∃ error, w = z.fail error

/-- No step of a routed request opens a direct attempt. -/
theorem Next.notDirect {x y : Exchange} {a : Action} (h : Next cfg x a y)
    (hx : .opened none ∉ x.outputs) : .opened none ∉ y.outputs := by
  cases h <;> simpa [fail, openDownstream, Exchange.again] using hx

theorem failed_of_socketError {handle : SocketHandle} (h : socketError handle = true)
    (cfg : Config) : failed cfg handle = true := by
  unfold failed
  split
  · exact h
  · exact (Bool.and_eq_true_iff.mp h).1

/-- While repetitions are left, a failed attempt is repeated. -/
theorem logSettled_again (host : Host) (hproxy : cfg.options.toProxy = true)
    (hselected : hasSelectedProxy cfg.request = false) {x : Exchange} {handle : SocketHandle}
    (hstage : x.stage = .logging handle) (hfails : socketError handle = true)
    (hlt : x.requestHandle.metaRepeat < cfg.options.repeatLimit) :
    step host cfg x (.logSettled true) = some x.again := by
  obtain ⟨direct, error, -, heq⟩ :=
    handleAfterFinishedRequest_failed host (failed_of_socketError hfails cfg) x
  simp [step, hstage, heq, retry, hlt, hproxy, hselected, Exchange.again]

/-- Behind the last one the request ends with the error. -/
theorem logSettled_exhausted (host : Host) {x : Exchange} (hx : Routed x)
    (hexhausted : Exhausted cfg x) :
    ∃ error, step host cfg x (.logSettled true) = some (x.fail error) := by
  obtain ⟨handle, hstage, hfails, hle⟩ := hexhausted
  have hno := hx.fallback (by rw [hstage]; rfl)
  obtain ⟨direct, error, -, heq⟩ :=
    handleAfterFinishedRequest_failed host (failed_of_socketError hfails cfg) x
  refine ⟨error, ?_⟩
  rcases retry_cases cfg hno direct error with ⟨hlt, -⟩ | ⟨-, hretry⟩
  · omega
  · simp [step, hstage, heq, hretry]

/-- An attempt that fails, from its choice to its report. -/
theorem run_failedAttempt (host : Host) (cfg : Config) {x : Exchange}
    (hstage : x.stage = .selecting) :
    ∃ y handle, (machine host cfg).run x failedAttempt = some y ∧ y.stage = .logging handle ∧
      socketError handle = true ∧ y.requestHandle = x.requestHandle ∧
      AllFail host cfg x failedAttempt := by
  let handle : SocketHandle := onError host {} cantEstablish
  let x₁ := x.openDownstream (some exampleProxy)
  let x₂ := x₁.suspend (.attempt (some exampleProxy) false handle)
  let x₃ := x₂.suspend (.logging handle)
  let y := if cfg.options.proxyLog then
      x₃.emit (.logged (ProxyUsed.ofHandle exampleProxy handle cfg.ssl 0))
    else x₃
  have hfails : socketError handle = true := rfl
  have h₁ : step host cfg x (.targetSettled (.url exampleProxy)) = some x₁ := by
    simp only [step, hstage, x₁]
  have h₂ : step host cfg x₁ (.socket (.error cantEstablish)) = some x₂ := rfl
  have h₃ : step host cfg x₂ (.resume 0) = some y := rfl
  refine ⟨y, handle, ?_, ?_, hfails, ?_, ?_⟩
  · simp [failedAttempt, Machine.run, machine, h₁, h₂, h₃]
  · simp only [y]
    split <;> rfl
  · simp only [y]
    split <;> rfl
  · simp [AllFail, failedAttempt, Machine.Along, machine, h₁, h₂, fails, x₂, hfails]

/-- All attempts can fail. -/
theorem exists_exhausted (host : Host) (hproxy : cfg.options.toProxy = true)
    (hselected : hasSelectedProxy cfg.request = false) {x : Exchange}
    (hstage : x.stage = .selecting) :
    ∃ as y, (machine host cfg).run x as = some y ∧ Exhausted cfg y ∧
      AllFail host cfg x as := by
  induction hn : cfg.options.repeatLimit - x.requestHandle.metaRepeat generalizing x with
  | zero =>
      obtain ⟨y, handle, hrun, hlogging, hfails, hhandle, halong⟩ :=
        run_failedAttempt host cfg hstage
      refine ⟨failedAttempt, y, hrun, ⟨handle, hlogging, hfails, ?_⟩, halong⟩
      rw [hhandle]
      omega
  | succ n ih =>
      obtain ⟨y, handle, hrun, hlogging, hfails, hhandle, halong⟩ :=
        run_failedAttempt host cfg hstage
      have hagain : (machine host cfg).step y (.logSettled true) = some y.again :=
        logSettled_again host hproxy hselected hlogging hfails (by rw [hhandle]; omega)
      have hleft : cfg.options.repeatLimit - y.again.requestHandle.metaRepeat = n := by
        simp only [Exchange.again, hhandle]
        omega
      obtain ⟨as, z, hrest, hexhausted, halong'⟩ := ih rfl hleft
      refine ⟨failedAttempt ++ .logSettled true :: as, z, ?_, hexhausted, ?_⟩
      · rw [Machine.run_append, hrun, Option.bind_some, Machine.run_cons, hagain, Option.bind_some]
        exact hrest
      · refine (machine host cfg).along_append.mpr ⟨halong, ?_⟩
        intro y' hy'
        rw [hrun] at hy'
        cases hy'
        refine ⟨rfl, ?_⟩
        rw [hagain]
        rintro _ ⟨rfl⟩
        exact halong'

theorem step_start (host : Host) (hproxy : cfg.options.toProxy = true)
    (htarget : cfg.options.target = true) (requestHandle : SocketHandle) :
    ∃ x, (machine host cfg).step { requestHandle := requestHandle } .start = some x ∧
      x.stage = .selecting := by
  refine ⟨_, rfl, ?_⟩
  simp only [onServerConnect, root, if_true, route, hproxy, htarget]
  split <;> rfl

/-- **The fallback is never taken.** No run opens a direct attempt, and
when the last repetition has failed the request ends with the error, for
every request that asks for the fallback. -/
theorem fallback_never (hhost : LowersAscii host) (hproxy : cfg.options.toProxy = true)
    (htarget : cfg.options.target = true) (hselected : hasSelectedProxy cfg.request = false)
    {requestHandle : SocketHandle} (hcarries : CarriesFallback requestHandle) :
    ¬ FallbackHonoured host cfg requestHandle ∧
      ∀ as x, (machine host cfg).run { requestHandle := requestHandle } as = some x →
        .opened none ∉ x.outputs ∧
          (Exhausted cfg x →
            ∃ error, step host cfg x (.logSettled true) = some (x.fail error)) := by
  have hidle := routed_idle requestHandle
  refine ⟨?_, ?_⟩
  · intro hhonoured
    obtain ⟨x, hstart, hselecting⟩ := step_start host hproxy htarget requestHandle
    obtain ⟨as, y, hrun, hexhausted, halong⟩ :=
      exists_exhausted host hproxy hselected hselecting
    have hrun' : (machine host cfg).run { requestHandle := requestHandle } (.start :: as) =
        some y := by
      rw [Machine.run_cons, hstart]
      exact hrun
    have halong' : AllFail host cfg { requestHandle := requestHandle } (.start :: as) := by
      refine ⟨rfl, ?_⟩
      rw [hstart]
      rintro _ ⟨rfl⟩
      exact halong
    have hy := routed_run hhost hproxy htarget hidle hrun'
    obtain ⟨error, hfail⟩ := logSettled_exhausted host hy hexhausted
    have hdirect := (hhonoured hcarries _ y _ halong' hrun' hexhausted hfail).1
    exact Stage.noConfusion (congrArg Exchange.stage hdirect)
  · intro as x hrun
    refine ⟨?_, logSettled_exhausted host (routed_run hhost hproxy htarget hidle hrun)⟩
    have hkeep : ∀ x a y, Routed x ∧ .opened none ∉ x.outputs → step host cfg x a = some y →
        Routed y ∧ .opened none ∉ y.outputs := by
      intro x a y hx hstep
      have hnext := step_next hhost hproxy htarget hx.1 hstep
      exact ⟨hx.1.step hnext, hnext.notDirect hx.2⟩
    exact ((machine host cfg).run_invariant hkeep ⟨hidle, List.not_mem_nil⟩ hrun).2

/-- A request with the header, in lower case as it was sent. -/
def fallbackHandle : SocketHandle where
  headersList :=
    [⟨toLowerCase headerKeyProxySelectFallback, headerKeyProxySelectFallback, "true".toList⟩]

theorem carriesFallback_example : CarriesFallback fallbackHandle :=
  ⟨_, List.mem_singleton_self _, rfl, rfl⟩

theorem fallback_never_example :
    ¬ FallbackHonoured Host.ascii reportingConfig fallbackHandle ∧
      ∀ as x, (machine Host.ascii reportingConfig).run { requestHandle := fallbackHandle } as =
          some x →
        .opened none ∉ x.outputs ∧ (Exhausted reportingConfig x →
          ∃ error, step Host.ascii reportingConfig x (.logSettled true) = some (x.fail error)) :=
  fallback_never lowersAscii_ascii rfl rfl rfl carriesFallback_example

def afterBoth : Exchange :=
  ((machine Host.ascii reportingConfig).run { requestHandle := fallbackHandle } lastFails).getD
    { requestHandle := fallbackHandle }

/-- The request ends with the error, and no direct attempt is opened. -/
theorem not_fallbackHonoured_bothFail :
    ¬ FallbackHonoured Host.ascii reportingConfig fallbackHandle := by
  intro h
  have hexhausted : Exhausted reportingConfig afterBoth :=
    ⟨onError Host.ascii {} cantEstablish, by decide, by decide, by decide⟩
  have hdirect := (h carriesFallback_example lastFails afterBoth
    ((step Host.ascii reportingConfig afterBoth (.logSettled true)).getD afterBoth)
    (by decide) (by decide) hexhausted (by decide)).1
  exact absurd (congrArg Exchange.stage hdirect) (by decide)

end Exchange

end ProxyBroker.Server
