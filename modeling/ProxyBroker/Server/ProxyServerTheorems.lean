/-
ProxyBroker.Server.ProxyServerTheorems — one request, one answer.

A byte that was piped to the client is the beginning of an answer. The
code decides whether to try again by the downstream's handle alone
(`Failed`): for plain HTTP any error, a status of 400 or more included,
for CONNECT a socket error. It does not ask whether bytes were piped.

`oneAnswer_of_clean`: in a run in which no attempt that piped a byte
finishes `Failed`, nothing is opened and no 504 head is written behind a
piped byte. `not_oneAnswer_notFound` is a run where this goes wrong: a
404 answer is piped and the request is tried again.

The invariant is `Inv`. Steps before the first piped byte keep it for
one reason (`Unpiped.inv`); behind it only `closed` is left to say.
-/
import ProxyBroker.Server.ProxyServer

namespace ProxyBroker.Server

open Lib SocketHandle Proxy

/-- A byte of a downstream reaches the client. -/
def Output.isPiped : Output → Bool
  | .piped chunk => !chunk.isEmpty
  | _ => false

/-- The beginning of another answer: a further attempt, or a 504 head. -/
def Output.isNewAnswer : Output → Bool
  | .opened _ | .gatewayTimeout _ => true
  | _ => false

/-- No attempt is opened and no 504 head is written behind a piped byte. -/
def OneAnswer (os : List Output) : Prop :=
  os.Pairwise (fun a b => a.isPiped = true → b.isNewAnswer = false)

instance (os : List Output) : Decidable (OneAnswer os) :=
  inferInstanceAs (Decidable (List.Pairwise _ os))

namespace Exchange

/-- A byte was piped to the client. -/
def piped (x : Exchange) : Bool := x.outputs.any Output.isPiped

/-- What `handle...AfterFinishedRequest` takes for a failed attempt. -/
def failed (cfg : Config) (handle : SocketHandle) : Bool :=
  if cfg.ssl then handle.hasError && handle.hasSocketError else handle.hasError

/-- An attempt that piped a byte does not finish failed. -/
def clean (cfg : Config) (x : Exchange) : Action → Bool
  | .resume _ =>
      match x.stage with
      | .attempt _ _ handle => !(x.piped && failed cfg handle)
      | _ => true
  | _ => true

/-! ## The invariant -/

/-- Where a request can be once a byte was piped. -/
def Answering (cfg : Config) : Stage → Prop
  | .idle | .selecting => False
  | .attempt _ _ _ => True
  | .logging handle => failed cfg handle = false
  | .ended => True

structure Inv (cfg : Config) (x : Exchange) : Prop where
  oneAnswer : OneAnswer x.outputs
  answering : x.piped = true → Answering cfg x.stage

theorem Unpiped.inv {cfg : Config} {x : Exchange} (h : x.piped = false) : Inv cfg x := by
  refine ⟨?_, ?_⟩
  · rw [piped, List.any_eq_false] at h
    unfold OneAnswer
    refine List.pairwise_of_forall_mem_list ?_
    intro a ha b _ hpiped
    exact absurd hpiped (h a ha)
  · intro hp
    rw [h] at hp
    cases hp

/-! ## What the helpers append -/

@[simp] theorem piped_suspend (x : Exchange) (stage : Stage) :
    (x.suspend stage).piped = x.piped := rfl

@[simp] theorem piped_emit (x : Exchange) (o : Output) :
    (x.emit o).piped = (x.piped || o.isPiped) := by
  simp [piped, emit]

@[simp] theorem piped_fail (x : Exchange) (error : JsError) : (x.fail error).piped = x.piped := by
  simp [fail, Output.isPiped]

@[simp] theorem piped_openDownstream (x : Exchange) (proxyUrl : Option UrlBase) :
    (x.openDownstream proxyUrl).piped = x.piped := by
  simp [openDownstream, Output.isPiped]

@[simp] theorem piped_route (cfg : Config) (direct : Bool) (x : Exchange) :
    (route cfg direct x).piped = x.piped := by
  unfold route
  split <;> simp

@[simp] theorem piped_root (host : Host) (cfg : Config) (direct : Bool) (x : Exchange) :
    (root host cfg direct x).piped = x.piped := by
  unfold root
  split
  · rw [piped_route]
    rfl
  · simp

@[simp] theorem piped_onServerConnect (host : Host) (cfg : Config) (direct : Bool)
    (x : Exchange) : (onServerConnect host cfg direct x).piped = x.piped := by
  unfold onServerConnect
  split
  · rw [piped_route]
    rfl
  · simp

theorem piped_retry (cfg : Config) {direct : Exchange → Exchange}
    (hdirect : ∀ x, (direct x).piped = x.piped) (error : Option JsError) (x : Exchange) :
    (retry cfg direct error x).piped = x.piped := by
  unfold retry
  dsimp only
  split
  · rfl
  · split
    · exact hdirect x
    · cases error with
      | none => rfl
      | some error => exact piped_fail x error

@[simp] theorem piped_handleAfterFinishedRequest (host : Host) (cfg : Config)
    (handle : SocketHandle) (x : Exchange) :
    (handleAfterFinishedRequest host cfg handle x).piped = x.piped := by
  unfold handleAfterFinishedRequest handleUpstreamAfterFinishedRequest
    handleResponseAfterFinishedRequest
  split <;> split
  · exact piped_retry cfg (piped_onServerConnect host cfg true) _ x
  · simp [Output.isPiped]
  · exact piped_retry cfg (piped_root host cfg true) _ x
  · simp [Output.isPiped]

/-- An attempt that did not fail ends the request. -/
theorem handleAfterFinishedRequest_ok (host : Host) {cfg : Config} {handle : SocketHandle}
    (h : failed cfg handle = false) (x : Exchange) :
    handleAfterFinishedRequest host cfg handle x = (x.emit .closed).suspend .ended := by
  unfold failed at h
  unfold handleAfterFinishedRequest handleUpstreamAfterFinishedRequest
    handleResponseAfterFinishedRequest
  cases hssl : cfg.ssl with
  | true => simp_all
  | false => simp_all

/-! ## One step -/

/-- An output that begins no answer can be appended. -/
theorem oneAnswer_emit {x : Exchange} (h : OneAnswer x.outputs) {o : Output}
    (ho : o.isNewAnswer = false) : OneAnswer (x.emit o).outputs := by
  unfold OneAnswer emit
  rw [List.pairwise_append]
  refine ⟨h, List.pairwise_singleton _ o, ?_⟩
  intro a _ b hb _
  rw [List.mem_singleton] at hb
  rw [hb]
  exact ho

theorem handleAfterFinishedRequest_inv (host : Host) {cfg : Config} {handle : SocketHandle}
    {x : Exchange} (hone : OneAnswer x.outputs)
    (hclean : x.piped = true → failed cfg handle = false) :
    Inv cfg (handleAfterFinishedRequest host cfg handle x) := by
  cases hp : x.piped with
  | false => exact Unpiped.inv (by rw [piped_handleAfterFinishedRequest, hp])
  | true =>
      rw [handleAfterFinishedRequest_ok host (hclean hp)]
      exact ⟨oneAnswer_emit hone rfl, fun _ => trivial⟩

/-- **Step lemma.** -/
theorem step_inv (host : Host) (cfg : Config) (x : Exchange) (a : Action) (y : Exchange)
    (hinv : Inv cfg x) (hclean : clean cfg x a = true) (h : step host cfg x a = some y) :
    Inv cfg y := by
  obtain ⟨hone, hans⟩ := hinv
  cases a with
  | start =>
      cases hst : x.stage with
      | idle =>
          have hp : x.piped = false := by
            cases hp : x.piped with
            | false => rfl
            | true => simpa [hst, Answering] using hans hp
          simp only [step, hst, Option.some.injEq] at h
          rw [← h]
          refine Unpiped.inv ?_
          split
          · rw [piped_onServerConnect, hp]
          · rw [piped_root, hp]
      | _ => simp [step, hst] at h
  | targetSettled result =>
      cases hst : x.stage with
      | selecting =>
          have hp : x.piped = false := by
            cases hp : x.piped with
            | false => rfl
            | true => simpa [hst, Answering] using hans hp
          refine Unpiped.inv ?_
          cases result with
          | url proxyUrl =>
              simp only [step, hst, Option.some.injEq] at h
              rw [← h, piped_openDownstream, hp]
          | nothing =>
              simp only [step, hst, Option.some.injEq] at h
              rw [← h, piped_suspend, hp]
          | rejected error =>
              simp only [step, hst, Option.some.injEq] at h
              rw [← h, piped_fail, hp]
      | _ => simp [step, hst] at h
  | connect =>
      simp only [step] at h
      split at h
      · split at h
        · cases h
        · cases h
          split
          · exact ⟨oneAnswer_emit hone rfl, fun _ => trivial⟩
          · exact ⟨hone, fun _ => trivial⟩
      · cases h
  | socket e =>
      simp only [step] at h
      split at h
      · split at h
        · cases h
        · split at h
          · cases h
          · cases h
            split
            · exact ⟨oneAnswer_emit hone rfl, fun _ => trivial⟩
            · exact ⟨hone, fun _ => trivial⟩
      · cases h
  | resume duration =>
      cases hst : x.stage with
      | attempt proxyUrl connected handle =>
          -- the only step that `clean` says something about
          have hok : x.piped = true → failed cfg handle = false := by
            intro hp
            simpa [clean, hst, hp] using hclean
          simp only [step, hst] at h
          split at h
          · cases proxyUrl with
            | some proxyUrl =>
                cases h
                split
                · refine ⟨oneAnswer_emit hone rfl, ?_⟩
                  intro hp
                  rw [piped_emit] at hp
                  exact hok (by simpa [Output.isPiped] using hp)
                · exact ⟨hone, hok⟩
            | none =>
                cases h
                exact handleAfterFinishedRequest_inv host hone hok
          · cases h
      | _ => simp [step, hst] at h
  | logSettled ok =>
      cases hst : x.stage with
      | logging handle =>
          rw [hst] at hans
          simp only [step, hst, Option.some.injEq] at h
          rw [← h]
          cases ok with
          | true => exact handleAfterFinishedRequest_inv host hone hans
          | false => exact ⟨hone, fun _ => trivial⟩
      | _ => simp [step, hst] at h
  | clientGone =>
      cases h
      exact ⟨hone, hans⟩

/-! ## Runs -/

/-- **One answer.** In every run in which no attempt that piped a byte to
the client finishes failed, no attempt is opened and no 504 head is
written behind a piped byte. -/
theorem oneAnswer_of_clean (host : Host) (cfg : Config) (requestHandle : SocketHandle)
    (as : List Action) (y : Exchange)
    (hclean : (machine host cfg).Along (fun x a => clean cfg x a = true)
      { requestHandle := requestHandle } as)
    (hrun : (machine host cfg).run { requestHandle := requestHandle } as = some y) :
    OneAnswer y.outputs := by
  have hinit : Inv cfg { requestHandle := requestHandle } := Unpiped.inv rfl
  exact ((machine host cfg).run_guarded (step_inv host cfg) hclean hinit hrun).oneAnswer

def exampleConfig : Config where
  options := { toProxy := true, target := true, repeatLimit := 1 }
  request :=
    { url := "http://a/".toList, httpVersion := "1.1".toList, headers := [],
      remoteAddress := "10.0.0.1".toList, localAddress := "10.0.0.2".toList,
      localPort := "3128".toList }
  ssl := false

/-- One attempt that gets `answer` and then closes. -/
def attemptActions (answer : String) : List Action :=
  [.targetSettled (.url ⟨"http".toList, "10.0.0.3".toList, 8080⟩), .connect,
    .socket (.data (Utf8.encode answer.toList)), .socket .close, .resume 5, .logSettled true]

/-- A run that answers. -/
theorem oneAnswer_ok :
    OneAnswer [.opened (some ⟨"http".toList, "10.0.0.3".toList, 8080⟩),
      .piped (Utf8.encode "HTTP/1.1 200 OK\r\nA: b\r\n\r\n".toList), .closed] :=
  oneAnswer_of_clean Host.ascii exampleConfig {}
    (.start :: attemptActions "HTTP/1.1 200 OK\r\nA: b\r\n\r\n")
    ((((machine Host.ascii exampleConfig).run { requestHandle := {} }
      (.start :: attemptActions "HTTP/1.1 200 OK\r\nA: b\r\n\r\n"))).getD { requestHandle := {} })
    (by decide) (by decide)

/-- A 404 answer is piped, and then another attempt is opened. -/
theorem not_oneAnswer_notFound :
    ¬ ∀ y, (machine Host.ascii exampleConfig).run { requestHandle := {} }
        (.start :: attemptActions "HTTP/1.1 404 Not Found\r\nA: b\r\n\r\nno" ++
          [.targetSettled (.url ⟨"http".toList, "10.0.0.4".toList, 8080⟩)]) = some y →
      OneAnswer y.outputs := by
  intro h
  have hrun : ((machine Host.ascii exampleConfig).run { requestHandle := {} }
      (.start :: attemptActions "HTTP/1.1 404 Not Found\r\nA: b\r\n\r\nno" ++
        [.targetSettled (.url ⟨"http".toList, "10.0.0.4".toList, 8080⟩)])).any
      (fun y => decide (¬ OneAnswer y.outputs)) = true := by
    decide
  obtain ⟨y, hy, hbad⟩ := (Option.any_eq_true _ _).mp hrun
  exact (of_decide_eq_true hbad) (h y hy)

end Exchange

end ProxyBroker.Server
