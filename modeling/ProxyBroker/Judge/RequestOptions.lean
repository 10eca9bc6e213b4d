/-
ProxyBroker.Judge.RequestOptions — the options the judge makes its
requests with (`Judge.createRequest`, the constructor of `JudgeRequest`).

`createRequest` merges its argument into the object the judge is
configured with, by `_.assign`, and hands that same object to the
request. What one call passes is therefore still there for the next.

`Isolated` is what is to be expected all the same: every request has the
timeout and the local address its call would give it on a judge that has
created no other, and the configured object is what it was. Sequences
that are isolated agree wherever their calls do (`isolated_agree`).
`isolated_iff` says when a sequence is: what the calls pass may be read
by no later call that leaves it out, unless it makes no difference there,
and has to be the configured value in the end.

The values of options are of any type `ν`; `truthy` is their value in a
condition.

Left out: the url, the id and the cache of the requests, and the other
options, which are read when a request is performed.
-/
import ProxyBroker.Lib.JsValue
import ProxyBroker.Judge.LevelDetection

namespace ProxyBroker.Judge

open Lib

namespace RequestOptions

/-! ## Options -/

/-- The own properties of an object; `none` inside is undefined. -/
abbrev Options (ν : Type) := Text → Option (Option ν)

variable {ν : Type}

/-- The object `{}`. -/
def noOptions : Options ν := fun _ => none

/-- `_.assign(target, source)`: own properties with an undefined value
are copied as well. -/
def assign (target source : Options ν) : Options ν := fun k => (source k).or (target k)

/-- `_.get(o, k)` -/
def get (o : Options ν) (k : Text) : Option ν := (o k).join

def timeoutKey : Text := "timeout".toList

def localIpKey : Text := "local_ip".toList

@[simp] theorem assign_noOptions (o : Options ν) : assign o noOptions = o := rfl

theorem assign_assoc (a b c : Options ν) : assign (assign a b) c = assign a (assign b c) := by
  funext k
  simp [assign, Option.or_assoc]

/-! ## The judge and its requests -/

/-- What every call has from its judge: the value of a value in a
condition, the 10000 of the constructor and the judge's `ip`. -/
structure Environment (ν : Type) where
  truthy : ν → Bool
  timeout : ν
  ip : ν

/-- What a `JudgeRequest` takes out of its options. -/
structure JudgeRequest (ν : Type) where
  timeout : ν
  localIp : ν
  deriving DecidableEq, Repr

variable (env : Environment ν)

/-- `_.get(options, 'timeout', 10000)` -/
def timeoutOf (o : Options ν) : ν := (get o timeoutKey).getD env.timeout

/-- `options.local_ip || this.judge.ip` -/
def localIpOf (o : Options ν) : ν :=
  match get o localIpKey with
  | some v => if env.truthy v then v else env.ip
  | none => env.ip

/-- The constructor. -/
def newJudgeRequest (o : Options ν) : JudgeRequest ν :=
  { timeout := timeoutOf env o, localIp := localIpOf env o }

/-- `createRequest` on a judge whose `_options.request` is `configured`,
null included: there `_.assign` makes an object of its own. The
configured options behind the call, and the request. -/
def createRequest (configured : Option (Options ν)) (options : Options ν) :
    Option (Options ν) × JudgeRequest ν :=
  match configured with
  | none => (none, newJudgeRequest env (assign noOptions options))
  | some request =>
      let reqOptions := assign request options
      (some reqOptions, newJudgeRequest env reqOptions)

/-- One call after the other. -/
def createRequests (configured : Option (Options ν)) :
    List (Options ν) → Option (Options ν) × List (JudgeRequest ν)
  | [] => (configured, [])
  | options :: calls =>
      let (configured', request) := createRequest env configured options
      let (last, requests) := createRequests configured' calls
      (last, request :: requests)

/-- No call has an influence on another or on the judge. -/
structure Isolated (configured : Option (Options ν)) (calls : List (Options ν)) : Prop where
  requests : (createRequests env configured calls).2 =
    calls.map (fun options => (createRequest env configured options).2)
  restored : (createRequests env configured calls).1 = configured

/-! ## What the calls pass -/

/-- What the calls pass, the last value of each key. -/
def given (calls : List (Options ν)) : Options ν := fun k => (calls.filterMap (· k)).getLast?

@[simp] theorem given_nil : given ([] : List (Options ν)) = noOptions := rfl

theorem given_cons (options : Options ν) (calls : List (Options ν)) :
    given (options :: calls) = assign options (given calls) := by
  funext k
  unfold given assign
  cases h : options k with
  | none => simp [h]
  | some v => simp [h, List.getLast?_cons, Option.or_some]

/-- The condition: `v` a value an earlier call has passed and no later one
has passed again. -/
structure KeepsOptions (request : Options ν) (calls : List (Options ν)) : Prop where
  timeout : ∀ pre options post, calls = pre ++ options :: post → options timeoutKey = none →
    ∀ v, given pre timeoutKey = some v → v.getD env.timeout = timeoutOf env request
  localIp : ∀ pre options post, calls = pre ++ options :: post → options localIpKey = none →
    ∀ v, given pre localIpKey = some v →
      localIpOf env (fun _ => some v) = localIpOf env request
  last : ∀ k v, given calls k = some v → request k = some v

/-! ## Runs -/

theorem createRequests_none (calls : List (Options ν)) :
    createRequests env none calls =
      (none, calls.map (fun options => (createRequest env none options).2)) := by
  induction calls with
  | nil => rfl
  | cons options calls ih => simp [createRequests, createRequest, ih]

/-- The shared object collects what the calls pass. -/
theorem createRequests_fst (request : Options ν) (calls : List (Options ν)) :
    (createRequests env (some request) calls).1 = some (assign request (given calls)) := by
  induction calls generalizing request with
  | nil => rfl
  | cons options calls ih =>
      simp [createRequests, createRequest, ih, given_cons, assign_assoc]

theorem createRequests_append (configured : Option (Options ν)) (pre post : List (Options ν)) :
    (createRequests env configured (pre ++ post)).2 =
      (createRequests env configured pre).2 ++
        (createRequests env (createRequests env configured pre).1 post).2 := by
  induction pre generalizing configured with
  | nil => rfl
  | cons options pre ih => simp [createRequests, ih]

theorem createRequests_length (configured : Option (Options ν)) (calls : List (Options ν)) :
    (createRequests env configured calls).2.length = calls.length := by
  induction calls generalizing configured with
  | nil => rfl
  | cons options calls ih => simp [createRequests, ih]

/-- The request a call creates behind the calls `pre`. -/
theorem createRequests_at (request options : Options ν) (pre post : List (Options ν)) :
    (createRequests env (some request) (pre ++ options :: post)).2[pre.length]? =
      some (newJudgeRequest env (assign (assign request (given pre)) options)) := by
  rw [createRequests_append, createRequests_fst,
    List.getElem?_append_right (by rw [createRequests_length]), createRequests_length]
  simp [createRequests, createRequest]

/-! ## Isolation -/

/-- Every request is the one its call makes alone, said of each place. -/
theorem requests_eq_iff (request : Options ν) (calls : List (Options ν)) :
    (createRequests env (some request) calls).2 =
        calls.map (fun options => (createRequest env (some request) options).2) ↔
      ∀ pre options post, calls = pre ++ options :: post →
        newJudgeRequest env (assign (assign request (given pre)) options) =
          newJudgeRequest env (assign request options) := by
  constructor
  · intro h pre options post hcalls
    subst hcalls
    have hat := congrArg (·[pre.length]?) h
    simpa [createRequests_at, createRequest] using hat
  · intro h
    apply List.ext_getElem?
    intro i
    by_cases hi : i < calls.length
    · have hcalls : calls = calls.take i ++ calls[i] :: calls.drop (i + 1) := by simp
      have hlength : (calls.take i).length = i := List.length_take_of_le (Nat.le_of_lt hi)
      have hat := createRequests_at env request calls[i] (calls.take i) (calls.drop (i + 1))
      rw [← hcalls, hlength, h _ _ _ hcalls] at hat
      simp [hat, createRequest, hi]
    · have hle := Nat.le_of_not_lt hi
      rw [List.getElem?_eq_none (by rwa [createRequests_length]),
        List.getElem?_eq_none (by rwa [List.length_map])]

/-- What is passed before a call is read for its timeout only if the call
passes none. -/
theorem timeoutOf_eq_iff (request before options : Options ν) :
    timeoutOf env (assign (assign request before) options) =
        timeoutOf env (assign request options) ↔
      (options timeoutKey = none → ∀ v, before timeoutKey = some v →
        v.getD env.timeout = timeoutOf env request) := by
  cases hoptions : options timeoutKey with
  | some v => simp [timeoutOf, get, assign, hoptions]
  | none =>
      cases hbefore : before timeoutKey with
      | none => simp [timeoutOf, get, assign, hoptions, hbefore]
      | some v => simp [timeoutOf, get, assign, hoptions, hbefore]

theorem localIpOf_eq_iff (request before options : Options ν) :
    localIpOf env (assign (assign request before) options) =
        localIpOf env (assign request options) ↔
      (options localIpKey = none → ∀ v, before localIpKey = some v →
        localIpOf env (fun _ => some v) = localIpOf env request) := by
  cases hoptions : options localIpKey with
  | some v => simp [localIpOf, get, assign, hoptions]
  | none =>
      cases hbefore : before localIpKey with
      | none => simp [localIpOf, get, assign, hoptions, hbefore]
      | some v => simp [localIpOf, get, assign, hoptions, hbefore]

theorem assign_eq_self_iff (request source : Options ν) :
    assign request source = request ↔ ∀ k v, source k = some v → request k = some v := by
  constructor
  · intro h k v hv
    have hk := congrFun h k
    simp only [assign, hv, Option.some_or] at hk
    exact hk.symm
  · intro h
    funext k
    cases hv : source k with
    | none => simp [assign, hv]
    | some v => simp [assign, hv, h k v hv]

/-- Calls do not leak into each other exactly if the judge's options are
null or keep their values in the sense of `KeepsOptions`. -/
theorem isolated_iff (configured : Option (Options ν)) (calls : List (Options ν)) :
    Isolated env configured calls ↔
      ∀ request, configured = some request → KeepsOptions env request calls := by
  cases configured with
  | none =>
      refine iff_of_true ⟨?_, ?_⟩ (fun request h => by cases h)
      · rw [createRequests_none]
      · rw [createRequests_none]
  | some request =>
      have hrequests := requests_eq_iff env request calls
      have hlast := assign_eq_self_iff request (given calls)
      have hsplit (o o' : Options ν) : newJudgeRequest env o = newJudgeRequest env o' ↔
          timeoutOf env o = timeoutOf env o' ∧ localIpOf env o = localIpOf env o' := by
        simp [newJudgeRequest]
      simp only [hsplit, timeoutOf_eq_iff, localIpOf_eq_iff] at hrequests
      constructor
      · rintro ⟨h, hrestored⟩ request' hrequest
        obtain rfl := Option.some_inj.mp hrequest
        rw [createRequests_fst, Option.some_inj] at hrestored
        have hat := hrequests.mp h
        exact {
          timeout := fun pre options post hcalls => (hat pre options post hcalls).1
          localIp := fun pre options post hcalls => (hat pre options post hcalls).2
          last := hlast.mp hrestored }
      · intro h
        have hkeeps := h request rfl
        refine ⟨hrequests.mpr fun pre options post hcalls =>
          ⟨hkeeps.timeout pre options post hcalls, hkeeps.localIp pre options post hcalls⟩, ?_⟩
        rw [createRequests_fst, hlast.mpr hkeeps.last]

/-- Isolated sequences that agree in one call agree in its request. -/
theorem isolated_agree {configured : Option (Options ν)} {calls calls' : List (Options ν)}
    (h : Isolated env configured calls) (h' : Isolated env configured calls') {i : Nat}
    (hi : calls[i]? = calls'[i]?) :
    (createRequests env configured calls).2[i]? =
      (createRequests env configured calls').2[i]? := by
  rw [h.requests, h'.requests, List.getElem?_map, List.getElem?_map, hi]

/-- Conversely: where the request of every call is the same behind any
other calls, all sequences create what their calls create alone. -/
theorem requests_of_agree {configured : Option (Options ν)}
    (h : ∀ calls calls' : List (Options ν), calls.length = calls'.length → ∀ i : Nat,
      calls[i]? = calls'[i]? →
        (createRequests env configured calls).2[i]? =
          (createRequests env configured calls').2[i]?)
    (calls : List (Options ν)) :
    (createRequests env configured calls).2 =
      calls.map (fun options => (createRequest env configured options).2) := by
  cases configured with
  | none => rw [createRequests_none]
  | some request =>
      rw [requests_eq_iff]
      intro pre options post hcalls
      subst hcalls
      have hgiven : given (pre.map fun _ => noOptions) = (noOptions : Options ν) := by
        induction pre with
        | nil => rfl
        | cons o pre ih => rw [List.map_cons, given_cons, ih, assign_noOptions]
      have hat := h (pre ++ options :: post) (pre.map (fun _ => noOptions) ++ options :: post)
        (by simp) pre.length (by simp)
      rw [createRequests_at] at hat
      have halone := createRequests_at env request options (pre.map fun _ => noOptions) post
      rw [List.length_map, hgiven, assign_noOptions] at halone
      exact Option.some_inj.mp (hat.trans halone)

/-! ## A leak -/

/-- A judge as it is configured without options of its own. -/
def defaultRequest : Options JsValue :=
  fun k => if k = timeoutKey then some (some (.num 10000)) else none

def defaultEnvironment : Environment JsValue :=
  { truthy := JsValue.truthy, timeout := .num 10000, ip := .str "0.0.0.0".toList }

def timeoutOption (n : Int) : Options JsValue :=
  fun k => if k = timeoutKey then some (some (.num n)) else none

/-- A timeout of five milliseconds is that of the next call too. -/
theorem not_isolated_timeout :
    ¬ ∀ calls calls' : List (Options JsValue), calls.length = calls'.length → ∀ i : Nat,
      calls[i]? = calls'[i]? →
        (createRequests defaultEnvironment (some defaultRequest) calls).2[i]? =
            (createRequests defaultEnvironment (some defaultRequest) calls').2[i]? ∧
          (createRequests defaultEnvironment (some defaultRequest) calls).1 =
            some defaultRequest := by
  intro h
  have hat := (h [timeoutOption 5, noOptions] [noOptions, noOptions] rfl 1 rfl).1
  exact absurd hat (by decide)

end RequestOptions

end ProxyBroker.Judge
