/-
ProxyBroker.Proxy.BatchTheorems — one batch for a request at a time.

`fetchRequests[reqId].inc` is a lock, a counter and a mark for idleness in
one number. For a request it has seen, the enqueuer is in one of three
phases: idle, with a call on its way to its loop, or with so many jobs
outstanding. `Phase` says what `inc` is in each, and `InPhase.step` that
every step leads from a phase to a phase.

* `oneBatch_of_run` — what follows for all interleavings and failures;
* `round_enqueues_iff` — which rounds of an idle request come out empty
  although there are rows for it: those that begin behind the end of the
  result set (and all that ask for a level or a country).
-/
import Mathlib.Data.List.Perm.Basic
import ProxyBroker.Proxy.ProxyFetchTheorems

namespace ProxyBroker.Proxy

open Lib Server

namespace ProxyFetch

namespace Enqueuer

/-! ## What one function does to a request -/

/-- The `inc` of a request, if it is cached. -/
def incOf (s : Enqueuer) (reqId : Text) : Option Int := (s.fetchRequests reqId).map (·.inc)

/-- The calls for a request between their guard and their loop. -/
def running (s : Enqueuer) (reqId : Text) : Nat :=
  s.calls.countP (fun call => call.workLoad.reqId = some reqId)

/-- The jobs of a request that have not settled. -/
def outstanding (s : Enqueuer) (reqId : Text) : Nat :=
  s.jobs.countP (fun job => job.reqId = some reqId)

theorem incOf_setInc (s : Enqueuer) (reqId : Text) (f : Int → Int) (x : Text) :
    (s.setInc reqId f).incOf x = if x = reqId then (s.incOf reqId).map f else s.incOf x := by
  unfold incOf setInc
  by_cases h : x = reqId
  · subst h
    simp [Function.comp_def]
  · simp [h]

@[simp] theorem setInc_calls (s : Enqueuer) (reqId : Text) (f : Int → Int) :
    (s.setInc reqId f).calls = s.calls := rfl

@[simp] theorem setInc_jobs (s : Enqueuer) (reqId : Text) (f : Int → Int) :
    (s.setInc reqId f).jobs = s.jobs := rfl

theorem inc_recordPage (requests : FetchRequests) (select : WorkLoad) (offset : Nat)
    (res : List Row) (x : Text) :
    (recordPage requests select offset res x).map (·.inc) = (requests x).map (·.inc) := by
  unfold recordPage
  cases select.reqId with
  | none => rfl
  | some reqId =>
      cases hq : requests reqId with
      | none => simp [hq]
      | some q =>
          by_cases h : x = reqId
          · subst h
            by_cases hpos : 0 < res.length <;> simp [hq, hpos]
          · simp [hq, h]

theorem inc_eq (s : Enqueuer) (reqId : Text) : s.inc reqId = (s.incOf reqId).getD 0 := rfl

/-- A request that is marked as idle if its `inc` tells so. -/
theorem incOf_setIdle (s : Enqueuer) (reqId : Text) (p : Int → Prop) [DecidablePred p] (x : Text) :
    (if p (s.inc reqId) then s.setInc reqId (fun _ => -1) else s).incOf x =
      if reqId = x then (s.incOf x).map (fun inc => if p inc then -1 else inc) else s.incOf x := by
  by_cases h : reqId = x
  · subst h
    rw [if_pos rfl, inc_eq]
    cases hinc : s.incOf reqId with
    | none => split <;> simp [incOf_setInc, hinc]
    | some inc =>
        rw [Option.getD_some, Option.map_some]
        by_cases hp : p inc
        · rw [if_pos hp, if_pos hp, incOf_setInc, if_pos rfl, hinc, Option.map_some]
        · rw [if_neg hp, if_neg hp, hinc]
  · rw [if_neg h]
    split
    · rw [incOf_setInc, if_neg (fun heq => h heq.symm)]
    · rfl

theorem countP_eraseIdx {α : Type} {l : List α} {i : Nat} {a : α} (h : l[i]? = some a)
    (p : α → Bool) : l.countP p = (l.eraseIdx i).countP p + (p a).toNat := by
  obtain ⟨hi, rfl⟩ := List.getElem?_eq_some_iff.mp h
  have hperm := List.Perm.countP_eq p (List.getElem_cons_eraseIdx_perm hi)
  rw [← hperm, List.countP_cons]
  cases p l[i] <;> rfl

theorem countP_set_of_eq {α : Type} {l : List α} {i : Nat} {a b : α} (h : l[i]? = some a)
    {p : α → Bool} (hp : p b = p a) : (l.set i b).countP p = l.countP p := by
  obtain ⟨hi, rfl⟩ := List.getElem?_eq_some_iff.mp h
  have hset := List.Perm.countP_eq p (List.set_perm_cons_eraseIdx hi b)
  have herase := List.Perm.countP_eq p (List.getElem_cons_eraseIdx_perm hi)
  rw [hset, ← herase, List.countP_cons, List.countP_cons, hp]

/-! ### The loop -/

theorem foldl_pushJob_calls (reqId : Option Text) (l : List Row) (s : Enqueuer) :
    (l.foldl (pushJob reqId) s).calls = s.calls := by
  induction l generalizing s with
  | nil => rfl
  | cons c l ih =>
      rw [List.foldl_cons, ih]
      cases reqId <;> rfl

theorem foldl_pushJob_jobs (reqId : Option Text) (l : List Row) (s : Enqueuer) :
    (l.foldl (pushJob reqId) s).jobs = s.jobs ++ l.map (fun c => ⟨reqId, c⟩) := by
  induction l generalizing s with
  | nil => exact (List.append_nil _).symm
  | cons c l ih =>
      have hone : (pushJob reqId s c).jobs = s.jobs ++ [⟨reqId, c⟩] := by cases reqId <;> rfl
      rw [List.foldl_cons, ih, hone, List.append_assoc]
      rfl

theorem foldl_pushJob_incOf (reqId : Option Text) (l : List Row) (s : Enqueuer) (x : Text) :
    (l.foldl (pushJob reqId) s).incOf x =
      if reqId = some x then (s.incOf x).map (· + (l.length : Int)) else s.incOf x := by
  induction l generalizing s with
  | nil =>
      have hzero : (s.incOf x).map (· + ((([] : List Row).length : Nat) : Int)) = s.incOf x := by
        cases s.incOf x <;> simp
      rw [hzero, ite_self]
      rfl
  | cons c l ih =>
      rw [List.foldl_cons, ih]
      cases reqId with
      | none => rfl
      | some reqId =>
          have hone : (pushJob (some reqId) s c).incOf x = (s.setInc reqId (· + 1)).incOf x := rfl
          rw [hone, incOf_setInc]
          by_cases h : reqId = x
          · subst h
            cases s.incOf reqId <;> simp
            omega
          · have hne : ¬ x = reqId := fun heq => h heq.symm
            simp [h, hne]

/-- The loop, for the request it is for and for the others. -/
theorem enqueueList_spec (s : Enqueuer) (reqId : Option Text) (l : List Row) (x : Text) :
    (s.enqueueList reqId l).calls = s.calls ∧
      (s.enqueueList reqId l).jobs = s.jobs ++ l.map (fun c => ⟨reqId, c⟩) ∧
      (s.enqueueList reqId l).incOf x =
        if reqId = some x then
          (s.incOf x).map (fun inc =>
            if l.length = 0 ∨ inc + (l.length : Int) = 0 then -1 else inc + (l.length : Int))
        else s.incOf x := by
  have hcalls := foldl_pushJob_calls reqId l s
  have hjobs := foldl_pushJob_jobs reqId l s
  have hinc := foldl_pushJob_incOf reqId l s x
  unfold enqueueList
  cases reqId with
  | none => exact ⟨hcalls, hjobs, by simpa using hinc⟩
  | some reqId =>
      dsimp only
      refine ⟨?_, ?_, ?_⟩
      · split <;> exact hcalls
      · split <;> exact hjobs
      · rw [incOf_setIdle _ reqId (fun inc => l.length = 0 ∨ inc = 0), hinc]
        by_cases h : reqId = x
        · subst h
          rw [if_pos rfl, if_pos rfl, if_pos rfl, Option.map_map]
          rfl
        · have hne : ¬ some reqId = some x := fun heq => h (Option.some.inj heq)
          rw [if_neg h, if_neg hne, if_neg hne]

/-- A call that passes the guard. -/
theorem doEnqueue_spec (fetchSize : Nat) {s : Enqueuer} {workLoad : WorkLoad}
    (hfree : s.busy workLoad.reqId = false) (x : Text) :
    (s.doEnqueue fetchSize workLoad).jobs = s.jobs ∧
      (s.doEnqueue fetchSize workLoad).running x =
        s.running x + (decide (workLoad.reqId = some x)).toNat ∧
      (s.doEnqueue fetchSize workLoad).incOf x =
        if workLoad.reqId = some x then (s.incOf x).map (fun _ => 0) else s.incOf x := by
  unfold doEnqueue
  rw [if_neg (by simp [hfree])]
  cases hreq : workLoad.reqId with
  | none => simp [running, incOf]
  | some reqId =>
      refine ⟨rfl, ?_, ?_⟩
      · unfold running
        rw [List.countP_append, List.countP_singleton]
        by_cases h : reqId = x <;> simp [h]
      · have hset := incOf_setInc s reqId (fun _ => 0) x
        by_cases h : x = reqId
        · subst h
          rw [if_pos rfl] at hset ⊢
          exact hset
        · rw [if_neg h] at hset
          rw [if_neg (fun heq => h (Option.some.inj heq).symm)]
          exact hset

/-- A suspended call goes on to the next await, or runs to its end. -/
theorem callGo_cases (s : Enqueuer) (i : Nat) (call : Call) (answer : Option (List Row)) :
    (∃ (stage : Stage) (requests : FetchRequests),
        (∀ x, (requests x).map (·.inc) = s.incOf x) ∧
        s.callGo i call answer =
          { s.setCall i { call with stage := stage } with fetchRequests := requests }) ∨
      ∃ l, s.callGo i call answer = s.finish i call l := by
  unfold callGo
  cases hstage : call.stage with
  | querying offset =>
      cases answer with
      | some res =>
          exact .inl ⟨.closing res, _, inc_recordPage s.fetchRequests call.workLoad offset res, rfl⟩
      | none => exact .inr ⟨[], rfl⟩
  | failed => exact .inr ⟨[], rfl⟩
  | closing l =>
      cases answer with
      | some res => exact .inl ⟨.saving l, s.fetchRequests, fun _ => rfl, rfl⟩
      | none => exact .inr ⟨[], rfl⟩
  | saving l => exact .inr ⟨l, rfl⟩

/-- A job that settles. -/
theorem jobSettled_spec {s : Enqueuer} {i : Nat} {job : Job} (hjob : s.jobs[i]? = some job)
    (x : Text) :
    (s.jobSettled i job).calls = s.calls ∧
      s.outstanding x = (s.jobSettled i job).outstanding x +
        (decide (job.reqId = some x)).toNat ∧
      (s.jobSettled i job).incOf x =
        if job.reqId = some x then (s.incOf x).map (fun inc => if inc - 1 ≤ 0 then -1 else inc - 1)
        else s.incOf x := by
  have hcount := countP_eraseIdx hjob (fun job => decide (job.reqId = some x))
  unfold jobSettled
  cases hreq : job.reqId with
  | none =>
      rw [hreq] at hcount
      exact ⟨rfl, hcount, rfl⟩
  | some reqId =>
      rw [hreq] at hcount
      dsimp only
      refine ⟨?_, ?_, ?_⟩
      · split <;> rfl
      · split <;> exact hcount
      · rw [incOf_setIdle _ reqId (· ≤ 0), incOf_setInc]
        by_cases h : reqId = x
        · subst h
          rw [if_pos rfl, if_pos rfl, if_pos rfl, Option.map_map]
          rfl
        · have hne : ¬ some reqId = some x := fun heq => h (Option.some.inj heq)
          rw [if_neg h, if_neg hne, if_neg (fun heq => h heq.symm)]
          rfl

/-! ## Phases -/

inductive Phase where
  /-- not cached -/
  | absent
  | idle
  /-- a call between its guard and its loop -/
  | fetching
  /-- one more than so many jobs are outstanding -/
  | working (more : Nat)
  deriving DecidableEq, Repr

namespace Phase

def inc : Phase → Option Int
  | absent => none
  | idle => some (-1)
  | fetching => some 0
  | working more => some (more + 1)

def running : Phase → Nat
  | fetching => 1
  | absent | idle | working _ => 0

def outstanding : Phase → Nat
  | working more => more + 1
  | absent | idle | fetching => 0

end Phase

/-- What is known of a request in a phase. -/
structure InPhase (s : Enqueuer) (x : Text) (p : Phase) : Prop where
  inc : s.incOf x = p.inc
  running : s.running x = p.running
  outstanding : s.outstanding x = p.outstanding

/-- The calls are made for requests that are cached. -/
def Cached (s : Enqueuer) : Action → Prop
  | .doEnqueue workLoad => ∀ reqId ∈ workLoad.reqId, (s.fetchRequests reqId).isSome = true
  | _ => True

instance (s : Enqueuer) : DecidablePred (Cached s) := fun a =>
  match a with
  | .doEnqueue workLoad => inferInstanceAs
      (Decidable (∀ reqId ∈ workLoad.reqId, (s.fetchRequests reqId).isSome = true))
  | .cacheQuery _ | .callGo _ _ | .jobSettled _ => inferInstanceAs (Decidable True)

theorem busy_of_incOf {s : Enqueuer} {reqId : Text} {inc : Int}
    (h : s.incOf reqId = some inc) : s.busy (some reqId) = decide (0 ≤ inc) := by
  unfold incOf at h
  obtain ⟨q, hq, rfl⟩ := Option.map_eq_some_iff.mp h
  simp [busy, hq]

theorem InPhase.cacheQuery {s : Enqueuer} {x : Text} {p : Phase} (h : InPhase s x p)
    (reqId : Text) :
    ∃ p', InPhase { s with fetchRequests := ProxyFetch.cacheQuery s.fetchRequests reqId } x p' := by
  unfold ProxyFetch.cacheQuery
  cases hr : s.fetchRequests reqId with
  | some q => exact ⟨p, h.inc, h.running, h.outstanding⟩
  | none =>
      by_cases hx : x = reqId
      · subst hx
        have hp : p = .absent := by
          have hinc := h.inc
          simp only [incOf, hr, Option.map_none] at hinc
          cases p <;> first | rfl | cases hinc
        subst hp
        exact ⟨.idle, by simp [incOf, Phase.inc], h.running, h.outstanding⟩
      · refine ⟨p, ?_, h.running, h.outstanding⟩
        rw [← h.inc]
        simp [incOf, hx]

theorem InPhase.doEnqueue {fetchSize : Nat} {s : Enqueuer} {x : Text} {p : Phase}
    (h : InPhase s x p) {workLoad : WorkLoad} (hcached : Cached s (.doEnqueue workLoad)) :
    ∃ p', InPhase (s.doEnqueue fetchSize workLoad) x p' := by
  cases hbusy : s.busy workLoad.reqId with
  | true =>
      have hsame : s.doEnqueue fetchSize workLoad = s := by simp [Enqueuer.doEnqueue, hbusy]
      rw [hsame]
      exact ⟨p, h⟩
  | false =>
      obtain ⟨hjobs, hrunning, hinc⟩ := doEnqueue_spec fetchSize hbusy x
      have houtstanding : (s.doEnqueue fetchSize workLoad).outstanding x = p.outstanding :=
        (congrArg _ hjobs).trans h.outstanding
      by_cases hx : workLoad.reqId = some x
      · -- only an idle request lets the call through
        rw [if_pos hx, h.inc] at hinc
        rw [decide_eq_true hx, h.running] at hrunning
        have hp : p = .idle := by
          rw [hx] at hbusy
          cases p with
          | idle => rfl
          | absent =>
              have hsome := hcached x hx
              have hnone : s.fetchRequests x = none := Option.map_eq_none_iff.mp h.inc
              rw [hnone] at hsome
              cases hsome
          | fetching =>
              rw [busy_of_incOf h.inc] at hbusy
              exact absurd hbusy (by decide)
          | working more =>
              rw [busy_of_incOf h.inc, decide_eq_false_iff_not] at hbusy
              omega
        subst hp
        exact ⟨.fetching, hinc, hrunning, houtstanding⟩
      · rw [if_neg hx, h.inc] at hinc
        rw [decide_eq_false hx, h.running] at hrunning
        exact ⟨p, hinc, hrunning, houtstanding⟩

/-- The end of a call: idle without rows, else so many jobs. -/
theorem InPhase.finish {s : Enqueuer} {x : Text} {p : Phase} (h : InPhase s x p) {i : Nat}
    {call : Call} (hcall : s.calls[i]? = some call) (l : List Row) :
    ∃ p', InPhase (s.finish i call l) x p' := by
  obtain ⟨hcalls, hjobs, hinc⟩ := enqueueList_spec (s.endCall i) call.workLoad.reqId l x
  have hcount := countP_eraseIdx hcall (fun call => decide (call.workLoad.reqId = some x))
  have hrunning : s.running x =
      (s.finish i call l).running x + (decide (call.workLoad.reqId = some x)).toNat := by
    unfold Enqueuer.finish Enqueuer.running
    rw [hcalls]
    exact hcount
  have houtstanding : (s.finish i call l).outstanding x =
      s.outstanding x + (l.map (fun c => (⟨call.workLoad.reqId, c⟩ : Job))).countP
        (fun job => job.reqId = some x) := by
    unfold Enqueuer.finish Enqueuer.outstanding
    rw [hjobs, List.countP_append]
    rfl
  have hinc : (s.finish i call l).incOf x = _ := hinc
  have hsame : (s.endCall i).incOf x = s.incOf x := rfl
  rw [hsame, h.inc] at hinc
  rw [h.outstanding, List.countP_map] at houtstanding
  rw [h.running] at hrunning
  by_cases hx : call.workLoad.reqId = some x
  · rw [if_pos hx] at hinc
    have hall : l.countP ((fun job : Job => decide (job.reqId = some x)) ∘
        fun c => (⟨call.workLoad.reqId, c⟩ : Job)) = l.length := by
      rw [List.countP_eq_length]
      intro c _
      exact decide_eq_true hx
    rw [hall] at houtstanding
    rw [decide_eq_true hx] at hrunning
    cases p with
    | fetching =>
        have hzero : (s.finish i call l).running x = 0 := Nat.succ.inj hrunning.symm
        cases l with
        | nil => exact ⟨.idle, by simpa [Phase.inc] using hinc, hzero, houtstanding⟩
        | cons c l =>
            have hne : ¬ ((c :: l).length = 0 ∨ (0 : Int) + ((c :: l).length : Int) = 0) := by
              simp only [List.length_cons]
              omega
            refine ⟨.working l.length, ?_, hzero, ?_⟩
            · rw [hinc, Phase.inc, Option.map_some, if_neg hne]
              simp [Phase.inc]
            · rw [houtstanding]
              simp [Phase.outstanding]
    | absent => simp [Phase.running] at hrunning
    | idle => simp [Phase.running] at hrunning
    | working more => simp [Phase.running] at hrunning
  · rw [if_neg hx] at hinc
    have hnone : l.countP ((fun job : Job => decide (job.reqId = some x)) ∘
        fun c => (⟨call.workLoad.reqId, c⟩ : Job)) = 0 := by
      rw [List.countP_eq_zero]
      intro c _
      simpa using hx
    rw [hnone] at houtstanding
    rw [decide_eq_false hx] at hrunning
    exact ⟨p, hinc, hrunning.symm, houtstanding⟩

theorem InPhase.callGo {s : Enqueuer} {x : Text} {p : Phase} (h : InPhase s x p) {i : Nat}
    {call : Call} (hcall : s.calls[i]? = some call) (answer : Option (List Row)) :
    ∃ p', InPhase (s.callGo i call answer) x p' := by
  rcases callGo_cases s i call answer with ⟨stage, requests, hrequests, heq⟩ | ⟨l, heq⟩
  · rw [heq]
    refine ⟨p, (hrequests x).trans h.inc, ?_, h.outstanding⟩
    rw [← h.running]
    exact countP_set_of_eq hcall rfl
  · rw [heq]
    exact h.finish hcall l

theorem InPhase.jobSettled {s : Enqueuer} {x : Text} {p : Phase} (h : InPhase s x p) {i : Nat}
    {job : Job} (hjob : s.jobs[i]? = some job) :
    ∃ p', InPhase (s.jobSettled i job) x p' := by
  obtain ⟨hcalls, houtstanding, hinc⟩ := jobSettled_spec hjob x
  have hrunning : (s.jobSettled i job).running x = p.running := by
    rw [← h.running]
    unfold Enqueuer.running
    rw [hcalls]
  rw [h.inc] at hinc
  rw [h.outstanding] at houtstanding
  by_cases hx : job.reqId = some x
  · rw [if_pos hx] at hinc
    rw [decide_eq_true hx] at houtstanding
    cases p with
    | working more =>
        have hleft : more = (s.jobSettled i job).outstanding x := Nat.succ.inj houtstanding
        cases more with
        | zero => exact ⟨.idle, by simpa [Phase.inc] using hinc, hrunning, hleft.symm⟩
        | succ more =>
            refine ⟨.working more, ?_, hrunning, hleft.symm⟩
            rw [hinc]
            have hpos : ¬ ((more + 1 : Nat) + 1 - 1 : Int) ≤ 0 := by omega
            simp only [Phase.inc, Option.map_some, if_neg hpos]
            push_cast
            simp
    | absent => simp [Phase.outstanding] at houtstanding
    | idle => simp [Phase.outstanding] at houtstanding
    | fetching => simp [Phase.outstanding] at houtstanding
  · rw [if_neg hx] at hinc
    rw [decide_eq_false hx] at houtstanding
    exact ⟨p, hinc, hrunning, houtstanding.symm⟩

/-- **Step lemma**: every step leads from a phase to a phase. -/
theorem InPhase.step {fetchSize : Nat} {s s' : Enqueuer} {a : Action} {x : Text}
    (h : ∃ p, InPhase s x p) (hcached : Cached s a) (hstep : step fetchSize s a = some s') :
    ∃ p, InPhase s' x p := by
  obtain ⟨p, h⟩ := h
  cases a with
  | cacheQuery reqId => cases hstep; exact h.cacheQuery reqId
  | doEnqueue workLoad => cases hstep; exact h.doEnqueue hcached
  | callGo i answer =>
      obtain ⟨call, hcall, rfl⟩ := Option.map_eq_some_iff.mp hstep
      exact h.callGo hcall answer
  | jobSettled i =>
      obtain ⟨job, hjob, rfl⟩ := Option.map_eq_some_iff.mp hstep
      exact h.jobSettled hjob

/-- Run lemma. -/
theorem inPhase_of_run {fetchSize : Nat} {s₀ s : Enqueuer} {as : List Action}
    (hinit : Initial s₀) (hcached : (machine fetchSize).Along Cached s₀ as)
    (hrun : (machine fetchSize).run s₀ as = some s) (x : Text) : ∃ p, InPhase s x p := by
  obtain ⟨hrequests, hcalls, hjobs⟩ := hinit
  have hstart : ∃ p, InPhase s₀ x p :=
    ⟨.absent, by simp [incOf, hrequests, Phase.inc], by simp [running, hcalls, Phase.running],
      by simp [outstanding, hjobs, Phase.outstanding]⟩
  exact (machine fetchSize).run_guarded (fun _ _ _ h hc hstep => InPhase.step h hc hstep) hcached
    hstart hrun

/-- **At most one batch per query**, whatever comes in between and
whatever fails: a call on its way or its jobs, not both and not two; and
`inc` is -1 exactly if there is neither, and else the number of jobs. -/
theorem oneBatch_of_run {fetchSize : Nat} {s₀ s : Enqueuer} {as : List Action}
    (hinit : Initial s₀) (hcached : (machine fetchSize).Along Cached s₀ as)
    (hrun : (machine fetchSize).run s₀ as = some s) {reqId : Text} {q : FetchQuery}
    (hq : s.fetchRequests reqId = some q) :
    s.running reqId + (if 0 < s.outstanding reqId then 1 else 0) ≤ 1 ∧
      (q.inc = -1 ↔ s.running reqId = 0 ∧ s.outstanding reqId = 0) ∧
      (¬ (s.running reqId = 0 ∧ s.outstanding reqId = 0) → q.inc = s.outstanding reqId) := by
  obtain ⟨p, hp⟩ := inPhase_of_run hinit hcached hrun reqId
  have hinc : some q.inc = p.inc := by
    rw [← hp.inc, incOf, hq]
    rfl
  have hrunning := hp.running
  have houtstanding := hp.outstanding
  cases p with
  | absent => cases hinc
  | idle =>
      have hidle : q.inc = -1 := Option.some.inj hinc
      have hr : s.running reqId = 0 := hrunning
      have ho : s.outstanding reqId = 0 := houtstanding
      simp [hidle, hr, ho]
  | fetching =>
      have hzero : q.inc = 0 := Option.some.inj hinc
      have hr : s.running reqId = 1 := hrunning
      have ho : s.outstanding reqId = 0 := houtstanding
      simp [hzero, hr, ho]
  | working more =>
      have hmore : q.inc = more + 1 := Option.some.inj hinc
      have hr : s.running reqId = 0 := hrunning
      have ho : s.outstanding reqId = more + 1 := houtstanding
      rw [hr, ho, hmore, if_pos (Nat.succ_pos more)]
      omega

/-- Two calls for one request, the second while the first is on its way;
the saving of the first fails. -/
def overlapping : List Action :=
  [.cacheQuery "a".toList, .doEnqueue pagesOfTwo, .doEnqueue pagesOfTwo,
    .callGo 0 (some [eliteRow, eliteRow]), .callGo 0 (some []), .callGo 0 none, .jobSettled 0]

/-- A state behind some steps; the first one if they are not possible. -/
def after (fetchSize : Nat) (s : Enqueuer) (as : List Action) : Enqueuer :=
  ((machine fetchSize).run s as).getD s

theorem oneBatch_overlapping :
    (after 100 {} overlapping).outstanding "a".toList = 1 ∧
      (after 100 {} overlapping).running "a".toList = 0 := by
  obtain ⟨hone, hidle, hcount⟩ :=
    @oneBatch_of_run 100 {} (after 100 {} overlapping) overlapping ⟨fun _ => rfl, rfl, rfl⟩
      (by decide) rfl "a".toList { offset := 0, size := 2, inc := 1 } rfl
  have hjob : (1 : Int) = (after 100 {} overlapping).outstanding "a".toList :=
    hcount fun hnone => absurd (hidle.mpr hnone) (by decide)
  have houtstanding : (after 100 {} overlapping).outstanding "a".toList = 1 := by omega
  rw [houtstanding, if_pos Nat.one_pos] at hone
  exact ⟨houtstanding, by omega⟩

/-! ## Rounds -/

/-- What `doEnqueue` gives to `fetch`. -/
def asked (fetchSize : Nat) (workLoad : WorkLoad) : WorkLoad :=
  { workLoad with limit := some (workLoad.limit.getD fetchSize) }

/-- What the database answers the query of a request. -/
def answerTo (fetchSize : Nat) (t : Tables) (s : Enqueuer) (workLoad : WorkLoad) :
    Option (List Row) :=
  (fetchOffset s.fetchRequests workLoad).bind
    (fun offset => t.getMany (selectOf (asked fetchSize workLoad) offset))

/-- A `doEnqueue` call that runs to its end, with no await of it failing
but a query the database rejects. -/
def round (fetchSize : Nat) (t : Tables) (s : Enqueuer) (workLoad : WorkLoad) : Option Enqueuer :=
  let answer := answerTo fetchSize t s workLoad
  (machine fetchSize).run s
    (.doEnqueue workLoad :: .callGo s.calls.length answer ::
      if answer.isSome then
        [.callGo s.calls.length (some []), .callGo s.calls.length (some [])]
      else [])

/-- The guard lets the call through, and it is suspended in its query. -/
theorem doEnqueue_idle {fetchSize : Nat} {s : Enqueuer} {workLoad : WorkLoad} {reqId : Text}
    {q : FetchQuery} (hreq : workLoad.reqId = some reqId)
    (hq : s.fetchRequests reqId = some q) (hidle : q.inc = -1) :
    s.doEnqueue fetchSize workLoad =
      { s.setInc reqId (fun _ => 0) with
        calls := s.calls ++ [{ workLoad := asked fetchSize workLoad
                               stage := .querying q.position }] } := by
  have hbusy : s.busy (some reqId) = false := by simp [busy, hq, hidle]
  obtain ⟨ssl, country, level, speedLimit, limit, rotation, _⟩ := workLoad
  cases hreq
  have hlater : ∀ w : WorkLoad, w.reqId = some reqId →
      fetchOffset (s.setInc reqId (fun _ => 0)).fetchRequests w = some q.position := by
    intro w hw
    simp [fetchOffset, hw, setInc, hq, Cursor.position]
  unfold doEnqueue
  rw [if_neg (by simp [hbusy])]
  simp only [hlater]
  rfl

/-- The last call goes on. -/
theorem step_callGo_last (fetchSize : Nat) {s : Enqueuer} {calls : List Call} {call : Call}
    (h : s.calls = calls ++ [call]) (answer : Option (List Row)) :
    step fetchSize s (.callGo calls.length answer) =
      some (s.callGo calls.length call answer) := by
  simp [step, h]

/-- It passes an await. -/
theorem setCall_last {s : Enqueuer} {calls : List Call} {call : Call}
    (h : s.calls = calls ++ [call]) (call' : Call) :
    (s.setCall calls.length call').calls = calls ++ [call'] := by
  simp [setCall, h]

/-- **What a round of an idle request pushes**: the rows it was answered. -/
theorem round_spec (fetchSize : Nat) (t : Tables) {s : Enqueuer} {workLoad : WorkLoad}
    {reqId : Text} {q : FetchQuery} (hreq : workLoad.reqId = some reqId)
    (hq : s.fetchRequests reqId = some q) (hidle : q.inc = -1) :
    ∃ s', round fetchSize t s workLoad = some s' ∧
      s'.jobs = s.jobs ++ ((answerTo fetchSize t s workLoad).getD []).map
        (fun c => ⟨some reqId, c⟩) := by
  unfold round
  generalize answerTo fetchSize t s workLoad = answer
  have hstep1 : step fetchSize s (.doEnqueue workLoad) =
      some (s.doEnqueue fetchSize workLoad) := rfl
  rw [doEnqueue_idle hreq hq hidle] at hstep1
  let querying : Call := { workLoad := asked fetchSize workLoad, stage := .querying q.position }
  let s1 : Enqueuer := { s.setInc reqId (fun _ => 0) with calls := s.calls ++ [querying] }
  have hfinish : ∀ (s' : Enqueuer) (call : Call) (res : List Row),
      call.workLoad = asked fetchSize workLoad → s'.jobs = s.jobs →
      (s'.finish s.calls.length call res).jobs =
        s.jobs ++ res.map (fun c => ⟨some reqId, c⟩) := by
    intro s' call res hcall hjobs'
    obtain ⟨-, hjobs, -⟩ := enqueueList_spec (s'.endCall s.calls.length) (some reqId) res reqId
    have hcallReq : call.workLoad.reqId = some reqId := by
      rw [hcall]
      exact hreq
    rw [Enqueuer.finish, hcallReq, hjobs]
    exact congrArg (· ++ _) hjobs'
  cases answer with
  | none =>
      have hstep2 : step fetchSize s1 (.callGo s.calls.length none) =
          some (s1.finish s.calls.length querying []) :=
        step_callGo_last fetchSize (show s1.calls = s.calls ++ [querying] from rfl) none
      refine ⟨s1.finish s.calls.length querying [], ?_, hfinish s1 querying [] rfl rfl⟩
      exact (Machine.run_cons_eq_some _).mpr ⟨s1, hstep1,
        (Machine.run_cons_eq_some _).mpr ⟨_, hstep2, rfl⟩⟩
  | some res =>
      -- the call is suspended in the query, the closing and the saving
      let closing : Call := { workLoad := asked fetchSize workLoad, stage := .closing res }
      let saving : Call := { workLoad := asked fetchSize workLoad, stage := .saving res }
      let s2 : Enqueuer := s1.callGo s.calls.length querying (some res)
      let s3 : Enqueuer := s2.callGo s.calls.length closing (some [])
      have hcalls2 : s2.calls = s.calls ++ [closing] :=
        setCall_last (show s1.calls = s.calls ++ [querying] from rfl) closing
      have hcalls3 : s3.calls = s.calls ++ [saving] := setCall_last hcalls2 saving
      have hstep2 : step fetchSize s1 (.callGo s.calls.length (some res)) = some s2 :=
        step_callGo_last fetchSize rfl (some res)
      have hstep3 : step fetchSize s2 (.callGo s.calls.length (some [])) = some s3 :=
        step_callGo_last fetchSize hcalls2 (some [])
      have hstep4 : step fetchSize s3 (.callGo s.calls.length (some [])) =
          some (s3.finish s.calls.length saving res) :=
        step_callGo_last fetchSize hcalls3 (some [])
      refine ⟨s3.finish s.calls.length saving res, ?_, hfinish s3 saving res rfl rfl⟩
      exact (Machine.run_cons_eq_some _).mpr ⟨s1, hstep1, (Machine.run_cons_eq_some _).mpr
        ⟨s2, hstep2, (Machine.run_cons_eq_some _).mpr ⟨s3, hstep3,
          (Machine.run_cons_eq_some _).mpr ⟨_, hstep4, rfl⟩⟩⟩⟩

/-- The page at the cursor of the request; a query for a country is
rejected. -/
theorem answerTo_eq (fetchSize : Nat) (t : Tables) {s : Enqueuer} {workLoad : WorkLoad}
    {reqId : Text} {q : FetchQuery} (hreq : workLoad.reqId = some reqId)
    (hq : s.fetchRequests reqId = some q) :
    answerTo fetchSize t s workLoad =
      if anywhere workLoad then
        some (entities (page (workLoad.limit.getD fetchSize)
          (t.resultSet (selectOf workLoad 0)) q.position))
      else none := by
  have hoffset : fetchOffset s.fetchRequests workLoad = some q.position := by
    simp [fetchOffset, hreq, hq, Cursor.position]
  have hjoins : (selectOf (asked fetchSize workLoad) q.position).joinsLocation =
      !anywhere workLoad := joinsLocation_selectOf (asked fetchSize workLoad) q.position
  rw [answerTo, hoffset, Option.bind_some, Tables.getMany, hjoins]
  cases anywhere workLoad <;> rfl

end Enqueuer

/-- The number of rows a selector asks for. -/
def candidates (t : Tables) (select : WorkLoad) : Nat :=
  t.joinedRows.countP (fun row => decide (Meets select row))

theorem length_resultSet (t : Tables) {select : WorkLoad} (hcountry : anywhere select = true)
    (hlevel : asksLevel select = false) :
    (t.resultSet (selectOf select 0)).length = candidates t select := by
  rw [(resultSet_perm t _).length_eq, ← List.countP_eq_length_filter]
  refine List.countP_congr ?_
  intro row _
  rw [decide_eq_true_iff]
  exact queryOf_accepts hcountry hlevel row

namespace Enqueuer

/-- **Which rounds come out empty.** Behind any history, with no batch of
the request under way, a round pushes something exactly if it asks for no
country and no level, and its cursor lies in front of the end of the rows
the selector asks for. -/
theorem round_enqueues_iff {fetchSize : Nat} {s₀ s : Enqueuer} {as : List Action}
    (hinit : Initial s₀) (hcached : (machine fetchSize).Along Cached s₀ as)
    (hrun : (machine fetchSize).run s₀ as = some s) {reqId : Text} {q : FetchQuery}
    (hq : s.fetchRequests reqId = some q) (hidle : s.running reqId = 0 ∧ s.outstanding reqId = 0)
    {workLoad : WorkLoad} (hreq : workLoad.reqId = some reqId) (t : Tables) :
    ∃ s', round fetchSize t s workLoad = some s' ∧
      (0 < s'.outstanding reqId ↔
        anywhere workLoad = true ∧ asksLevel workLoad = false ∧
          q.offset + q.size < candidates t workLoad) := by
  have hinc : q.inc = -1 := (oneBatch_of_run hinit hcached hrun hq).2.1.mpr hidle
  obtain ⟨s', hround, hjobs⟩ := round_spec fetchSize t hreq hq hinc
  refine ⟨s', hround, ?_⟩
  have hcount : s'.outstanding reqId = ((answerTo fetchSize t s workLoad).getD []).length := by
    have hnone : s.jobs.countP (fun job => job.reqId = some reqId) = 0 := hidle.2
    unfold outstanding
    rw [hjobs, List.countP_append, hnone, Nat.zero_add, List.countP_map]
    refine List.countP_eq_length.mpr ?_
    intro c _
    exact decide_eq_true rfl
  rw [hcount, List.length_pos_iff, answerTo_eq fetchSize t hreq hq]
  cases hcountry : anywhere workLoad with
  | false => simp
  | true =>
      rw [if_pos rfl, Option.getD_some, Ne, entities_eq_nil_iff, page_eq_nil_iff, Nat.not_le]
      cases hlevel : asksLevel workLoad with
      | true => simp [resultSet_of_asksLevel t hlevel]
      | false =>
          rw [length_resultSet t hcountry hlevel]
          simp [Cursor.position]

/-- One address for two rounds. -/
def twoRounds : List Action :=
  [.cacheQuery "a".toList, .doEnqueue { targetSSL := true, reqId := some "a".toList },
    .callGo 0 (some [eliteRow]), .callGo 0 (some []), .callGo 0 (some []), .jobSettled 0]

def secondRound : WorkLoad where
  targetSSL := true
  reqId := some "a".toList

theorem round_enqueues_first :
    ∃ s', round 100 oneElite (after 100 {} [.cacheQuery "a".toList]) secondRound = some s' ∧
      0 < s'.outstanding "a".toList := by
  obtain ⟨s', hround, hiff⟩ :=
    @round_enqueues_iff 100 {} (after 100 {} [.cacheQuery "a".toList]) [.cacheQuery "a".toList]
      ⟨fun _ => rfl, rfl, rfl⟩ (by decide) rfl "a".toList {} rfl (by decide) secondRound rfl
      oneElite
  exact ⟨s', hround, hiff.mpr ⟨by decide, by decide, by decide⟩⟩

/-- Behind the one page the second round finds nothing, although the
address is still there. -/
theorem not_round_enqueues_second :
    ¬ ∀ (fetchSize : Nat) (s₀ s : Enqueuer) (as : List Action) (reqId : Text) (q : FetchQuery)
        (workLoad : WorkLoad) (t : Tables) (s' : Enqueuer),
      Initial s₀ → (machine fetchSize).Along Cached s₀ as →
      (machine fetchSize).run s₀ as = some s → s.fetchRequests reqId = some q →
      s.running reqId = 0 ∧ s.outstanding reqId = 0 → workLoad.reqId = some reqId →
      anywhere workLoad = true → 0 < candidates t workLoad →
      round fetchSize t s workLoad = some s' → 0 < s'.outstanding reqId := by
  intro h
  let s : Enqueuer := after 100 {} twoRounds
  let s' : Enqueuer := after 100 s
    [.doEnqueue secondRound, .callGo 0 (some []), .callGo 0 (some []), .callGo 0 (some [])]
  have hsome := h 100 {} s twoRounds "a".toList { offset := 0, size := 1, inc := -1 } secondRound
    oneElite s' ⟨fun _ => rfl, rfl, rfl⟩ (by decide) rfl rfl (by decide) rfl rfl (by decide) rfl
  exact absurd hsome (by decide)

end Enqueuer

end ProxyFetch

end ProxyBroker.Proxy
