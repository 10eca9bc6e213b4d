/-
ProxyBroker.Proxy.CandidatesTheorems — what a call of `next` is resolved
with, traced back to the tables.

`Sound` is the invariant: the rows in the hands of `doEnqueue`, of the
jobs and of the checks are rows a query has returned, and every listed
object is the entity of such a row. `Sound.step` has one case for each
step; `Sound.push` is the one in which entities come into being.

`handed_out` — in any run, what a call gets was a row of the tables when
it was fetched, met the selector of that query, and matches the selector
`parseProxyHeader` makes of the call's.
-/
import ProxyBroker.Proxy.BatchTheorems
import ProxyBroker.Proxy.Candidates
import ProxyBroker.Proxy.NextCallsTheorems

namespace ProxyBroker.Proxy.Candidates

open Lib Server ProxyFetch ProxyFetch.Enqueuer

/-! ## The steps of the parts -/

/-- The rows a `doEnqueue` call has in hand. -/
def rowsOf : Stage → List Row
  | .closing proxyList | .saving proxyList => proxyList
  | .querying _ | .failed => []

theorem finish_calls (s : Enqueuer) (i : Nat) (call : Call) (l : List Row) :
    (s.finish i call l).calls = s.calls.eraseIdx i :=
  (enqueueList_spec (s.endCall i) call.workLoad.reqId l []).1

theorem finish_jobs (s : Enqueuer) (i : Nat) (call : Call) (l : List Row) :
    (s.finish i call l).jobs = s.jobs ++ l.map (fun c => ⟨call.workLoad.reqId, c⟩) :=
  (enqueueList_spec (s.endCall i) call.workLoad.reqId l []).2.1

/-- What a `doEnqueue` call has in hand behind a step: what it had, or the
answer to its query. -/
theorem callGo_calls {s : Enqueuer} {i : Nat} {call : Call} (hcall : s.calls[i]? = some call)
    (res : Option (List Row)) {c : Call} (hc : c ∈ (s.callGo i call res).calls) {row : Row}
    (hrow : row ∈ rowsOf c.stage) :
    (∃ d ∈ s.calls, row ∈ rowsOf d.stage) ∨
      ∃ offset rows, call.stage = .querying offset ∧ res = some rows ∧ row ∈ rows := by
  have hset : ∀ stage, c ∈ s.calls.set i { call with stage := stage } →
      c ∈ s.calls ∨ c.stage = stage := by
    intro stage hmem
    rcases List.mem_or_eq_of_mem_set hmem with hold | rfl
    · exact .inl hold
    · exact .inr rfl
  have hfinish : ∀ l, c ∈ (s.finish i call l).calls → ∃ d ∈ s.calls, row ∈ rowsOf d.stage := by
    intro l hmem
    rw [finish_calls] at hmem
    exact ⟨c, (List.eraseIdx_sublist _ i).subset hmem, hrow⟩
  unfold callGo at hc
  cases hstage : call.stage with
  | querying offset =>
      cases res with
      | none =>
          rw [hstage] at hc
          exact .inl (hfinish _ hc)
      | some rows =>
          rw [hstage] at hc
          rcases hset _ hc with hold | hnew
          · exact .inl ⟨c, hold, hrow⟩
          · rw [hnew] at hrow
            exact .inr ⟨offset, rows, rfl, rfl, hrow⟩
  | failed =>
      rw [hstage] at hc
      exact .inl (hfinish _ hc)
  | closing l =>
      cases res with
      | none =>
          rw [hstage] at hc
          exact .inl (hfinish _ hc)
      | some rows =>
          rw [hstage] at hc
          rcases hset _ hc with hold | hnew
          · exact .inl ⟨c, hold, hrow⟩
          · rw [hnew] at hrow
            exact .inl ⟨call, List.mem_of_getElem? hcall, by rwa [hstage]⟩
  | saving l =>
      rw [hstage] at hc
      exact .inl (hfinish _ hc)

/-- The jobs it pushes are for rows it had in hand. -/
theorem callGo_jobs (s : Enqueuer) (i : Nat) (call : Call) (res : Option (List Row)) :
    ∃ jobs, (s.callGo i call res).jobs = s.jobs ++ jobs ∧
      ∀ job ∈ jobs, job.proxy ∈ rowsOf call.stage := by
  have hnone : ∃ jobs, (s.finish i call []).jobs = s.jobs ++ jobs ∧
      ∀ job ∈ jobs, job.proxy ∈ rowsOf call.stage := ⟨[], finish_jobs s i call [], by simp⟩
  have hsame : ∃ jobs, s.jobs = s.jobs ++ jobs ∧ ∀ job ∈ jobs, job.proxy ∈ rowsOf call.stage :=
    ⟨[], by simp, by simp⟩
  unfold callGo
  cases hstage : call.stage with
  | querying offset =>
      rw [hstage] at hnone hsame
      cases res with
      | none => exact hnone
      | some rows => exact hsame
  | failed =>
      rw [hstage] at hnone
      exact hnone
  | closing l =>
      rw [hstage] at hnone hsame
      cases res with
      | none => exact hnone
      | some rows => exact hsame
  | saving l =>
      refine ⟨_, finish_jobs s i call l, ?_⟩
      intro job hjob
      obtain ⟨row, hrow, rfl⟩ := List.mem_map.mp hjob
      exact hrow

/-- A call of `doEnqueue` begins with nothing in hand. -/
theorem doEnqueue_calls {fetchSize : Nat} {s : Enqueuer} {workLoad : WorkLoad} {c : Call}
    (hc : c ∈ (s.doEnqueue fetchSize workLoad).calls) : c ∈ s.calls ∨ rowsOf c.stage = [] := by
  have hlast : ∀ l : List Call, l = s.calls → ∀ call : Call, rowsOf call.stage = [] →
      c ∈ l ++ [call] → c ∈ s.calls ∨ rowsOf c.stage = [] := by
    rintro _ rfl call hnone hmem
    rcases List.mem_append.mp hmem with hold | hnew
    · exact .inl hold
    · rw [List.mem_singleton.mp hnew]
      exact .inr hnone
  unfold doEnqueue at hc
  split at hc
  · exact .inl hc
  · refine hlast _ ?_ _ ?_ hc
    · cases workLoad.reqId <;> rfl
    · dsimp only
      split <;> rfl

theorem doEnqueue_jobs (fetchSize : Nat) (s : Enqueuer) (workLoad : WorkLoad) :
    (s.doEnqueue fetchSize workLoad).jobs = s.jobs := by
  unfold doEnqueue
  split
  · rfl
  · cases workLoad.reqId <;> rfl

theorem jobSettled_jobs (s : Enqueuer) (i : Nat) (job : Job) :
    (s.jobSettled i job).jobs = s.jobs.eraseIdx i := by
  unfold jobSettled
  cases job.reqId with
  | none => rfl
  | some reqId =>
      dsimp only
      split <;> rfl

/-- A step of the calls keeps every object the proxy it is, and lists only
what was checked. -/
theorem calls_step {env : NextCalls.Env} {s s' : NextCalls.Calls} {a : NextCalls.Action}
    (h : NextCalls.step env s a = some s') :
    (∀ x, Rotator.SameProxy (s.rotator.heap x) (s'.rotator.heap x)) ∧
      ∀ e ∈ s'.rotator.activeList, e ∈ s.rotator.activeList ∨
        NextCalls.act s a = some (.doSucceeded e) := by
  have hrun := NextCalls.step_act h
  cases hact : NextCalls.act s a with
  | none =>
      rw [hact] at hrun
      have heq : s.rotator = s'.rotator := Option.some.inj hrun
      rw [heq]
      exact ⟨fun x => Rotator.SameProxy.refl _, fun e he => .inl he⟩
  | some b =>
      rw [hact, Option.toList_some, Machine.run_singleton] at hrun
      refine ⟨Rotator.step_identity hrun, ?_⟩
      intro e he
      by_cases hb : ∃ w, b = .doSucceeded w
      · obtain ⟨w, rfl⟩ := hb
        have heq : s.rotator.doSucceeded w = s'.rotator := Option.some.inj hrun
        rw [← heq] at he
        rcases Rotator.doSucceeded_cases s.rotator w with ⟨-, hsame⟩ | ⟨-, -, hlist, -⟩
        · rw [hsame] at he
          exact .inl he
        · rw [hlist] at he
          rcases List.mem_append.mp he with hold | hnew
          · exact .inl hold
          · rw [List.mem_singleton.mp hnew]
            exact .inr rfl
      · exact .inl ((Rotator.step_listed hrun (fun w hw => hb ⟨w, hw⟩)).subset he)

theorem act_success (s : NextCalls.Calls) (job : Job) (w : Ref) :
    NextCalls.act s (success job w) = some (.doSucceeded w) := by
  unfold success
  split <;> rfl

/-- No other step checks anything. -/
theorem act_other {s : NextCalls.Calls} {a : NextCalls.Action} (ha : isOther a = true) (e : Ref) :
    NextCalls.act s a ≠ some (.doSucceeded e) := by
  cases a with
  | rotator b => cases b <;> simp_all [isOther, NextCalls.act]
  | success reqId w => cases ha
  | _ => simp [NextCalls.act]

/-! ## New entities -/

section

variable {heap : Ref → IpAddr} {next : Ref} {jobs : List Job}

theorem allocate_of_lt {r : Ref} (h : r < next) : allocate heap next jobs r = heap r := by
  unfold allocate
  split
  · exact if_neg (Nat.not_le_of_lt h)
  · rfl

theorem allocate_new {k : Nat} {job : Job} (h : jobs[k]? = some job) :
    allocate heap next jobs (next + k) = entityOf job.proxy := by
  simp [allocate, h]

end

/-! ## The invariant -/

/-- Some query has returned the row. -/
def Returned (s : Pool) (row : Row) : Prop := ∃ q ∈ s.answered, row ∈ q.rows

/-- The object is the entity of such a row. -/
def Made (s : Pool) (e : Ref) : Prop :=
  e < s.nextRef ∧
    ∃ row, Returned s row ∧ Rotator.SameProxy (entityOf row) (s.calls.rotator.heap e)

structure Sound (s : Pool) : Prop where
  answered : ∀ q ∈ s.answered, q.tables.getMany (selectOf q.select q.offset) = some q.rows
  enqueueing : ∀ call ∈ s.enqueuer.calls, ∀ row ∈ rowsOf call.stage, Returned s row
  jobs : ∀ job ∈ s.enqueuer.jobs, Returned s job.proxy
  checks : ∀ w, some w ∈ s.checks → Made s w
  listed : ∀ e ∈ s.calls.rotator.activeList, Made s e
  placed : NextCalls.Placed [] s.calls

/-- Nothing is on its way. -/
structure Idle (s : Pool) : Prop where
  enqueueing : s.enqueuer.calls = []
  jobs : s.enqueuer.jobs = []
  checks : s.checks = []
  answered : s.answered = []
  listed : s.calls.rotator.activeList = []
  calls : s.calls = { rotator := s.calls.rotator }

section

variable {env : NextCalls.Env} {fetchSize : Nat} {s s' : Pool}

theorem Idle.sound (h : Idle s) : Sound s := by
  obtain ⟨henqueueing, hjobs, hchecks, hanswered, hlisted, hcalls⟩ := h
  refine ⟨by simp [hanswered], by simp [henqueueing], by simp [hjobs], by simp [hchecks],
    by simp [hlisted], ?_⟩
  rw [hcalls]
  exact NextCalls.placed_start _

theorem Returned.mono {row : Row} (h : Returned s row) (hanswered : s.answered ⊆ s'.answered) :
    Returned s' row := by
  obtain ⟨q, hq, hrow⟩ := h
  exact ⟨q, hanswered hq, hrow⟩

theorem Made.mono {e : Ref} (h : Made s e) (hanswered : s.answered ⊆ s'.answered)
    (hnext : s.nextRef ≤ s'.nextRef)
    (hsame : Rotator.SameProxy (s.calls.rotator.heap e) (s'.calls.rotator.heap e)) :
    Made s' e := by
  obtain ⟨hlt, row, hrow, hentity⟩ := h
  exact ⟨Nat.lt_of_lt_of_le hlt hnext, row, hrow.mono hanswered, hentity.trans hsame⟩

/-- A step of the calls, if what it lists is made of a row. -/
theorem Sound.withCalls (h : Sound s) {a : NextCalls.Action} {calls : NextCalls.Calls}
    (hstep : NextCalls.step env s.calls a = some calls)
    (ha : ∀ e, NextCalls.act s.calls a = some (.doSucceeded e) → Made s e) :
    Sound { s with calls := calls } := by
  obtain ⟨hsame, hlisted⟩ := calls_step hstep
  have hmono : ∀ e, Made s e → Made { s with calls := calls } e := fun e he =>
    he.mono (List.Subset.refl _) (Nat.le_refl _) (hsame e)
  refine ⟨h.answered, h.enqueueing, h.jobs, fun w hw => hmono w (h.checks w hw), ?_,
    h.placed.step hstep⟩
  intro e he
  rcases hlisted e he with hold | hnew
  · exact hmono e (h.listed e hold)
  · exact hmono e (ha e hnew)

/-- A query is answered. -/
theorem record_spec (s : Pool) (call : Call) {res : Option (List Row)}
    (hres : ∀ rows, res = some rows → resolved s call = some rows) :
    (∀ q ∈ record s call res, q.tables.getMany (selectOf q.select q.offset) = some q.rows) ∧
      ∀ offset rows, call.stage = .querying offset → res = some rows →
        ∃ q ∈ record s call res, q.rows = rows := by
  cases hstage : call.stage with
  | querying offset =>
      cases res with
      | none => exact ⟨by simp [record, hstage], by simp⟩
      | some rows =>
          have hquery : s.tables.getMany (selectOf call.workLoad offset) = some rows := by
            simpa [resolved, hstage] using hres rows rfl
          have hrecord : record s call (some rows) =
              [⟨s.tables, call.workLoad, offset, rows⟩] := by simp only [record, hstage]
          rw [hrecord]
          refine ⟨by simpa using hquery, ?_⟩
          intro _ rows' _ heq
          exact ⟨_, List.mem_singleton_self _, Option.some.inj heq⟩
  | _ => exact ⟨by simp [record, hstage], by simp⟩

/-- **Entities come into being**: a `doEnqueue` call goes on. -/
theorem Sound.push (h : Sound s) {i : Nat} {call : Call} (hcall : s.enqueuer.calls[i]? = some call)
    {res : Option (List Row)} (hres : ∀ rows, res = some rows → resolved s call = some rows) :
    Sound { push s (s.enqueuer.callGo i call res) with
      answered := s.answered ++ record s call res } := by
  obtain ⟨hgood, hrecorded⟩ := record_spec s call hres
  obtain ⟨new, hnew, hproxies⟩ := callGo_jobs s.enqueuer i call res
  have hdrop : (s.enqueuer.callGo i call res).jobs.drop s.enqueuer.jobs.length = new := by
    rw [hnew, List.drop_left]
  have hanswered : s.answered ⊆ s.answered ++ record s call res := List.subset_append_left _ _
  have hjobs : ∀ job ∈ new, ∃ q ∈ s.answered ++ record s call res, job.proxy ∈ q.rows := by
    intro job hjob
    obtain ⟨q, hq, hrow⟩ := h.enqueueing call (List.mem_of_getElem? hcall) _ (hproxies job hjob)
    exact ⟨q, hanswered hq, hrow⟩
  have hmono : ∀ e, Made s e → Made { Candidates.push s (s.enqueuer.callGo i call res) with
      answered := s.answered ++ record s call res } e := by
    intro e he
    refine he.mono hanswered (Nat.le_add_right _ _) ?_
    have hsame : allocate s.calls.rotator.heap s.nextRef
        ((s.enqueuer.callGo i call res).jobs.drop s.enqueuer.jobs.length) e =
          s.calls.rotator.heap e := allocate_of_lt he.1
    simp only [Candidates.push, hsame]
    exact Rotator.SameProxy.refl _
  refine ⟨?_, ?_, ?_, ?_, fun e he => hmono e (h.listed e he), h.placed.withRotator (Nat.le_refl _)⟩
  · intro q hq
    rcases List.mem_append.mp hq with hold | hlast
    · exact h.answered q hold
    · exact hgood q hlast
  · intro c hc row hrow
    rcases callGo_calls hcall res hc hrow with ⟨d, hd, hold⟩ | ⟨offset, rows, hstage, heq, hin⟩
    · obtain ⟨q, hq, hin⟩ := h.enqueueing d hd row hold
      exact ⟨q, hanswered hq, hin⟩
    · obtain ⟨q, hq, rfl⟩ := hrecorded offset rows hstage heq
      exact ⟨q, List.mem_append_right _ hq, hin⟩
  · intro job hjob
    have hmem : job ∈ s.enqueuer.jobs ++ new := by
      rw [← hnew]
      exact hjob
    rcases List.mem_append.mp hmem with hold | hlast
    · obtain ⟨q, hq, hin⟩ := h.jobs job hold
      exact ⟨q, hanswered hq, hin⟩
    · exact hjobs job hlast
  · intro w hw
    simp only [Candidates.push, hdrop] at hw
    rcases List.mem_append.mp hw with hold | hlast
    · exact hmono w (h.checks w hold)
    · obtain ⟨r, hr, heq⟩ := List.mem_map.mp hlast
      cases heq
      obtain ⟨k, hk, rfl⟩ := List.mem_range'.mp hr
      obtain ⟨job, hjob⟩ : ∃ job, new[k]? = some job := ⟨new[k], List.getElem?_eq_getElem hk⟩
      refine ⟨?_, job.proxy, hjobs job (List.mem_of_getElem? hjob), ?_⟩
      · simp only [Candidates.push, hdrop, Nat.one_mul]
        exact Nat.add_lt_add_left hk _
      · have hentity : allocate s.calls.rotator.heap s.nextRef new (s.nextRef + k) =
            entityOf job.proxy := allocate_new hjob
        simp only [Candidates.push, hdrop, Nat.one_mul, hentity]
        exact Rotator.SameProxy.refl _

/-- Other jobs and calls of `doEnqueue`, with rows that are known. -/
theorem Sound.withEnqueuer (h : Sound s) {enqueuer : Enqueuer} {checks : List (Option Ref)}
    (hcalls : ∀ c ∈ enqueuer.calls, c ∈ s.enqueuer.calls ∨ rowsOf c.stage = [])
    (hjobs : enqueuer.jobs ⊆ s.enqueuer.jobs) (hchecks : ∀ w, some w ∈ checks → some w ∈ s.checks) :
    Sound { s with enqueuer := enqueuer, checks := checks } := by
  refine ⟨h.answered, ?_, fun job hjob => h.jobs job (hjobs hjob),
    fun w hw => h.checks w (hchecks w hw), h.listed, h.placed⟩
  intro c hc row hrow
  rcases hcalls c hc with hold | hnone
  · exact h.enqueueing c hold row hrow
  · rw [hnone] at hrow
    cases hrow

/-- **Step lemma.** -/
theorem Sound.step (h : Sound s) {a : Action} (hstep : step env fetchSize s a = some s') :
    Sound s' := by
  cases a with
  | tables tables =>
      cases hstep
      exact ⟨h.answered, h.enqueueing, h.jobs, h.checks, h.listed, h.placed⟩
  | cacheQuery reqId =>
      cases hstep
      exact h.withEnqueuer (fun c hc => .inl hc) (List.Subset.refl _) (fun w hw => hw)
  | doEnqueue workLoad =>
      cases hstep
      refine h.withEnqueuer (fun c hc => doEnqueue_calls hc) ?_ (fun w hw => hw)
      rw [doEnqueue_jobs]
      exact List.Subset.refl _
  | callGo i rejected =>
      simp only [Candidates.step] at hstep
      split at hstep
      · rename_i call hcall
        cases hstep
        refine h.push hcall ?_
        intro rows hrows
        cases rejected with
        | true => cases hrows
        | false => exact hrows
      · cases hstep
  | checked i succeeded =>
      simp only [Candidates.step] at hstep
      split at hstep
      · rename_i w job hw hjob
        have hended : Sound { s with checks := s.checks.set i none } := by
          refine h.withEnqueuer (fun c hc => .inl hc) (List.Subset.refl _) ?_
          intro x hx
          rcases List.mem_or_eq_of_mem_set hx with hold | hnew
          · exact hold
          · cases hnew
        split at hstep
        · obtain ⟨calls, hcalls, rfl⟩ := Option.map_eq_some_iff.mp hstep
          refine hended.withCalls hcalls ?_
          intro e he
          rw [act_success] at he
          cases he
          exact h.checks w (List.mem_of_getElem? hw)
        · cases hstep
          exact hended
      · cases hstep
  | jobSettled i =>
      simp only [Candidates.step] at hstep
      split at hstep
      · rename_i job hw hjob
        cases hstep
        refine h.withEnqueuer ?_ ?_ ?_
        · intro c hc
          rw [(jobSettled_spec hjob []).1] at hc
          exact .inl hc
        · rw [jobSettled_jobs]
          exact (List.eraseIdx_sublist _ i).subset
        · exact fun x hx => (List.eraseIdx_sublist _ i).subset hx
      · cases hstep
  | calls a =>
      simp only [Candidates.step] at hstep
      split at hstep
      · rename_i ha
        obtain ⟨calls, hcalls, rfl⟩ := Option.map_eq_some_iff.mp hstep
        exact h.withCalls hcalls (fun e he => absurd he (act_other ha e))
      · cases hstep

/-- **What a step does to the calls**: nothing, new entities, or a step of
the calls. -/
theorem step_calls {a : Action} (h : Candidates.step env fetchSize s a = some s') :
    (s'.calls = s.calls ∧ s'.nextRef = s.nextRef) ∨
      (∃ jobs, s'.calls = { s.calls with rotator := { s.calls.rotator with
          heap := allocate s.calls.rotator.heap s.nextRef jobs } } ∧ s.nextRef ≤ s'.nextRef) ∨
        ∃ b, NextCalls.step env s.calls b = some s'.calls ∧ s'.nextRef = s.nextRef := by
  cases a with
  | tables tables =>
      cases h
      exact .inl ⟨rfl, rfl⟩
  | cacheQuery reqId =>
      cases h
      exact .inl ⟨rfl, rfl⟩
  | doEnqueue workLoad =>
      cases h
      exact .inl ⟨rfl, rfl⟩
  | callGo i rejected =>
      simp only [Candidates.step] at h
      split at h
      · cases h
        exact .inr (.inl ⟨_, rfl, Nat.le_add_right _ _⟩)
      · cases h
  | checked i succeeded =>
      simp only [Candidates.step] at h
      split at h
      · split at h
        · obtain ⟨calls, hcalls, rfl⟩ := Option.map_eq_some_iff.mp h
          exact .inr (.inr ⟨_, hcalls, rfl⟩)
        · cases h
          exact .inl ⟨rfl, rfl⟩
      · cases h
  | jobSettled i =>
      simp only [Candidates.step] at h
      split at h
      · cases h
        exact .inl ⟨rfl, rfl⟩
      · cases h
  | calls a =>
      simp only [Candidates.step] at h
      split at h
      · obtain ⟨calls, hcalls, rfl⟩ := Option.map_eq_some_iff.mp h
        exact .inr (.inr ⟨a, hcalls, rfl⟩)
      · cases h

/-- What a call is resolved with in a step of the whole. -/
theorem Sound.resolved (h : Sound s) {a : Action}
    (hstep : Candidates.step env fetchSize s a = some s') {c : Nat} {e : Ref}
    (hin : (c, some e) ∈ s'.calls.settled)
    (hnew : (c, some e) ∉ s.calls.settled) :
    ∃ select, s'.calls.asked[c]? = some select ∧ e ∈ s.calls.rotator.activeList ∧
      selectorMatches (parseProxyHeader select) (s.calls.rotator.heap e).state = true := by
  rcases step_calls hstep with ⟨hcalls, -⟩ | ⟨jobs, hcalls, -⟩ | ⟨b, hcalls, -⟩
  · rw [hcalls] at hin
    exact absurd hin hnew
  · rw [hcalls] at hin
    exact absurd hin hnew
  · obtain ⟨select, hselect, hfound⟩ := h.placed.resolved hcalls hin hnew
    have helig := List.find?_some hfound
    simp only [Rotator.eligible, Bool.and_eq_true] at helig
    exact ⟨select, hselect, (Rotator.found_spec hfound).1, helig.2⟩

theorem sound_run {s₀ : Pool} (hidle : Idle s₀) {as : List Action}
    (h : (machine env fetchSize).run s₀ as = some s) : Sound s :=
  (machine env fetchSize).run_invariant (fun _ _ _ hs hnext => hs.step hnext) hidle.sound h

theorem Sound.source (h : Sound s) {a : Action}
    (hstep : Candidates.step env fetchSize s a = some s') {c : Nat} {e : Ref}
    (hin : (c, some e) ∈ s'.calls.settled)
    (hnew : (c, some e) ∉ s.calls.settled) :
    ∃ select q row, s'.calls.asked[c]? = some select ∧ q ∈ s.answered ∧
      row ∈ q.tables.joinedRows ∧ Meets q.select row ∧
      Rotator.SameProxy (entityOf row) (s.calls.rotator.heap e) ∧
      selectorMatches (parseProxyHeader select) (entityOf row).state = true := by
  obtain ⟨select, hselect, hlisted, hmatches⟩ := h.resolved hstep hin hnew
  obtain ⟨-, row, ⟨q, hq, hrow⟩, hentity⟩ := h.listed e hlisted
  have hquery := h.answered q hq
  cases hlevel : asksLevel q.select with
  | true =>
      rw [(getMany_eq_some hquery).2, resultSet_of_asksLevel q.tables hlevel] at hrow
      simp [entities] at hrow
  | false =>
      obtain ⟨hjoined, -, hmeets⟩ := (means_of_not_asksLevel hlevel hquery).sound row hrow
      exact ⟨select, q, row, hselect, hq, hjoined, hmeets, hentity, hentity.state ▸ hmatches⟩

/-- **What is handed out.** In any run from an idle rotator, whatever else
goes on, a call of `next` is resolved only with the entity of a row that
was in the tables when a query was answered, that met the selector of that
query, and that matches the selector `parseProxyHeader` makes of the
call's. -/
theorem handed_out {s₀ : Pool} (hidle : Idle s₀) {as : List Action}
    (h : (machine env fetchSize).run s₀ as = some s) {a : Action}
    (hstep : (machine env fetchSize).step s a = some s') {c : Nat} {e : Ref}
    (hin : (c, some e) ∈ s'.calls.settled) (hnew : (c, some e) ∉ s.calls.settled) :
    ∃ select q row, s'.calls.asked[c]? = some select ∧ q ∈ s.answered ∧
      row ∈ q.tables.joinedRows ∧ Meets q.select row ∧
      Rotator.SameProxy (entityOf row) (s.calls.rotator.heap e) ∧
      selectorMatches (parseProxyHeader select) (entityOf row).state = true :=
  (sound_run hidle h).source hstep hin hnew

end

/-- One proxy, with the state of its validation. -/
def exampleTables : Tables where
  addrs := [{ id := 1, ip := "10.0.0.3".toList, port := 8080, validationId := 1 }]
  states := [{
    enabled := true, protocolSrc := .http, protocolDest := .http, addrId := 1, validationId := 1
    level := 3, start := 0, stop := 100, duration := 100
    errorCode := none, errorMessage := none, log := [] }]

def exampleStart : Pool where
  tables := exampleTables
  calls := NextCalls.empty

/-- It is fetched and checked, and then deleted from the tables. -/
def exampleRun : List Action :=
  [.doEnqueue {}, .callGo 0 false, .callGo 0 false, .callGo 0 false, .checked 0 true,
    .tables { exampleTables with addrs := [] }, .calls (.rotator (.tick 2000))]

/-- The state behind some steps; the first one if they are not possible. -/
def after (s : Pool) (as : List Action) : Pool :=
  ((machine NextCalls.exampleEnv 20).run s as).getD s

theorem handed_out_deleted :
    ∃ select q row,
      (after (after exampleStart exampleRun) [.calls (.next [] 0)]).calls.asked[0]? = some select ∧
      q ∈ (after exampleStart exampleRun).answered ∧ row ∈ q.tables.joinedRows ∧
      Meets q.select row ∧
      Rotator.SameProxy (entityOf row) ((after exampleStart exampleRun).calls.rotator.heap 0) ∧
      selectorMatches (parseProxyHeader select) (entityOf row).state = true :=
  @handed_out NextCalls.exampleEnv 20 (after exampleStart exampleRun)
    (after (after exampleStart exampleRun) [.calls (.next [] 0)]) exampleStart
    ⟨rfl, rfl, rfl, rfl, rfl, rfl⟩ exampleRun rfl (.calls (.next [] 0)) rfl 0 0
    (by decide +kernel) (by decide +kernel)

end ProxyBroker.Proxy.Candidates
