/-
ProxyBroker.Proxy.ReportTheorems — the rows an `exec` call returns and
the states that are stored.

Both are made from the same variants, by two pieces of code. The rows
take their protocol from a field of `JudgeResults` that nothing sets, and
they call a variant enabled that has no error, whatever its level. And
rows that come in behind the return are not in what was returned.

`report_iff` is exact: the rows are those of the stored states, up to
order, if and only if every variant of a job that succeeded came over
HTTP and has an error or a level above -1, and every such job with a
variant had settled. The run lemma behind it is `tallied_run`: what a
task has collected are the rows of the jobs that have settled.
-/
import Mathlib.Data.List.Perm.Basic
import ProxyBroker.Proxy.IdleTheorems

namespace ProxyBroker.Proxy

open Lib Server Storage

/-! ## Lists -/

/-- Of two predicates one of which implies the other, equal counts make
them agree. -/
theorem of_countP_eq {α : Type} {l : List α} {p q : α → Bool} (himp : ∀ x ∈ l, q x → p x)
    (hcount : l.countP p = l.countP q) : ∀ x ∈ l, p x → q x := by
  induction l with
  | nil =>
      intro x hx
      cases hx
  | cons y l ih =>
      have htail : ∀ x ∈ l, q x → p x := fun x hx => himp x (List.mem_cons_of_mem _ hx)
      have hle : l.countP q ≤ l.countP p := List.countP_mono_left htail
      have hhead := himp y List.mem_cons_self
      rw [List.countP_cons, List.countP_cons] at hcount
      have hpq : p y → q y := by
        intro hp
        by_contra hq
        simp only [hp, hq, if_true, if_false] at hcount
        omega
      have heq : l.countP p = l.countP q := by
        cases hp : p y <;> cases hq : q y <;> simp [hp, hq] at hcount hpq hhead <;> omega
      intro x hx
      rcases List.mem_cons.mp hx with rfl | hx
      · exact hpq
      · exact ih htail heq x hx

/-- The same for what two functions make of the items of a list. -/
theorem of_map_perm {α β : Type} {l : List α} {f g : α → β} {p : β → Bool}
    (hperm : (l.map f).Perm (l.map g)) (himp : ∀ x ∈ l, p (g x) → p (f x)) :
    ∀ x ∈ l, p (f x) → p (g x) := by
  apply of_countP_eq himp
  have hcount := hperm.countP_eq p
  rwa [List.countP_map, List.countP_map] at hcount

/-- What was collected from some of the items is all there is exactly if
the others have nothing, and both functions make the same of the rest. -/
theorem flatMap_perm_iff {ι α β : Type} [DecidableEq ι] {jobs counted : List ι} {p : ι → List α}
    {f g : α → β} (hjobs : jobs.Nodup) (hcounted : counted.Nodup) (hsub : ∀ j ∈ counted, j ∈ jobs)
    (hsame : ((jobs.flatMap p).map f).Perm ((jobs.flatMap p).map g) →
      ∀ x ∈ jobs.flatMap p, f x = g x) :
    ((counted.flatMap p).map f).Perm ((jobs.flatMap p).map g) ↔
      (∀ j ∈ jobs, j ∉ counted → p j = []) ∧ ∀ x ∈ jobs.flatMap p, f x = g x := by
  have hsplit : jobs.Perm (counted ++ jobs.filter (· ∉ counted)) := by
    refine (List.perm_ext_iff_of_nodup hjobs ?_).mpr ?_
    · refine List.nodup_append.mpr ⟨hcounted, hjobs.filter _, ?_⟩
      intro j hj i hi heq
      subst heq
      simpa [hj] using List.mem_filter.mp hi
    · intro j
      rw [List.mem_append, List.mem_filter]
      constructor
      · intro hj
        by_cases hc : j ∈ counted
        · exact .inl hc
        · exact .inr ⟨hj, by simpa using hc⟩
      · rintro (hj | hj)
        · exact hsub j hj
        · exact hj.1
  have hall : (jobs.flatMap p).Perm
      (counted.flatMap p ++ (jobs.filter (· ∉ counted)).flatMap p) := by
    rw [← List.flatMap_append]
    exact hsplit.flatMap_right p
  have hlate : (jobs.filter (· ∉ counted)).flatMap p = [] ↔
      ∀ j ∈ jobs, j ∉ counted → p j = [] := by
    simp [List.flatMap_eq_nil_iff, List.mem_filter]
  constructor
  · intro h
    have hlen := h.length_eq
    rw [List.length_map, List.length_map, hall.length_eq, List.length_append] at hlen
    have hnil : (jobs.filter (· ∉ counted)).flatMap p = [] := List.length_eq_zero_iff.mp (by omega)
    have hcount : (counted.flatMap p).Perm (jobs.flatMap p) := by
      rw [hnil, List.append_nil] at hall
      exact hall.symm
    exact ⟨hlate.mp hnil, hsame ((hcount.map f).symm.trans h)⟩
  · rintro ⟨hnil, heq⟩
    rw [hlate.mpr hnil, List.append_nil] at hall
    rw [← List.map_congr_left heq]
    exact (hall.map f).symm

/-! ## Rows and states -/

/-- How a row writes a protocol. -/
def ProtocolType.name : ProtocolType → Text
  | .http => "http".toList
  | .https => "https".toList

/-- The row of a variant with what `buildState` makes of it. -/
def storedRow (addr : Storage.IpAddr) (r : ValidateResults) (x : JudgeResult) : ProxyResult :=
  let state := (buildState addr x).1
  { protocol := state.protocolSrc.name
    ip := r.ip
    port := r.port
    enabled := state.enabled
    level := state.level
    duration := state.duration }

/-- The variants of which row and state agree. -/
def AgreesWithState (x : JudgeResult) : Prop :=
  x.protocolFrom = .http ∧ (x.hasError ∨ -1 < x.level)

instance (x : JudgeResult) : Decidable (AgreesWithState x) :=
  inferInstanceAs (Decidable (_ ∧ _))

theorem row_eq_storedRow_iff {addr : Storage.IpAddr} {r : ValidateResults} {x : JudgeResult}
    (hr : r.protocol = .http) :
    ProxyValidateTask.row r x = storedRow addr r x ↔ AgreesWithState x := by
  have hname : "http".toList = x.protocolFrom.name ↔ x.protocolFrom = .http := by
    cases x.protocolFrom <;> decide
  have henabled : (!x.hasError) = enables x ↔ x.hasError ∨ -1 < x.level := by
    unfold enables
    cases x.hasError <;> simp
  simp only [ProxyValidateTask.row, hr, if_true, storedRow, buildState, ProxyResult.mk.injEq,
    true_and, and_true, hname, henabled, AgreesWithState]

/-- A job's variants, each with the results it is part of. -/
def variantPairs (r : Option ValidateResults) : List (ValidateResults × JudgeResult) :=
  match r with
  | some r => r.variants.map (fun x => (r, x))
  | none => []

theorem rows_perm (r : ValidateResults) :
    (ProxyValidateTask.rows r).Perm
      ((variantPairs (some r)).map (fun y => ProxyValidateTask.row y.1 y.2)) := by
  have hsort : r.getVariants.Perm r.variants := List.perm_insertionSort _ _
  simpa [ProxyValidateTask.rows, variantPairs, Function.comp_def] using
    hsort.map (ProxyValidateTask.row r)

/-- If rows and states are the same up to order, they are so one by one:
a row that says HTTPS, and a row less that is enabled, would be missed. -/
theorem agrees_of_perm {addr : Storage.IpAddr} {l : List (ValidateResults × JudgeResult)}
    (hhttp : ∀ y ∈ l, y.1.protocol = .http)
    (hperm : (l.map (fun y => ProxyValidateTask.row y.1 y.2)).Perm
      (l.map (fun y => storedRow addr y.1 y.2))) :
    ∀ y ∈ l, ProxyValidateTask.row y.1 y.2 = storedRow addr y.1 y.2 := by
  have hprotocol := of_map_perm (p := fun row => row.protocol = "http".toList) hperm
    (fun y hy _ => by simp [ProxyValidateTask.row, hhttp y hy])
  have henabled := of_map_perm (p := fun row => row.enabled) hperm
    (fun y hy hen => (Bool.and_eq_true_iff.mp hen).1)
  intro y hy
  rw [row_eq_storedRow_iff (hhttp y hy)]
  constructor
  · have hname : y.2.protocolFrom.name = "http".toList :=
      of_decide_eq_true (hprotocol y hy (by simp [ProxyValidateTask.row, hhttp y hy]))
    cases hfrom : y.2.protocolFrom with
    | http => rfl
    | https =>
        rw [hfrom] at hname
        exact absurd hname (by decide)
  · cases herr : y.2.hasError with
    | true => exact .inl rfl
    | false =>
        have hen : enables y.2 = true := henabled y hy (by simp [ProxyValidateTask.row, herr])
        exact .inr (of_decide_eq_true (Bool.and_eq_true_iff.mp hen).2)

/-! ## The validator's steps and the results -/

/-- `validate` of the job has returned, and the job has not failed. -/
def JobPhase.hasResults : JobPhase → Bool
  | .storing _ | .done => true
  | _ => false

namespace ProxyValidator

theorem check_hasResults (v : ProxyValidator) (j : Nat) :
    ∃ p, (v.check j).jobs = v.jobs.set j p ∧ p.hasResults = false := by
  unfold ProxyValidator.check
  split
  · split
    · exact ⟨_, rfl, rfl⟩
    · exact ⟨_, rfl, rfl⟩
  · exact ⟨_, rfl, rfl⟩

/-- A job comes by results only when `validate` returns. -/
theorem stepJob_hasResults {options : ValidatorOptions} {v v' : ProxyValidator} {j : Nat}
    {p : JobPhase} {e : JobEvent} (hown : Tasks.isOwn (.job j e) = false)
    (h : v.stepJob options j p e = some v') :
    ∃ p', v'.jobs = v.jobs.set j p' ∧ (p'.hasResults → p.hasResults) := by
  -- a phase without results, whatever the job had
  have hno : ∀ p' : JobPhase, v'.jobs = v.jobs.set j p' → p'.hasResults = false →
      ∃ p', v'.jobs = v.jobs.set j p' ∧ (p'.hasResults → p.hasResults) := by
    intro p' hjobs hres
    refine ⟨p', hjobs, ?_⟩
    rw [hres]
    intro hr
    cases hr
  -- the branches of `stepJob` in their order
  unfold ProxyValidator.stepJob at h
  split at h
  · cases h
    exact hno _ rfl rfl
  · split at h <;> cases h
    exact hno _ rfl rfl
  · cases h
    obtain ⟨p', hjobs, hres⟩ := check_hasResults v j
    exact hno p' hjobs hres
  · split at h <;> cases h
    exact hno _ rfl rfl
  · cases h
    exact hno _ rfl rfl
  · cases h
    refine hno (if options.storage then .connecting else .failed) rfl ?_
    split <;> rfl
  · cases h
    exact hno _ rfl rfl
  · cases h
    exact hno _ rfl rfl
  · cases h
    exact hno _ rfl rfl
  · cases h
    exact hno _ rfl rfl
  · split at h <;> cases h
    exact hno _ rfl rfl
  · cases hown
  · cases h
    exact ⟨_, rfl, fun _ => rfl⟩
  · cases h
    exact hno _ rfl rfl
  · cases h

end ProxyValidator

namespace Tasks

/-! ## What is on record -/

/-- Every job has its workload, and its results when it is done. -/
structure Recorded (s : Tasks) : Prop where
  workloads : s.workloads.length = s.validator.jobs.length
  results : ∀ (j : Nat) (p : JobPhase), s.validator.jobs[j]? = some p → p.hasResults →
    (s.results j).isSome
  fields : ∀ (j : Nat) (r : ValidateResults), s.results j = some r →
    r.protocol = .http ∧ ∃ o, s.workloads[j]? = some o ∧ r.port = o.port

theorem recorded_initial : Recorded {} where
  workloads := rfl
  results := by
    intro j p hp
    cases hp
  fields := by
    intro j r hr
    cases hr

theorem Recorded.push {s : Tasks} (h : s.Recorded) (o : ProxyData) : (s.push o).Recorded where
  workloads := by simp [Tasks.push, ProxyValidator.push, h.workloads]
  results := by
    intro j p hp hres
    change (s.validator.jobs ++ [.queued])[j]? = some p at hp
    rcases Nat.lt_or_ge j s.validator.jobs.length with hlt | hge
    · rw [List.getElem?_append_left hlt] at hp
      exact h.results j p hp hres
    · rw [List.getElem?_append_right hge] at hp
      rw [List.mem_singleton.mp (List.mem_of_getElem? hp)] at hres
      cases hres
  fields := by
    intro j r hr
    obtain ⟨hhttp, w, hw, hport⟩ := h.fields j r hr
    refine ⟨hhttp, w, ?_, hport⟩
    change (s.workloads ++ [o])[j]? = some w
    rw [List.getElem?_append_left (List.getElem?_eq_some_iff.mp hw).1, hw]

/-- Steps that leave workloads and results alone. -/
theorem Recorded.of_jobs {s s' : Tasks} (h : s.Recorded)
    (hlength : s'.validator.jobs.length = s.validator.jobs.length)
    (hjobs : ∀ (j : Nat) (p' : JobPhase), s'.validator.jobs[j]? = some p' → p'.hasResults →
      ∃ p, s.validator.jobs[j]? = some p ∧ p.hasResults)
    (hworkloads : s'.workloads = s.workloads) (hresults : s'.results = s.results) :
    s'.Recorded where
  workloads := by rw [hworkloads, h.workloads, hlength]
  results := by
    intro j p' hp' hres
    obtain ⟨p, hp, hres⟩ := hjobs j p' hp' hres
    rw [hresults]
    exact h.results j p hp hres
  fields := by
    rw [hworkloads, hresults]
    exact h.fields

theorem Recorded.of_eq {s s' : Tasks} (h : s.Recorded)
    (hjobs : s'.validator.jobs = s.validator.jobs) (hworkloads : s'.workloads = s.workloads)
    (hresults : s'.results = s.results) : s'.Recorded :=
  h.of_jobs (by rw [hjobs]) (fun j p hp hres => ⟨p, hjobs ▸ hp, hres⟩) hworkloads hresults

theorem Recorded.validator {options : ValidatorOptions} {s : Tasks} {v : ProxyValidator}
    {a : ValidatorAction} (h : s.Recorded) (hown : isOwn a = false)
    (hv : s.validator.step options a = some v) : Recorded { s with validator := v } := by
  cases a with
  | push => cases hown
  | job j e =>
      obtain ⟨p, hp, hjob⟩ := Option.bind_eq_some_iff.mp hv
      obtain ⟨p', hjobs, hres⟩ := ProxyValidator.stepJob_hasResults hown hjob
      refine h.of_jobs (by simp [hjobs]) ?_ rfl rfl
      intro i q hq hqres
      change v.jobs[i]? = some q at hq
      rw [hjobs, List.getElem?_set] at hq
      split at hq
      · rename_i hji
        subst hji
        split at hq <;> cases hq
        exact ⟨p, hp, hres hqres⟩
      · exact ⟨q, hq, hqres⟩
  | onEmpty =>
      rcases ProxyValidator.step_flag hv with ⟨ha, -⟩ | ⟨j, e, p, p', ha, -⟩ | ⟨hjobs, -⟩
      · cases ha
      · cases ha
      · exact h.of_eq hjobs rfl rfl
  | empty k e =>
      rcases ProxyValidator.step_flag hv with ⟨ha, -⟩ | ⟨j, e, p, p', ha, -⟩ | ⟨hjobs, -⟩
      · cases ha
      · cases ha
      · exact h.of_eq hjobs rfl rfl

theorem Recorded.validated {options : ValidatorOptions} {s s' : Tasks} {j : Nat} {addr : Text}
    {variants : List JudgeResult} (h : s.Recorded)
    (hstep : s.validated options j addr variants = some s') : s'.Recorded := by
  obtain ⟨o, v, ho, hv, rfl⟩ := validated_cases hstep
  obtain ⟨p, hp, hjob⟩ := Option.bind_eq_some_iff.mp hv
  obtain ⟨-, p', hjobs, -⟩ := ProxyValidator.stepJob_jobs hjob
  refine ⟨by simp [hjobs, h.workloads], ?_, ?_⟩
  · intro i q hq hres
    by_cases hij : i = j
    · simp [hij]
    · change v.jobs[i]? = some q at hq
      rw [hjobs, List.getElem?_set_ne (Ne.symm hij)] at hq
      simpa [Function.update_of_ne hij] using h.results i q hq hres
  · intro i r hr
    by_cases hij : i = j
    · subst hij
      have hr' : judgeValidate addr o.port variants = r := by simpa using hr
      subst hr'
      exact ⟨rfl, o, ho, rfl⟩
    · exact h.fields i r (by simpa [Function.update_of_ne hij] using hr)

theorem Recorded.step {options : ValidatorOptions} {s s' : Tasks} {a : TaskAction}
    (h : s.Recorded) (hstep : step options s a = some s') : s'.Recorded := by
  cases a with
  | push o =>
      cases hstep
      exact h.push o
  | validator a =>
      obtain ⟨v, hv, hown, ⟨-, rfl⟩ | ⟨-, rfl⟩⟩ := stepValidator_cases hstep
      · exact h.validator hown hv
      · exact (h.validator hown hv).of_eq rfl rfl rfl
  | validated j addr variants => exact h.validated hstep
  | isEmpty =>
      cases hstep
      exact h.of_eq rfl rfl rfl
  | exec proxies =>
      cases hstep
      exact h.of_eq rfl rfl rfl
  | acquired k =>
      obtain ⟨e, -, hacq⟩ := Option.bind_eq_some_iff.mp hstep
      obtain ⟨q, rest, -, ⟨-, rfl⟩ | ⟨-, rfl⟩⟩ := acquired_cases hacq
      · exact (h.push q).of_eq rfl rfl rfl
      · exact (h.push q).of_eq rfl rfl rfl
  | settled k j =>
      obtain ⟨e, -, hset⟩ := Option.bind_eq_some_iff.mp hstep
      obtain ⟨-, rfl⟩ := settled_cases hset
      exact h.of_eq rfl rfl rfl
  | returned k =>
      obtain ⟨e, -, hret⟩ := Option.bind_eq_some_iff.mp hstep
      obtain ⟨-, -, rfl⟩ := returned_cases hret
      exact h.of_eq rfl rfl rfl

/-! ## What a task has collected -/

/-- The jobs of a task are those of its proxies, and its results are the
rows of the jobs that have settled. -/
structure Tallied (s : Tasks) (e : ProxyValidateTask) : Prop where
  nodup : e.jobs.Nodup
  proxies : e.jobs.map (s.workloads[·]?) ++ e.todo.map some = e.proxies.map some
  distinct : e.settled.Nodup
  settled : ∀ j ∈ e.settled, j ∈ e.jobs ∧ s.isOver j
  results : e.results = e.settled.flatMap s.rowsOf
  counted : e.counted <+: e.settled
  returned : ∀ rows, e.returned = some rows → rows = e.counted.flatMap s.rowsOf

/-- What the tasks rely on: jobs that are over keep their rows, and
workloads stay. -/
structure Frame (s s' : Tasks) : Prop where
  jobs : JobsLe s s'
  rows : ∀ j, s.isOver j → s'.rowsOf j = s.rowsOf j
  workloads : ∀ j < s.workloads.length, s'.workloads[j]? = s.workloads[j]?

theorem Frame.of_results {s s' : Tasks} (hjobs : JobsLe s s')
    (hresults : ∀ j, s.isOver j → s'.results j = s.results j)
    (hworkloads : ∀ j < s.workloads.length, s'.workloads[j]? = s.workloads[j]?) : Frame s s' where
  jobs := hjobs
  rows := by
    intro j hj
    obtain ⟨p, hp, hover⟩ := isOver_iff.mp hj
    simp only [rowsOf, getResult, hp, hjobs.ended j p hp hover, hresults j hj]
  workloads := hworkloads

theorem Frame.of_eq {s s' : Tasks} (hjobs : s'.validator.jobs = s.validator.jobs)
    (hworkloads : s'.workloads = s.workloads) (hresults : s'.results = s.results) : Frame s s' :=
  .of_results (jobsLe_of_eq hjobs) (fun j _ => by rw [hresults]) (fun j _ => by rw [hworkloads])

theorem Frame.congr {s s' s'' : Tasks} (h : Frame s s') (hvalidator : s''.validator = s'.validator)
    (hworkloads : s''.workloads = s'.workloads) (hresults : s''.results = s'.results) :
    Frame s s'' := by
  cases s'
  cases s''
  cases hvalidator
  cases hworkloads
  cases hresults
  exact ⟨⟨h.jobs.length, h.jobs.ended⟩, h.rows, h.workloads⟩

theorem flatMap_rowsOf {s s' : Tasks} (h : Frame s s') {js : List Nat}
    (hover : ∀ j ∈ js, s.isOver j) : js.flatMap s'.rowsOf = js.flatMap s.rowsOf := by
  induction js with
  | nil => rfl
  | cons j js ih =>
      rw [List.flatMap_cons, List.flatMap_cons, h.rows j (hover j List.mem_cons_self),
        ih (fun i hi => hover i (List.mem_cons_of_mem _ hi))]

theorem Tallied.mono {s s' : Tasks} {e : ProxyValidateTask} (h : Tallied s e) (hframe : Frame s s')
    (hjobs : ∀ j ∈ e.jobs, j < s.workloads.length) : Tallied s' e where
  nodup := h.nodup
  proxies := by
    have hsame : e.jobs.map (s'.workloads[·]?) = e.jobs.map (s.workloads[·]?) :=
      List.map_congr_left (fun j hj => hframe.workloads j (hjobs j hj))
    rw [hsame, h.proxies]
  distinct := h.distinct
  settled := fun j hj => ⟨(h.settled j hj).1, hframe.jobs.isOver (h.settled j hj).2⟩
  results := by
    rw [flatMap_rowsOf hframe (fun j hj => (h.settled j hj).2)]
    exact h.results
  counted := h.counted
  returned := by
    intro rows hret
    rw [flatMap_rowsOf hframe (fun j hj => (h.settled j (h.counted.subset hj)).2)]
    exact h.returned rows hret

/-- The invariant: the links, the records and the tallies. -/
structure Reported (s : Tasks) : Prop where
  linked : s.Linked
  recorded : s.Recorded
  tallied : ∀ e ∈ s.tasks, Tallied s e

theorem reported_initial : Reported {} where
  linked := linked_initial
  recorded := recorded_initial
  tallied := by
    intro e he
    cases he

theorem Reported.lt_workloads {s : Tasks} (h : s.Reported) {e : ProxyValidateTask}
    (he : e ∈ s.tasks) : ∀ j ∈ e.jobs, j < s.workloads.length := by
  rw [h.recorded.workloads]
  exact h.linked.jobs e he

/-- Steps that leave the tasks alone. -/
theorem Reported.tallied_of_frame {s s' : Tasks} (h : s.Reported) (hframe : Frame s s')
    (htasks : s'.tasks = s.tasks) : ∀ e ∈ s'.tasks, Tallied s' e := by
  intro e he
  rw [htasks] at he
  exact (h.tallied e he).mono hframe (h.lt_workloads he)

/-- Steps that set a task. -/
theorem Reported.tallied_setTask {s s' : Tasks} {k : Nat} {e' : ProxyValidateTask}
    (h : s.Reported) (hframe : Frame s s') (htasks : s'.tasks = s.tasks.set k e')
    (he' : Tallied s' e') : ∀ e ∈ s'.tasks, Tallied s' e := by
  intro e he
  rw [htasks] at he
  rcases List.mem_or_eq_of_mem_set he with he | rfl
  · exact (h.tallied e he).mono hframe (h.lt_workloads he)
  · exact he'

theorem frame_validator {options : ValidatorOptions} {s : Tasks} {v : ProxyValidator}
    {a : ValidatorAction} (hv : s.validator.step options a = some v) :
    Frame s { s with validator := v } :=
  .of_results (jobsLe_step hv) (fun _ _ => rfl) (fun _ _ => rfl)

theorem frame_push (s : Tasks) (o : ProxyData) : Frame s (s.push o) := by
  refine .of_results (jobsLe_append rfl) (fun _ _ => rfl) ?_
  intro j hj
  exact List.getElem?_append_left hj

theorem frame_validated {options : ValidatorOptions} {s s' : Tasks} {j : Nat} {addr : Text}
    {variants : List JudgeResult} (hstep : s.validated options j addr variants = some s') :
    Frame s s' := by
  obtain ⟨o, v, -, hv, rfl⟩ := validated_cases hstep
  have hle := jobsLe_step hv
  refine .of_results ⟨hle.length, hle.ended⟩ ?_ (fun _ _ => rfl)
  intro i hi
  -- the job that is validated is not over
  obtain ⟨p, hp, hjob⟩ := Option.bind_eq_some_iff.mp hv
  have hne : i ≠ j := by
    rintro rfl
    obtain ⟨q, hq, hover⟩ := isOver_iff.mp hi
    rw [hp] at hq
    cases hq
    rw [(ProxyValidator.stepJob_jobs hjob).1] at hover
    cases hover
  exact Function.update_of_ne hne _ _

theorem tallied_exec (s : Tasks) (proxies : List ProxyData) :
    Tallied s (if proxies.length = 0 then { returned := some [] }
      else { proxies := proxies, todo := proxies }) := by
  split
  · exact ⟨List.nodup_nil, rfl, List.nodup_nil, fun j hj => (by cases hj), rfl,
      List.prefix_rfl, fun _ hret => (Option.some.inj hret).symm⟩
  · exact ⟨List.nodup_nil, rfl, List.nodup_nil, fun j hj => (by cases hj), rfl,
      List.prefix_rfl, fun _ hret => (by cases hret)⟩

/-- A task behind its push. -/
theorem Reported.tallied_pushed {s : Tasks} (h : s.Reported) {e : ProxyValidateTask}
    (he : e ∈ s.tasks) {q : ProxyData} {rest : List ProxyData} (htodo : e.todo = q :: rest) :
    Tallied (s.push q) (s.pushed e rest) := by
  have hold := (h.tallied e he).mono (frame_push s q) (h.lt_workloads he)
  refine ⟨?_, ?_, hold.distinct, ?_, hold.results, hold.counted, hold.returned⟩
  · refine List.nodup_append.mpr ⟨hold.nodup, List.nodup_singleton _, ?_⟩
    intro j hj i hi heq
    rw [List.mem_singleton.mp hi] at heq
    exact Nat.ne_of_lt (h.linked.jobs e he j hj) heq
  · have hnew : (s.push q).workloads[s.validator.jobs.length]? = some q := by
      rw [← h.recorded.workloads]
      exact List.getElem?_concat_length
    have hproxies := hold.proxies
    rw [htodo] at hproxies
    simpa [pushed, hnew] using hproxies
  · intro j hj
    exact ⟨List.mem_append_left _ (hold.settled j hj).1, (hold.settled j hj).2⟩

theorem Tallied.settled_append {s : Tasks} {e : ProxyValidateTask} (h : Tallied s e) {j : Nat}
    (hjob : j ∈ e.jobs) (hnew : j ∉ e.settled) (hover : s.isOver j) :
    Tallied s { e with settled := e.settled ++ [j], results := e.results ++ s.rowsOf j } where
  nodup := h.nodup
  proxies := h.proxies
  distinct := by
    refine List.nodup_append.mpr ⟨h.distinct, List.nodup_singleton _, ?_⟩
    rintro i hi _ hj rfl
    rw [List.mem_singleton.mp hj] at hi
    exact hnew hi
  settled := by
    intro i hi
    rcases List.mem_append.mp hi with hi | hi
    · exact h.settled i hi
    · rw [List.mem_singleton.mp hi]
      exact ⟨hjob, hover⟩
  results := by simp [h.results]
  counted := h.counted.trans (List.prefix_append _ _)
  returned := h.returned

theorem Tallied.return {s : Tasks} {e : ProxyValidateTask} (h : Tallied s e) :
    Tallied s { e with returned := some e.results, counted := e.settled } where
  nodup := h.nodup
  proxies := h.proxies
  distinct := h.distinct
  settled := h.settled
  results := h.results
  counted := List.prefix_rfl
  returned := fun _ hret => (Option.some.inj hret).symm.trans h.results

theorem Tallied.congr {s s' : Tasks} {e : ProxyValidateTask} (h : Tallied s e)
    (hvalidator : s'.validator = s.validator) (hworkloads : s'.workloads = s.workloads)
    (hresults : s'.results = s.results) : Tallied s' e := by
  cases s
  cases s'
  cases hvalidator
  cases hworkloads
  cases hresults
  exact ⟨h.nodup, h.proxies, h.distinct, h.settled, h.results, h.counted, h.returned⟩

/-- **Step lemma**. -/
theorem Reported.step {options : ValidatorOptions} {s s' : Tasks} {a : TaskAction}
    (h : s.Reported) (hstep : step options s a = some s') : s'.Reported := by
  refine ⟨h.linked.step hstep, h.recorded.step hstep, ?_⟩
  cases a with
  | push o =>
      cases hstep
      exact h.tallied_of_frame (frame_push s o) rfl
  | validator a =>
      obtain ⟨v, hv, -, ⟨-, rfl⟩ | ⟨-, rfl⟩⟩ := stepValidator_cases hstep
      · exact h.tallied_of_frame (frame_validator hv) rfl
      · exact h.tallied_of_frame ((frame_validator hv).congr rfl rfl rfl) rfl
  | validated j addr variants =>
      have hframe := frame_validated hstep
      obtain ⟨o, v, -, -, rfl⟩ := validated_cases hstep
      exact h.tallied_of_frame hframe rfl
  | isEmpty =>
      cases hstep
      exact h.tallied_of_frame (.of_eq rfl rfl rfl) rfl
  | exec proxies =>
      cases hstep
      intro e he
      rcases List.mem_append.mp he with he | he
      · exact (h.tallied e he).congr rfl rfl rfl
      · rw [List.mem_singleton.mp he]
        exact tallied_exec _ proxies
  | acquired k =>
      obtain ⟨e, he, hacq⟩ := Option.bind_eq_some_iff.mp hstep
      have hmem := List.mem_of_getElem? he
      obtain ⟨q, rest, htodo, ⟨-, rfl⟩ | ⟨-, rfl⟩⟩ := acquired_cases hacq
      all_goals
        have hpushed := h.tallied_pushed hmem htodo
        have hframe := frame_push s q
        refine h.tallied_setTask (k := k) (hframe.congr rfl rfl rfl) rfl ?_
        exact ⟨hpushed.nodup, hpushed.proxies, hpushed.distinct, hpushed.settled, hpushed.results,
          hpushed.counted, hpushed.returned⟩
  | settled k j =>
      obtain ⟨e, he, hset⟩ := Option.bind_eq_some_iff.mp hstep
      obtain ⟨⟨hjob, hnew, hover⟩, rfl⟩ := settled_cases hset
      refine h.tallied_setTask (.of_eq rfl rfl rfl) rfl ?_
      exact ((h.tallied e (List.mem_of_getElem? he)).settled_append hjob hnew hover).congr rfl rfl
        rfl
  | returned k =>
      obtain ⟨e, he, hret⟩ := Option.bind_eq_some_iff.mp hstep
      obtain ⟨-, -, rfl⟩ := returned_cases hret
      refine h.tallied_setTask (.of_eq rfl rfl rfl) rfl ?_
      exact (h.tallied e (List.mem_of_getElem? he)).return.congr rfl rfl rfl

theorem reported_run {options : ValidatorOptions} {as : List TaskAction} {t : Tasks}
    (hrun : (machine options).run {} as = some t) : t.Reported :=
  (machine options).run_invariant (fun _ _ _ hs hstep => hs.step hstep) reported_initial hrun

/-! ## The report -/

/-- The rows storage agrees with: one per variant of a job that has
succeeded. -/
def storedRowsOf (s : Tasks) (addr : Storage.IpAddr) (j : Nat) : List ProxyResult :=
  match s.getResult j with
  | some r => r.variants.map (storedRow addr r)
  | none => []

theorem storedRowsOf_eq (s : Tasks) (addr : Storage.IpAddr) (j : Nat) :
    s.storedRowsOf addr j =
      (variantPairs (s.getResult j)).map (fun y => storedRow addr y.1 y.2) := by
  unfold storedRowsOf variantPairs
  cases s.getResult j with
  | none => rfl
  | some r => simp [Function.comp_def]

theorem rowsOf_perm (s : Tasks) (j : Nat) :
    (s.rowsOf j).Perm
      ((variantPairs (s.getResult j)).map (fun y => ProxyValidateTask.row y.1 y.2)) := by
  unfold rowsOf
  cases s.getResult j with
  | none => exact List.Perm.refl _
  | some r => exact rows_perm r

theorem mem_variantPairs {s : Tasks} {j : Nat} {y : ValidateResults × JudgeResult} :
    y ∈ variantPairs (s.getResult j) ↔ s.getResult j = some y.1 ∧ y.2 ∈ y.1.variants := by
  unfold variantPairs
  cases s.getResult j with
  | none => simp
  | some r =>
      rw [List.mem_map, Option.some.injEq]
      constructor
      · rintro ⟨x, hx, rfl⟩
        exact ⟨rfl, hx⟩
      · rintro ⟨rfl, hx⟩
        exact ⟨y.2, hx, rfl⟩

theorem variantPairs_eq_nil {s : Tasks} {j : Nat} :
    variantPairs (s.getResult j) = [] ↔ ∀ r ∈ s.getResult j, r.variants = [] := by
  unfold variantPairs
  cases s.getResult j with
  | none => simp
  | some r => simp

/-- **When the report agrees with storage.** Take a task that has
returned, in any state of any run. Its jobs are those of its proxies, in
order, and each that is done has its results. The rows it has returned
are, up to order, those of the states that `buildState` makes of the
variants of its jobs that have succeeded, if and only if every such job
with a variant had settled before the return, and every such variant came
over HTTP and has an error or a level above -1. -/
theorem report_iff (options : ValidatorOptions) {as : List TaskAction} {t : Tasks}
    (hrun : (machine options).run {} as = some t) {k : Nat} {e : ProxyValidateTask}
    (he : t.tasks[k]? = some e) {rows : List ProxyResult} (hret : e.returned = some rows)
    (addr : Storage.IpAddr) :
    e.jobs.map (t.workloads[·]?) = e.proxies.map some ∧
      (∀ j ∈ e.jobs, t.validator.jobs[j]? = some .done → ∃ r o, t.getResult j = some r ∧
        t.workloads[j]? = some o ∧ r.port = o.port) ∧
      (rows.Perm (e.jobs.flatMap (t.storedRowsOf addr)) ↔
        (∀ j ∈ e.jobs, j ∉ e.counted → ∀ r ∈ t.getResult j, r.variants = []) ∧
          ∀ j ∈ e.jobs, ∀ r ∈ t.getResult j, ∀ x ∈ r.variants, AgreesWithState x) := by
  have h := reported_run hrun
  have hmem := List.mem_of_getElem? he
  have htally := h.tallied e hmem
  refine ⟨?_, ?_, ?_⟩
  · have htodo := ((h.linked.fits e hmem).returned (by simp [hret])).1
    simpa [htodo] using htally.proxies
  · intro j _ hdone
    obtain ⟨r, hr⟩ := Option.isSome_iff_exists.mp (h.recorded.results j .done hdone rfl)
    obtain ⟨-, o, ho, hport⟩ := h.recorded.fields j r hr
    exact ⟨r, o, by simp [getResult, hdone, hr], ho, hport⟩
  · have hhttp : ∀ y ∈ e.jobs.flatMap (fun j => variantPairs (t.getResult j)),
        y.1.protocol = .http := by
      intro y hy
      obtain ⟨j, -, hj⟩ := List.mem_flatMap.mp hy
      have hget := (mem_variantPairs.mp hj).1
      unfold getResult at hget
      split at hget
      · exact (h.recorded.fields j y.1 hget).1
      · cases hget
    -- both sides as functions of the variants
    have hrows : rows.Perm ((e.counted.flatMap (fun j => variantPairs (t.getResult j))).map
        (fun y => ProxyValidateTask.row y.1 y.2)) := by
      rw [htally.returned rows hret, List.map_flatMap]
      exact List.Perm.flatMap_left _ (fun j _ => rowsOf_perm t j)
    have hstored : e.jobs.flatMap (t.storedRowsOf addr) =
        (e.jobs.flatMap (fun j => variantPairs (t.getResult j))).map
          (fun y => storedRow addr y.1 y.2) := by
      rw [List.map_flatMap]
      congr 1
      funext j
      exact storedRowsOf_eq t addr j
    have hsub : ∀ j ∈ e.counted, j ∈ e.jobs :=
      fun j hj => (htally.settled j (htally.counted.subset hj)).1
    have hexact := flatMap_perm_iff htally.nodup
      (htally.distinct.sublist htally.counted.sublist) hsub (@agrees_of_perm addr _ hhttp)
    rw [hstored, hrows.congr_left, hexact]
    refine and_congr ?_ ?_
    · simp only [variantPairs_eq_nil]
    · constructor
      · intro hall j hj r hr x hx
        have hy : (r, x) ∈ e.jobs.flatMap (fun j => variantPairs (t.getResult j)) :=
          List.mem_flatMap.mpr ⟨j, hj, mem_variantPairs.mpr ⟨hr, hx⟩⟩
        exact (row_eq_storedRow_iff (hhttp _ hy)).mp (hall _ hy)
      · intro hall y hy
        obtain ⟨j, hj, hpair⟩ := List.mem_flatMap.mp hy
        obtain ⟨hr, hx⟩ := mem_variantPairs.mp hpair
        exact (row_eq_storedRow_iff (hhttp y hy)).mpr (hall j hj y.1 hr y.2 hx)

/-- One proxy whose job leaves the variants. -/
def oneProxy (variants : List JudgeResult) : List TaskAction :=
  [.exec [someProxy], .acquired 0] ++ wholeTask 0 0 variants ++
    [.settled 0 0, .validator .onEmpty] ++ restOfEmpty 0 ++ [.returned 0]

/-- Where it leads to. -/
def reportOf (variants : List JudgeResult) : Tasks :=
  ((machine {}).run {} (oneProxy variants)).getD {}

theorem run_oneProxy {variants : List JudgeResult}
    (h : ((machine {}).run {} (oneProxy variants)).isSome) :
    (machine {}).run {} (oneProxy variants) = some (reportOf variants) :=
  (Option.getD_of_ne_none (Option.isSome_iff_ne_none.mp h) {}).symm

/-- The task at the end. -/
def oneTask (rows : List ProxyResult) : ProxyValidateTask where
  proxies := [someProxy]
  jobs := [0]
  settled := [0]
  results := rows
  call := some 0
  returned := some rows
  counted := [0]

def httpRow : ProxyResult where
  protocol := "http".toList
  ip := "10.0.0.1".toList
  port := 80
  enabled := true
  level := 1
  duration := -1

def someAddr : Storage.IpAddr := { ip := "10.0.0.1".toList, port := 80 }

theorem report_oneProxy :
    [httpRow].Perm ([0].flatMap ((reportOf [httpVariant]).storedRowsOf someAddr)) := by
  have hrun : (machine {}).run {} (oneProxy [httpVariant]) = some (reportOf [httpVariant]) :=
    run_oneProxy (by decide)
  have htask : (reportOf [httpVariant]).tasks[0]? = some (oneTask [httpRow]) := by decide
  exact (report_iff {} hrun htask rfl someAddr).2.2.mpr ⟨by decide, by decide⟩

/-- The other side of a proxy that answers on both. -/
def httpsVariant : JudgeResult := { protocolFrom := .https, protocolTo := .http, level := 1 }

/-- Its row says http. -/
theorem not_report :
    ¬ ∀ (options : ValidatorOptions) (as : List TaskAction) (t : Tasks) (k : Nat)
      (e : ProxyValidateTask) (rows : List ProxyResult) (addr : Storage.IpAddr),
      (machine options).run {} as = some t → t.tasks[k]? = some e → e.returned = some rows →
        (∀ j ∈ e.jobs, t.isOver j) → rows.Perm (e.jobs.flatMap (t.storedRowsOf addr)) := by
  intro h
  have hrun : (machine {}).run {} (oneProxy [httpVariant, httpsVariant]) =
      some (reportOf [httpVariant, httpsVariant]) := run_oneProxy (by decide)
  have htask : (reportOf [httpVariant, httpsVariant]).tasks[0]? =
      some (oneTask [httpRow, httpRow]) := by decide
  have hperm := h {} _ _ 0 _ _ someAddr hrun htask rfl (by decide)
  revert hperm
  decide

end Tasks

end ProxyBroker.Proxy
