/-
ProxyBroker.Proxy.IdleTheorems — what `isEmpty` promises.

A push lowers the flag, and `onEmpty` raises it at its end, behind the
close of the connection and the stop of the judge. Jobs pushed in between
are not seen: the flag comes up over them, every waiting `isEmpty` call
resolves, and an `exec` call returns before its jobs are done.

`idle_iff` is exact: the three promises hold in every state of a run if
and only if no `onEmpty` call ends over an unfinished job. The third
follows from the others by `Linked`, which every step keeps: the
`isEmpty` call of a task knows all its jobs.
-/
import ProxyBroker.Proxy.ProxyValidateTask

namespace ProxyBroker.Proxy

open Lib Server

/-! ## The validator's steps, the jobs and the flag -/

namespace ProxyValidator

theorem check_jobs (v : ProxyValidator) (j : Nat) :
    ∃ p, (v.check j).jobs = v.jobs.set j p ∧ (v.check j).isEmpty = v.isEmpty := by
  unfold ProxyValidator.check
  split
  · split <;> exact ⟨_, rfl, rfl⟩
  · exact ⟨_, rfl, rfl⟩

theorem store_jobs (options : ValidatorOptions) (v : ProxyValidator) (j : Nat) (ok : Bool) :
    ∃ p, (v.store options j ok).jobs = v.jobs.set j p ∧
      (v.store options j ok).isEmpty = v.isEmpty := by
  unfold ProxyValidator.store
  split
  · split <;> exact ⟨_, rfl, rfl⟩
  · exact ⟨_, rfl, rfl⟩

/-- A job that is not over goes on. -/
theorem stepJob_jobs {options : ValidatorOptions} {v v' : ProxyValidator} {j : Nat} {p : JobPhase}
    {e : JobEvent} (h : v.stepJob options j p e = some v') :
    p.isOver = false ∧ ∃ p', v'.jobs = v.jobs.set j p' ∧ v'.isEmpty = v.isEmpty := by
  unfold ProxyValidator.stepJob at h
  split at h
  all_goals first | cases h | (split at h <;> cases h)
  all_goals
    refine ⟨rfl, ?_⟩
    first
      | exact check_jobs v j
      | exact store_jobs options v j _
      | exact ⟨_, rfl, rfl⟩

theorem stopJudge_flag (v : ProxyValidator) (k : Nat) :
    (v.stopJudge k).jobs = v.jobs ∧
      (v.stopJudge k).isEmpty = (v.isEmpty || !v.judge.isEnabled) := by
  unfold ProxyValidator.stopJudge
  split
  · rename_i henabled
    split <;> exact ⟨rfl, by simp [emptyGoto, henabled]⟩
  · rename_i henabled
    exact ⟨rfl, by simp [finish, emptyGoto, henabled]⟩

theorem onEmpty_flag (v : ProxyValidator) :
    v.onEmpty.jobs = v.jobs ∧ v.onEmpty.isEmpty = (v.isEmpty || Tasks.emits v .onEmpty) := by
  unfold ProxyValidator.onEmpty
  cases hc : v.connection with
  | none => simpa [hc, Tasks.emits] using stopJudge_flag { v with empties := _ } v.empties.length
  | some c => exact ⟨rfl, by simp [closeConnection, Tasks.emits, hc]⟩

theorem stepEmpty_flag {v v' : ProxyValidator} {k : Nat} {r : EmptyPhase} {e : EmptyEvent}
    (hr : v.empties[k]? = some r) (h : v.stepEmpty k r e = some v') :
    v'.jobs = v.jobs ∧ v'.isEmpty = (v.isEmpty || Tasks.emits v (.empty k e)) := by
  unfold ProxyValidator.stepEmpty at h
  split at h
  · cases h
    simpa [Tasks.emits, hr] using stopJudge_flag { v with connection := none } k
  · cases h
    exact ⟨rfl, by simp [emptyGoto, Tasks.emits]⟩
  · split at h <;> cases h
    exact ⟨rfl, by simp [emptyGoto, Tasks.emits]⟩
  · cases h
    exact ⟨rfl, by simp [emptyGoto, Tasks.emits]⟩
  · cases h
    exact ⟨rfl, by simp [finish, emptyGoto, Tasks.emits, hr]⟩
  · cases h

/-- **What a step does to the jobs and the flag**: it pushes, or moves a
job that is not over, or raises the flag at the end of `onEmpty`. -/
theorem step_flag {options : ValidatorOptions} {v v' : ProxyValidator} {a : ValidatorAction}
    (h : step options v a = some v') :
    (a = .push ∧ v' = v.push) ∨
      (∃ j e p p', a = .job j e ∧ v.jobs[j]? = some p ∧ p.isOver = false ∧
        v'.jobs = v.jobs.set j p' ∧ v'.isEmpty = v.isEmpty) ∨
      (v'.jobs = v.jobs ∧ v'.isEmpty = (v.isEmpty || Tasks.emits v a)) := by
  cases a with
  | push =>
      cases h
      exact .inl ⟨rfl, rfl⟩
  | job j e =>
      obtain ⟨p, hp, hjob⟩ := Option.bind_eq_some_iff.mp h
      obtain ⟨hover, p', hjobs, hflag⟩ := stepJob_jobs hjob
      exact .inr (.inl ⟨j, e, p, p', rfl, hp, hover, hjobs, hflag⟩)
  | onEmpty =>
      change (if v.idle then some v.onEmpty else none) = some v' at h
      split at h <;> cases h
      exact .inr (.inr (onEmpty_flag v))
  | empty k e =>
      obtain ⟨r, hr, hempty⟩ := Option.bind_eq_some_iff.mp h
      exact .inr (.inr (stepEmpty_flag hr hempty))

end ProxyValidator

namespace Tasks

/-! ## The promises -/

/-- **Idle means idle**: the flag is up only when no job is unfinished,
an `isEmpty` call that has resolved left no job behind that was pushed
before it, and an `exec` call that has returned none of its own. -/
structure Idle (s : Tasks) : Prop where
  flag : s.validator.isEmpty → s.validator.idle
  calls : ∀ c ∈ s.calls, c.resolved → ∀ j < c.pushed, s.isOver j
  tasks : ∀ e ∈ s.tasks, e.returned.isSome → ∀ j ∈ e.jobs, s.isOver j

/-- The step ends an `onEmpty` call. -/
def ends (s : Tasks) : TaskAction → Bool
  | .validator a => emits s.validator a
  | _ => false

/-- If the step ends an `onEmpty` call, no job is queued or running. -/
def EndsIdle (s : Tasks) (a : TaskAction) : Prop := s.ends a → s.validator.idle

instance (s : Tasks) (a : TaskAction) : Decidable (s.EndsIdle a) :=
  inferInstanceAs (Decidable (_ → _))

/-! ## The invariant -/

/-- An `exec` call and the calls of `isEmpty`. -/
structure Fits (calls : List EmptyCall) (e : ProxyValidateTask) : Prop where
  called : ∀ c ∈ e.call, ∃ w, calls[c]? = some w ∧ ∀ j ∈ e.jobs, j < w.pushed
  finished : e.call.isSome → e.todo = []
  returned : e.returned.isSome → e.todo = [] ∧ (e.jobs = [] ∨
    ∃ c ∈ e.call, ∃ w, calls[c]? = some w ∧ w.resolved)

structure Linked (s : Tasks) : Prop where
  pushed : ∀ c ∈ s.calls, c.pushed ≤ s.validator.jobs.length
  jobs : ∀ e ∈ s.tasks, ∀ j ∈ e.jobs, j < s.validator.jobs.length
  fits : ∀ e ∈ s.tasks, Fits s.calls e

theorem isOver_iff {s : Tasks} {j : Nat} :
    s.isOver j ↔ ∃ p, s.validator.jobs[j]? = some p ∧ p.isOver := by
  simp [isOver, Option.any_eq_true]

theorem idle_iff_isOver {s : Tasks} :
    s.validator.idle ↔ ∀ j < s.validator.jobs.length, s.isOver j := by
  unfold ProxyValidator.idle isOver
  rw [List.all_eq_true, List.forall_mem_iff_forall_getElem]
  constructor
  · intro h j hj
    simpa [List.getElem?_eq_getElem hj] using h j hj
  · intro h j hj
    simpa [List.getElem?_eq_getElem hj] using h j hj

/-! ## What only grows -/

/-- Calls stay in place, and stay resolved. -/
def CallsLe (calls calls' : List EmptyCall) : Prop :=
  ∀ (c : Nat) (w : EmptyCall), calls[c]? = some w →
    ∃ w' : EmptyCall, calls'[c]? = some w' ∧ w'.pushed = w.pushed ∧ (w.resolved → w'.resolved)

theorem callsLe_append (calls : List EmptyCall) (c : EmptyCall) : CallsLe calls (calls ++ [c]) := by
  intro i w hw
  refine ⟨w, ?_, rfl, id⟩
  rw [List.getElem?_append_left (List.getElem?_eq_some_iff.mp hw).1, hw]

theorem callsLe_resolve (calls : List EmptyCall) :
    CallsLe calls (calls.map (fun c => { c with resolved := true })) := by
  intro i w hw
  exact ⟨{ w with resolved := true }, by simp [hw], rfl, fun _ => rfl⟩

theorem Fits.mono {calls calls' : List EmptyCall} {e : ProxyValidateTask} (h : Fits calls e)
    (hle : CallsLe calls calls') : Fits calls' e where
  called := by
    intro c hc
    obtain ⟨w, hw, hlt⟩ := h.called c hc
    obtain ⟨w', hw', hpushed, -⟩ := hle c w hw
    exact ⟨w', hw', fun j hj => hpushed ▸ hlt j hj⟩
  finished := h.finished
  returned := by
    intro hret
    obtain ⟨htodo, hnone | ⟨c, hc, w, hw, hres⟩⟩ := h.returned hret
    · exact ⟨htodo, .inl hnone⟩
    · obtain ⟨w', hw', -, hres'⟩ := hle c w hw
      exact ⟨htodo, .inr ⟨c, hc, w', hw', hres' hres⟩⟩

/-- What is over stays as it is, and no job disappears. -/
structure JobsLe (s s' : Tasks) : Prop where
  length : s.validator.jobs.length ≤ s'.validator.jobs.length
  ended : ∀ (j : Nat) (p : JobPhase), s.validator.jobs[j]? = some p → p.isOver →
    s'.validator.jobs[j]? = some p

theorem JobsLe.isOver {s s' : Tasks} (h : JobsLe s s') {j : Nat} (hj : s.isOver j) :
    s'.isOver j := by
  obtain ⟨p, hp, hover⟩ := isOver_iff.mp hj
  exact isOver_iff.mpr ⟨p, h.ended j p hp hover, hover⟩

/-- A push. -/
theorem jobsLe_append {s s' : Tasks} {q : JobPhase}
    (h : s'.validator.jobs = s.validator.jobs ++ [q]) : JobsLe s s' where
  length := by simp [h]
  ended := by
    intro j p hp _
    rw [h, List.getElem?_append_left (List.getElem?_eq_some_iff.mp hp).1, hp]

/-- A step of a job that is not over. -/
theorem jobsLe_set {s s' : Tasks} {j : Nat} {p p' : JobPhase}
    (hp : s.validator.jobs[j]? = some p) (hover : p.isOver = false)
    (h : s'.validator.jobs = s.validator.jobs.set j p') : JobsLe s s' where
  length := by simp [h]
  ended := by
    intro i q hq hqover
    have hne : j ≠ i := by
      rintro rfl
      rw [hp] at hq
      cases hq
      rw [hover] at hqover
      cases hqover
    rw [h, List.getElem?_set_ne hne, hq]

theorem jobsLe_of_eq {s s' : Tasks} (h : s'.validator.jobs = s.validator.jobs) : JobsLe s s' where
  length := by simp [h]
  ended := by
    intro j p hp _
    rw [h, hp]

/-! ## Tasks and their calls -/

theorem linked_initial : Linked {} := by
  refine ⟨?_, ?_, ?_⟩
  · intro c hc
    cases hc
  · intro e he
    cases he
  · intro e he
    cases he

theorem Linked.mono {s s' : Tasks} (h : s.Linked) (hjobs : JobsLe s s')
    (hcalls : s'.calls = s.calls) (htasks : s'.tasks = s.tasks) : s'.Linked := by
  refine ⟨?_, ?_, ?_⟩
  · intro c hc
    rw [hcalls] at hc
    exact Nat.le_trans (h.pushed c hc) hjobs.length
  · intro e he j hj
    rw [htasks] at he
    exact Nat.lt_of_lt_of_le (h.jobs e he j hj) hjobs.length
  · intro e he
    rw [htasks] at he
    rw [hcalls]
    exact h.fits e he

theorem Linked.push {s : Tasks} (h : s.Linked) (o : ProxyData) : (s.push o).Linked :=
  h.mono (jobsLe_append rfl) rfl rfl

theorem Linked.emptyFinished {s : Tasks} (h : s.Linked) : s.emptyFinished.Linked := by
  refine ⟨?_, h.jobs, ?_⟩
  · intro c hc
    obtain ⟨w, hw, rfl⟩ := List.mem_map.mp hc
    exact h.pushed w hw
  · intro e he
    exact (h.fits e he).mono (callsLe_resolve s.calls)

theorem Linked.isEmpty {s : Tasks} (h : s.Linked) : s.isEmpty.Linked := by
  refine ⟨?_, h.jobs, ?_⟩
  · intro c hc
    rcases List.mem_append.mp hc with hc | hc
    · exact h.pushed c hc
    · rw [List.mem_singleton.mp hc]
      exact Nat.le_refl _
  · intro e he
    exact (h.fits e he).mono (callsLe_append s.calls _)

theorem Linked.setTask {s : Tasks} (h : s.Linked) {k : Nat} {e : ProxyValidateTask}
    (hjobs : ∀ j ∈ e.jobs, j < s.validator.jobs.length) (hfits : Fits s.calls e) :
    (s.setTask k e).Linked := by
  refine ⟨h.pushed, ?_, ?_⟩
  · intro e' he'
    rcases List.mem_or_eq_of_mem_set he' with he' | rfl
    · exact h.jobs e' he'
    · exact hjobs
  · intro e' he'
    rcases List.mem_or_eq_of_mem_set he' with he' | rfl
    · exact h.fits e' he'
    · exact hfits

theorem Linked.exec {s : Tasks} (h : s.Linked) (proxies : List ProxyData) :
    (s.exec proxies).Linked := by
  refine ⟨h.pushed, ?_, ?_⟩
  · intro e he j hj
    rcases List.mem_append.mp he with he | he
    · exact h.jobs e he j hj
    · rw [List.mem_singleton.mp he] at hj
      split at hj <;> cases hj
  · intro e he
    rcases List.mem_append.mp he with he | he
    · exact h.fits e he
    · rw [List.mem_singleton.mp he]
      split
      · exact ⟨fun c hc => (by cases hc), fun hc => (by cases hc), fun _ => ⟨rfl, .inl rfl⟩⟩
      · exact ⟨fun c hc => (by cases hc), fun hc => (by cases hc), fun hr => (by cases hr)⟩

/-- **What a step of the validator is here**: the jobs and the flag, and
the event if an `onEmpty` call ends. -/
theorem stepValidator_cases {options : ValidatorOptions} {s s' : Tasks} {a : ValidatorAction}
    (hstep : s.stepValidator options a = some s') :
    ∃ v, s.validator.step options a = some v ∧ isOwn a = false ∧
      (emits s.validator a = false ∧ s' = { s with validator := v } ∨
        emits s.validator a = true ∧ s' = emptyFinished { s with validator := v }) := by
  unfold stepValidator at hstep
  split at hstep
  · cases hstep
  · rename_i hown
    obtain ⟨v, hv, rfl⟩ := Option.map_eq_some_iff.mp hstep
    refine ⟨v, hv, by simpa using hown, ?_⟩
    cases emits s.validator a
    · exact .inl ⟨rfl, rfl⟩
    · exact .inr ⟨rfl, rfl⟩

/-- Its jobs only go on. -/
theorem jobsLe_step {options : ValidatorOptions} {s : Tasks} {v : ProxyValidator}
    {a : ValidatorAction} (hv : s.validator.step options a = some v) :
    JobsLe s { s with validator := v } := by
  rcases ProxyValidator.step_flag hv with ⟨rfl, rfl⟩ | ⟨j, e, p, p', -, hp, hover, hjobs, -⟩ |
    ⟨hjobs, -⟩
  · exact jobsLe_append rfl
  · exact jobsLe_set hp hover hjobs
  · exact jobsLe_of_eq hjobs

theorem Linked.stepValidator {options : ValidatorOptions} {s s' : Tasks} {a : ValidatorAction}
    (h : s.Linked) (hstep : s.stepValidator options a = some s') : s'.Linked := by
  obtain ⟨v, hv, -, ⟨-, rfl⟩ | ⟨-, rfl⟩⟩ := stepValidator_cases hstep
  · exact h.mono (jobsLe_step hv) rfl rfl
  · exact (h.mono (jobsLe_step hv) rfl rfl).emptyFinished

/-- **What the end of a validation is here**. -/
theorem validated_cases {options : ValidatorOptions} {s s' : Tasks} {j : Nat} {addr : Text}
    {variants : List JudgeResult} (hstep : s.validated options j addr variants = some s') :
    ∃ o v, s.workloads[j]? = some o ∧
      s.validator.step options
        (.job j (.validated (hasSuccess (judgeValidate addr o.port variants)))) = some v ∧
      s' = { s with
        validator := v
        results := Function.update s.results j (some (judgeValidate addr o.port variants)) } := by
  obtain ⟨o, ho, hmap⟩ := Option.bind_eq_some_iff.mp hstep
  obtain ⟨v, hv, rfl⟩ := Option.map_eq_some_iff.mp hmap
  exact ⟨o, v, ho, hv, rfl⟩

theorem Linked.validated {options : ValidatorOptions} {s s' : Tasks} {j : Nat} {addr : Text}
    {variants : List JudgeResult} (h : s.Linked)
    (hstep : s.validated options j addr variants = some s') : s'.Linked := by
  obtain ⟨o, v, -, hv, rfl⟩ := validated_cases hstep
  have hle := jobsLe_step hv
  exact h.mono ⟨hle.length, hle.ended⟩ rfl rfl

/-- The task behind a push. -/
def pushed (s : Tasks) (e : ProxyValidateTask) (rest : List ProxyData) : ProxyValidateTask :=
  { e with todo := rest, jobs := e.jobs ++ [s.validator.jobs.length] }

/-- **What a permit leads to**: a push, with the call of `isEmpty` right
behind it if it was the last. -/
theorem acquired_cases {s s' : Tasks} {k : Nat} {e : ProxyValidateTask}
    (hstep : s.acquired k e = some s') :
    ∃ q rest, e.todo = q :: rest ∧
      (rest = [] ∧ s' = (s.push q).isEmpty.setTask k
          { s.pushed e rest with call := some (s.push q).calls.length } ∨
        rest ≠ [] ∧ s' = (s.push q).setTask k (s.pushed e rest)) := by
  unfold Tasks.acquired at hstep
  split at hstep
  · cases hstep
  · rename_i q rest htodo
    split at hstep
    · refine ⟨q, rest, htodo, ?_⟩
      dsimp only at hstep
      split at hstep
      · rename_i hrest
        cases hstep
        exact .inl ⟨hrest, rfl⟩
      · rename_i hrest
        cases hstep
        exact .inr ⟨hrest, rfl⟩
    · cases hstep

/-- The last push of an `exec` call is followed by its call of `isEmpty`,
which so knows all its jobs. -/
theorem Linked.acquired {s s' : Tasks} {k : Nat} {e : ProxyValidateTask} (h : s.Linked)
    (he : s.tasks[k]? = some e) (hstep : s.acquired k e = some s') : s'.Linked := by
  have hmem := List.mem_of_getElem? he
  have hfits := h.fits e hmem
  obtain ⟨q, rest, htodo, hlast⟩ := acquired_cases hstep
  have hopen : e.todo ≠ [] := by simp [htodo]
  have hcall : ¬ e.call.isSome := fun hc => hopen (hfits.finished hc)
  have hreturned : ¬ e.returned.isSome := fun hret => hopen (hfits.returned hret).1
  have hlen : (s.push q).validator.jobs.length = s.validator.jobs.length + 1 := by
    simp [Tasks.push, ProxyValidator.push]
  have hjobs : ∀ j ∈ e.jobs ++ [s.validator.jobs.length],
      j < (s.push q).validator.jobs.length := by
    intro j hj
    rw [hlen]
    rcases List.mem_append.mp hj with hj | hj
    · exact Nat.lt_succ_of_lt (h.jobs e hmem j hj)
    · rw [List.mem_singleton.mp hj]
      exact Nat.lt_succ_self _
  rcases hlast with ⟨hrest, rfl⟩ | ⟨hrest, rfl⟩
  · refine (h.push q).isEmpty.setTask hjobs
      ⟨?_, fun _ => hrest, fun hret => absurd hret hreturned⟩
    intro c hc
    cases hc
    exact ⟨_, List.getElem?_concat_length, hjobs⟩
  · refine (h.push q).setTask hjobs
      ⟨?_, fun hc => absurd hc hcall, fun hret => absurd hret hreturned⟩
    intro c hc
    exact absurd (Option.isSome_of_mem hc) hcall

/-- **What a settled job leads to**. -/
theorem settled_cases {s s' : Tasks} {k j : Nat} {e : ProxyValidateTask}
    (hstep : s.settled k j e = some s') :
    (j ∈ e.jobs ∧ j ∉ e.settled ∧ s.isOver j) ∧
      s' = s.setTask k
        { e with settled := e.settled ++ [j], results := e.results ++ s.rowsOf j } := by
  unfold Tasks.settled at hstep
  split at hstep
  · rename_i hcond
    exact ⟨hcond, (Option.some.inj hstep).symm⟩
  · cases hstep

theorem Linked.settled {s s' : Tasks} {k j : Nat} {e : ProxyValidateTask} (h : s.Linked)
    (he : s.tasks[k]? = some e) (hstep : s.settled k j e = some s') : s'.Linked := by
  have hmem := List.mem_of_getElem? he
  have hfits := h.fits e hmem
  obtain ⟨-, rfl⟩ := settled_cases hstep
  exact h.setTask (h.jobs e hmem) ⟨hfits.called, hfits.finished, hfits.returned⟩

/-- **What a resolved call leads to**. -/
theorem returned_cases {s s' : Tasks} {k : Nat} {e : ProxyValidateTask}
    (hstep : s.returned k e = some s') :
    e.returned = none ∧ (∃ c ∈ e.call, ∃ w, s.calls[c]? = some w ∧ w.resolved) ∧
      s' = s.setTask k { e with returned := some e.results, counted := e.settled } := by
  unfold Tasks.returned at hstep
  split at hstep
  · rename_i hcond
    obtain ⟨w, hw, hres⟩ := (Option.any_eq_true _ _).mp hcond.2
    obtain ⟨c, hc, hcw⟩ := Option.bind_eq_some_iff.mp hw
    exact ⟨hcond.1, ⟨c, hc, w, hcw, hres⟩, (Option.some.inj hstep).symm⟩
  · cases hstep

theorem Linked.returned {s s' : Tasks} {k : Nat} {e : ProxyValidateTask} (h : s.Linked)
    (he : s.tasks[k]? = some e) (hstep : s.returned k e = some s') : s'.Linked := by
  have hmem := List.mem_of_getElem? he
  have hfits := h.fits e hmem
  obtain ⟨-, ⟨c, hc, w, hw, hres⟩, rfl⟩ := returned_cases hstep
  refine h.setTask (h.jobs e hmem) ⟨hfits.called, hfits.finished, fun _ => ⟨?_, ?_⟩⟩
  · exact hfits.finished (Option.isSome_of_mem hc)
  · exact .inr ⟨c, hc, w, hw, hres⟩

/-- **Step lemma** for the links: every step keeps them. -/
theorem Linked.step {options : ValidatorOptions} {s s' : Tasks} {a : TaskAction} (h : s.Linked)
    (hstep : step options s a = some s') : s'.Linked := by
  cases a with
  | push o =>
      cases hstep
      exact h.push o
  | validator a => exact h.stepValidator hstep
  | validated j addr variants => exact h.validated hstep
  | isEmpty =>
      cases hstep
      exact h.isEmpty
  | exec proxies =>
      cases hstep
      exact h.exec proxies
  | acquired k =>
      obtain ⟨e, he, hstep⟩ := Option.bind_eq_some_iff.mp hstep
      exact h.acquired he hstep
  | settled k j =>
      obtain ⟨e, he, hstep⟩ := Option.bind_eq_some_iff.mp hstep
      exact h.settled he hstep
  | returned k =>
      obtain ⟨e, he, hstep⟩ := Option.bind_eq_some_iff.mp hstep
      exact h.returned he hstep

/-! ## The flag and the calls -/

/-- The first two promises. -/
structure Promised (s : Tasks) : Prop where
  flag : s.validator.isEmpty → s.validator.idle
  calls : ∀ c ∈ s.calls, c.resolved → ∀ j < c.pushed, s.isOver j

theorem promised_initial : Promised {} where
  flag := fun _ => rfl
  calls := by
    intro c hc
    cases hc

/-- The third follows: a task returns after a call of its own that knows
its jobs. -/
theorem Promised.idle {s : Tasks} (h : s.Promised) (hlinked : s.Linked) : s.Idle where
  flag := h.flag
  calls := h.calls
  tasks := by
    intro e he hret j hj
    obtain ⟨-, hnone | ⟨c, hc, w, hw, hres⟩⟩ := (hlinked.fits e he).returned hret
    · rw [hnone] at hj
      cases hj
    · obtain ⟨w', hw', hlt⟩ := (hlinked.fits e he).called c hc
      rw [hw] at hw'
      cases hw'
      exact h.calls w (List.mem_of_getElem? hw) hres j (hlt j hj)

theorem Promised.mono {s s' : Tasks} (h : s.Promised) (hjobs : JobsLe s s')
    (hcalls : s'.calls = s.calls) (hflag : s'.validator.isEmpty → s'.validator.idle) :
    s'.Promised where
  flag := hflag
  calls := by
    intro c hc hres j hj
    rw [hcalls] at hc
    exact hjobs.isOver (h.calls c hc hres j hj)

theorem Promised.push {s : Tasks} (h : s.Promised) (o : ProxyData) : (s.push o).Promised :=
  h.mono (jobsLe_append rfl) rfl (fun hflag => by cases hflag)

theorem Promised.isEmpty {s : Tasks} (h : s.Promised) : s.isEmpty.Promised where
  flag := h.flag
  calls := by
    intro c hc hres j hj
    rcases List.mem_append.mp hc with hc | hc
    · exact h.calls c hc hres j hj
    · rw [List.mem_singleton.mp hc] at hres hj
      exact idle_iff_isOver.mp (h.flag hres) j hj

theorem Promised.emptyFinished {s : Tasks} (h : s.Promised) (hlinked : s.Linked)
    (hidle : s.validator.idle) : s.emptyFinished.Promised where
  flag := h.flag
  calls := by
    intro c hc _ j hj
    obtain ⟨w, hw, rfl⟩ := List.mem_map.mp hc
    exact idle_iff_isOver.mp hidle j (Nat.lt_of_lt_of_le hj (hlinked.pushed w hw))

/-- The validator's part of a step. -/
theorem Promised.validator {options : ValidatorOptions} {s : Tasks} {v : ProxyValidator}
    {a : ValidatorAction} (h : s.Promised) (hok : emits s.validator a → s.validator.idle)
    (hv : s.validator.step options a = some v) : Promised { s with validator := v } := by
  refine h.mono (jobsLe_step hv) rfl ?_
  intro hup
  change v.isEmpty = true at hup
  rcases ProxyValidator.step_flag hv with ⟨-, rfl⟩ | ⟨j, e, p, p', -, hp, hover, -, hflag⟩ |
    ⟨hjobs, hflag⟩
  · cases hup
  · -- the flag was up before, over a job that is not over
    rw [hflag] at hup
    have hall := List.all_eq_true.mp (h.flag hup) p (List.mem_of_getElem? hp)
    rw [hover] at hall
    cases hall
  · rw [hflag, Bool.or_eq_true] at hup
    have hidle : s.validator.idle := hup.elim h.flag hok
    simpa [ProxyValidator.idle, hjobs] using hidle

theorem idle_of_emits {options : ValidatorOptions} {v v' : ProxyValidator} {a : ValidatorAction}
    (hv : v.step options a = some v') (hemits : emits v a = true) : v'.idle = v.idle := by
  rcases ProxyValidator.step_flag hv with ⟨rfl, -⟩ | ⟨j, e, p, p', rfl, -, -, -, -⟩ | ⟨hjobs, -⟩
  · cases hemits
  · cases hemits
  · unfold ProxyValidator.idle
    rw [hjobs]

/-- **Step lemma** for the promises. -/
theorem Promised.step {options : ValidatorOptions} {s s' : Tasks} {a : TaskAction}
    (h : s.Promised) (hlinked : s.Linked) (hok : s.EndsIdle a)
    (hstep : step options s a = some s') : s'.Promised := by
  cases a with
  | push o =>
      cases hstep
      exact h.push o
  | validator a =>
      obtain ⟨v, hv, -, ⟨-, rfl⟩ | ⟨hemits, rfl⟩⟩ := stepValidator_cases hstep
      · exact h.validator hok hv
      · refine (h.validator hok hv).emptyFinished (hlinked.mono (jobsLe_step hv) rfl rfl) ?_
        rw [idle_of_emits hv hemits]
        exact hok hemits
  | validated j addr variants =>
      obtain ⟨o, v, -, hv, rfl⟩ := validated_cases hstep
      have hnext := h.validator (fun hemits => by cases hemits) hv
      exact ⟨hnext.flag, hnext.calls⟩
  | isEmpty =>
      cases hstep
      exact h.isEmpty
  | exec proxies =>
      cases hstep
      exact ⟨h.flag, h.calls⟩
  | acquired k =>
      obtain ⟨e, -, hacq⟩ := Option.bind_eq_some_iff.mp hstep
      obtain ⟨q, rest, -, ⟨-, rfl⟩ | ⟨-, rfl⟩⟩ := acquired_cases hacq
      · exact ⟨(h.push q).isEmpty.flag, (h.push q).isEmpty.calls⟩
      · exact ⟨(h.push q).flag, (h.push q).calls⟩
  | settled k j =>
      obtain ⟨e, -, hset⟩ := Option.bind_eq_some_iff.mp hstep
      obtain ⟨-, rfl⟩ := settled_cases hset
      exact ⟨h.flag, h.calls⟩
  | returned k =>
      obtain ⟨e, -, hret⟩ := Option.bind_eq_some_iff.mp hstep
      obtain ⟨-, -, rfl⟩ := returned_cases hret
      exact ⟨h.flag, h.calls⟩

/-- An `onEmpty` call that ends over an unfinished job raises the flag
over it. -/
theorem endsIdle_of_idle {options : ValidatorOptions} {s s' : Tasks} {a : TaskAction}
    (h : s'.Idle) (hstep : step options s a = some s') : s.EndsIdle a := by
  intro hends
  cases a with
  | validator a =>
      have hemits : emits s.validator a = true := hends
      obtain ⟨v, hv, -, ⟨hquiet, -⟩ | ⟨-, rfl⟩⟩ := stepValidator_cases hstep
      · rw [hemits] at hquiet
        cases hquiet
      · rw [← idle_of_emits hv hemits]
        apply h.flag
        rcases ProxyValidator.step_flag hv with ⟨rfl, -⟩ | ⟨j, e, p, p', rfl, -, -, -, -⟩ |
          ⟨-, hup⟩
        · cases hemits
        · cases hemits
        · simp [Tasks.emptyFinished, hup, hemits]
  | _ => cases hends

/-- **When idle means idle.** In every state of a run the flag, the
`isEmpty` calls and the `exec` calls keep their promise if and only if
every `onEmpty` call of the run ends while no job is queued or running. -/
theorem idle_iff (options : ValidatorOptions) {as : List TaskAction} {t : Tasks}
    (hrun : (machine options).run {} as = some t) :
    (machine options).Always Idle {} as ↔ (machine options).Along EndsIdle {} as := by
  have hkeep : ∀ s a s', s.Promised ∧ s.Linked → True → s.EndsIdle a →
      step options s a = some s' → s'.Promised ∧ s'.Linked := by
    intro s a s' hs _ hok hstep
    exact ⟨hs.1.step hs.2 hok hstep, hs.2.step hstep⟩
  exact (machine options).always_iff_along_of_inv hkeep (fun _ hs => hs.1.idle hs.2)
    (fun _ _ _ _ _ hstep hidle => endsIdle_of_idle hidle hstep)
    ⟨promised_initial, linked_initial⟩ (machine options).along_true hrun

/-- A job from its start to the end of `store`; its requests are `id` and
the next three. -/
def wholeTask (j id : Nat) (variants : List JudgeResult) : List TaskAction :=
  [.validator (.job j .start), .validator (.job j .progressed), .validator (.job j .checked),
    .validator (.job j .acquired), .validator (.job j .settled), .validator (.job j .resumed),
    .validator (.job j .connected), .validator (.job j .lookedUp),
    .validator (.job j (.answered id)), .validator (.job j (.answered (id + 1))),
    .validator (.job j (.answered (id + 2))), .validator (.job j (.answered (id + 3))),
    .validated j "10.0.0.1".toList variants, .validator (.job j .stored)]

/-- An `onEmpty` call from its close to its end. -/
def restOfEmpty (k : Nat) : List TaskAction :=
  [.validator (.empty k .closed), .validator (.empty k .acquired), .validator (.empty k .settled),
    .validator (.empty k .resumed)]

def someProxy : ProxyData := { ip := "10.0.0.1".toList, port := 80 }

def httpVariant : JudgeResult := { protocolFrom := .http, protocolTo := .http, level := 1 }

/-- One proxy, and an `onEmpty` call that is over before the next push. -/
def calmTask : List TaskAction :=
  [.exec [someProxy], .acquired 0] ++ wholeTask 0 0 [httpVariant] ++
    [.settled 0 0, .validator .onEmpty] ++ restOfEmpty 0 ++ [.returned 0, .push someProxy, .isEmpty]

theorem idle_calmTask : (machine {}).Always Idle {} calmTask := by
  have hrun : ((machine {}).run {} calmTask).isSome = true := by decide
  exact (idle_iff {} (Option.some_get hrun).symm).mpr (by decide)

/-- The push of an `exec` call comes while `onEmpty` closes the
connection. -/
def lateTask : List TaskAction :=
  [.push someProxy] ++ wholeTask 0 0 [httpVariant] ++
    [.validator .onEmpty, .exec [someProxy], .acquired 0] ++ restOfEmpty 0 ++ [.returned 0]

/-- The flag is up, `isEmpty` has resolved and `exec` has returned, while
the job is still queued. -/
theorem not_idle :
    ¬ ∀ options as t, (machine options).run {} as = some t → t.Idle := by
  intro h
  have hrun : ((machine {}).run {} lateTask).isSome = true := by decide
  have hflag : ∀ hsome, (((machine {}).run {} lateTask).get hsome).validator.isEmpty = true ∧
      (((machine {}).run {} lateTask).get hsome).validator.idle = false := by decide
  obtain ⟨hup, hbusy⟩ := hflag hrun
  have hidle := (h {} lateTask _ (Option.some_get hrun).symm).flag hup
  rw [hbusy] at hidle
  cases hidle

end Tasks

end ProxyBroker.Proxy
