/-
ProxyBroker.Proxy.TaskStore — the validation task together with what the
validator stores (`ProxyValidateTask.exec`, `ProxyValidator.do`).

The tasks of `Tasks` and the calls of `Store` side by side: a validation
that ends in `store` starts a call, whose operations on the database
interleave with everything else, and the job goes on when the call
returns. A task has a field `store`, which comes with its `exec`; nothing
reads it. Whether a result is stored is a matter of the validator's
options and of its connection.

* `refines_tasks`, `refines_store` — the two sides run as they do on their
  own;
* `validated_store` — what the end of a validation does to the store;
* `Quiet.step` — a step that does not call `store` leaves nothing behind
  that could write;
* `exists_write` — a call of `store` that is let on writes;
* `unwritten_iff` — the runs that write nothing, now or later.

The location of a result comes from a service and is a part of the step
that ends the validation.
-/
import ProxyBroker.Proxy.IdleTheorems
import ProxyBroker.Proxy.StoreAloneTheorems

namespace ProxyBroker.Proxy

open Lib Server Storage

/-! ## The machine -/

def JobPhase.isStoring : JobPhase → Bool
  | .storing _ => true
  | _ => false

structure TaskStore where
  tasks : Tasks := {}
  /-- the field `store` of every task -/
  flags : List Bool := []
  store : Store := {}
  /-- the `store` call of a job -/
  storeCall : Nat → Option Nat := fun _ => none

inductive TaskStoreAction where
  | exec (proxies : List ProxyData) (store : Bool)
  /-- another step of the tasks or the validator -/
  | task (a : TaskAction)
  /-- `validate` of a job returns -/
  | validated (j : Nat) (addr : Text) (variants : List JudgeResult) (geoData : Option GeoData)
  /-- an operation of a `store` call, or time passes -/
  | database (a : StoreAction)
  /-- the `store` call of a job has returned or rejected -/
  | stored (j : Nat)
  deriving DecidableEq, Repr

namespace TaskStore

def isStoring (s : TaskStore) (j : Nat) : Bool :=
  s.tasks.validator.jobs[j]?.any JobPhase.isStoring

/-- Steps that have an action of their own here. -/
def isOwn (s : TaskStore) : TaskAction → Bool
  | .exec _ | .validated _ _ _ | .validator (.job _ .stored) => true
  | .validator (.job j .rejected) => s.isStoring j
  | _ => false

def stepTask (options : ValidatorOptions) (s : TaskStore) (a : TaskAction) : Option TaskStore :=
  (Tasks.step options s.tasks a).map (fun tasks => { s with tasks := tasks })

/-- `this.store(workLoad)` -/
def callStore (s : TaskStore) (j : Nat) (workLoad : ProxyData) : TaskStore :=
  { s with
    store := s.store.call workLoad .finding
    storeCall := Function.update s.storeCall j (some s.store.calls.length) }

/-- `do` behind `validate`. -/
def validated (options : ValidatorOptions) (s : TaskStore) (j : Nat) (addr : Text)
    (variants : List JudgeResult) (geoData : Option GeoData) : Option TaskStore := do
  let workLoad ← s.tasks.workloads[j]?
  let s ← s.stepTask options (.validated j addr variants)
  if s.isStoring j then
    some (s.callStore j { workLoad with results := some ⟨variants, geoData⟩ })
  else some s

/-- The job whose `store` call is over goes on. -/
def stored (options : ValidatorOptions) (s : TaskStore) (j : Nat) : Option TaskStore := do
  let c ← s.storeCall j
  let call ← s.store.calls[c]?
  match call.stage with
  | .done _ => s.stepTask options (.validator (.job j .stored))
  | .failed _ => s.stepTask options (.validator (.job j .rejected))
  | _ => none

def step (options : ValidatorOptions) (s : TaskStore) : TaskStoreAction → Option TaskStore
  | .exec proxies store =>
      some { s with tasks := s.tasks.exec proxies, flags := s.flags ++ [store] }
  | .task a => if s.isOwn a then none else s.stepTask options a
  | .validated j addr variants geoData => s.validated options j addr variants geoData
  | .database a =>
      if a.calls then none
      else (Store.step options s.store a).map (fun store => { s with store := store })
  | .stored j => s.stored options j

def machine (options : ValidatorOptions) : Machine TaskStore TaskStoreAction where
  step := step options

/-! ## What a run must not do -/

/-- A step of tasks that are not to store. -/
def ForNoStore : TaskStoreAction → Prop
  | .exec _ store => store = false
  | .task (.push _) => False
  | _ => True

instance : DecidablePred ForNoStore
  | .exec _ store => inferInstanceAs (Decidable (store = false))
  | .task (.push _) => inferInstanceAs (Decidable False)
  | .task (.validator _) | .task (.validated _ _ _) | .task .isEmpty | .task (.exec _)
  | .task (.acquired _) | .task (.settled _ _) | .task (.returned _)
  | .validated _ _ _ _ | .database _ | .stored _ => inferInstanceAs (Decidable True)

/-- The rows of the tables. -/
structure SameTables (db db' : Database) : Prop where
  addrs : db'.addrs = db.addrs
  states : db'.states = db.states
  locs : db'.locs = db.locs

/-- The tables are those of `db`, and stay so whatever the calls under way
still do. -/
def Unwritten (options : ValidatorOptions) (db : Database) (s : TaskStore) : Prop :=
  ∀ (as : List StoreAction) (t : TaskStore),
    (machine options).run s (as.map .database) = some t → SameTables db t.store.db

/-- A result that comes is not stored: the validator has no storage, or
wants a success and there is none, or has no connection. -/
def Mute (options : ValidatorOptions) (s : TaskStore) : TaskStoreAction → Prop
  | .validated _ _ variants _ =>
      options.storage = false ∨
        (options.skipFailed = true ∧ ∀ x ∈ variants, x.hasError = true) ∨
          s.tasks.validator.connection = none
  | _ => True

instance (options : ValidatorOptions) (s : TaskStore) : DecidablePred (Mute options s)
  | .validated _ _ variants _ =>
      inferInstanceAs (Decidable (options.storage = false ∨
        (options.skipFailed = true ∧ ∀ x ∈ variants, x.hasError = true) ∨
          s.tasks.validator.connection = none))
  | .exec _ _ | .task _ | .database _ | .stored _ => inferInstanceAs (Decidable True)

/-! ## The end of a validation -/

theorem any_getVariants (r : JudgeResults) (p : JudgeResult → Bool) :
    r.getVariants.any p = r.variants.any p :=
  (List.perm_insertionSort _ _).any_eq

/-- The result is stored, in terms of what came. -/
theorem not_mute_iff {options : ValidatorOptions} {s : TaskStore} {j : Nat} {addr ip : Text}
    {port : Nat} {variants : List JudgeResult} {geoData : Option GeoData} :
    ¬ Mute options s (.validated j addr variants geoData) ↔
      ProxyValidator.stores options (hasSuccess (judgeValidate ip port variants)) = true ∧
        s.tasks.validator.connection ≠ none := by
  rw [hasSuccess, any_getVariants]
  simp only [Mute, judgeValidate, ProxyValidator.stores]
  cases options.storage <;> cases options.skipFailed <;> simp

theorem isStoring_store {options : ValidatorOptions} {v : ProxyValidator} {j : Nat}
    (hj : j < v.jobs.length) (ok : Bool) :
    (v.store options j ok).jobs[j]?.any JobPhase.isStoring =
      (ProxyValidator.stores options ok && v.connection.isSome) := by
  unfold ProxyValidator.store
  cases hstores : ProxyValidator.stores options ok with
  | false => simp [ProxyValidator.goto, hj, JobPhase.isStoring]
  | true =>
      cases hconn : v.connection <;> simp [ProxyValidator.goto, hj, JobPhase.isStoring]

theorem step_validated {options : ValidatorOptions} {v v' : ProxyValidator} {j : Nat} {ok : Bool}
    (h : v.step options (.job j (.validated ok)) = some v') :
    j < v.jobs.length ∧ v' = v.store options j ok := by
  obtain ⟨p, hp, hjob⟩ := Option.bind_eq_some_iff.mp h
  refine ⟨(List.getElem?_eq_some_iff.mp hp).1, ?_⟩
  cases p with
  | requesting ids =>
      cases ids with
      | nil =>
          cases hjob
          rfl
      | cons id ids => cases hjob
  | _ => cases hjob

/-- A job is in `store` behind `validate` exactly if the step was not
mute. -/
theorem stepTask_validated {options : ValidatorOptions} {s s' : TaskStore} {j : Nat} {addr : Text}
    {variants : List JudgeResult} (geoData : Option GeoData)
    (h : s.stepTask options (.validated j addr variants) = some s') :
    s'.store = s.store ∧
      (s'.isStoring j = true ↔ ¬ Mute options s (.validated j addr variants geoData)) := by
  obtain ⟨tasks, hstep, rfl⟩ := Option.map_eq_some_iff.mp h
  obtain ⟨o, v, -, hv, rfl⟩ := Tasks.validated_cases hstep
  obtain ⟨hj, rfl⟩ := step_validated hv
  refine ⟨rfl, ?_⟩
  rw [not_mute_iff, isStoring, isStoring_store hj, Bool.and_eq_true, Option.isSome_iff_ne_none]

/-- **What the end of a validation does to the store.** -/
theorem validated_store {options : ValidatorOptions} {s s' : TaskStore} {j : Nat} {addr : Text}
    {variants : List JudgeResult} {geoData : Option GeoData}
    (h : s.validated options j addr variants geoData = some s') :
    (Mute options s (.validated j addr variants geoData) ∧ s'.store = s.store) ∨
      (¬ Mute options s (.validated j addr variants geoData) ∧
        ∃ workLoad, s.tasks.workloads[j]? = some workLoad ∧
          s'.store = s.store.call { workLoad with results := some ⟨variants, geoData⟩ }
            .finding) := by
  obtain ⟨workLoad, hwork, h⟩ := Option.bind_eq_some_iff.mp h
  obtain ⟨s₁, hstep, h⟩ := Option.bind_eq_some_iff.mp h
  obtain ⟨hstore, hstoring⟩ := stepTask_validated geoData hstep
  split at h
  · rename_i hs
    cases h
    exact .inr ⟨hstoring.mp hs, workLoad, hwork, by rw [callStore, hstore]⟩
  · rename_i hs
    cases h
    exact .inl ⟨not_not.mp (mt hstoring.mpr hs), hstore⟩

/-! ## The machines below -/

theorem stepTask_store {options : ValidatorOptions} {s s' : TaskStore} {a : TaskAction}
    (h : s.stepTask options a = some s') :
    s'.store = s.store := by
  obtain ⟨tasks, -, rfl⟩ := Option.map_eq_some_iff.mp h
  rfl

theorem stored_store {options : ValidatorOptions} {s s' : TaskStore} {j : Nat}
    (h : s.stored options j = some s') : s'.store = s.store := by
  obtain ⟨c, -, h⟩ := Option.bind_eq_some_iff.mp h
  obtain ⟨call, -, h⟩ := Option.bind_eq_some_iff.mp h
  split at h
  · exact stepTask_store h
  · exact stepTask_store h
  · cases h

def hasReturned : Stage → Bool
  | .done _ => true
  | _ => false

/-- What a step is for the tasks. -/
def taskAction (s : TaskStore) : TaskStoreAction → Option TaskAction
  | .exec proxies _ => some (.exec proxies)
  | .task a => some a
  | .validated j addr variants _ => some (.validated j addr variants)
  | .database _ => none
  | .stored j =>
      if ((s.storeCall j).bind (s.store.calls[·]?)).any (fun c => hasReturned c.stage) then
        some (.validator (.job j .stored))
      else some (.validator (.job j .rejected))

theorem stepTask_run {options : ValidatorOptions} {s s' : TaskStore} {a : TaskAction}
    (h : s.stepTask options a = some s') :
    (Tasks.machine options).run s.tasks [a] = some s'.tasks := by
  obtain ⟨tasks, hstep, rfl⟩ := Option.map_eq_some_iff.mp h
  rw [Machine.run_singleton]
  exact hstep

/-- **The tasks run as they do on their own.** -/
theorem refines_tasks (options : ValidatorOptions) :
    (machine options).Refines (Tasks.machine options) (·.tasks) taskAction (fun _ => True)
      (fun _ => True) where
  keeps := fun _ _ _ _ _ _ => trivial
  simulates := by
    intro s a s' _ _ h
    cases a with
    | exec proxies store =>
        cases h
        rfl
    | task b =>
        simp only [machine, step] at h
        split at h
        · cases h
        · exact stepTask_run h
    | validated j addr variants geoData =>
        obtain ⟨workLoad, -, h⟩ := Option.bind_eq_some_iff.mp h
        obtain ⟨s₁, hstep, h⟩ := Option.bind_eq_some_iff.mp h
        have htasks : s'.tasks = s₁.tasks := by
          split at h <;> cases h <;> rfl
        exact (stepTask_run hstep).trans (congrArg some htasks.symm)
    | database b =>
        simp only [machine, step] at h
        split at h
        · cases h
        · obtain ⟨store, -, rfl⟩ := Option.map_eq_some_iff.mp h
          rfl
    | stored j =>
        obtain ⟨c, hc, h⟩ := Option.bind_eq_some_iff.mp h
        obtain ⟨call, hcall, h⟩ := Option.bind_eq_some_iff.mp h
        simp only [taskAction, hc, hcall, Option.bind_some, Option.any_some]
        split at h
        · rename_i hstage
          have hreturned : hasReturned call.stage = true := by rw [hstage]; rfl
          rw [if_pos hreturned]
          exact stepTask_run h
        · rename_i hstage
          have hrejected : ¬ hasReturned call.stage = true := by rw [hstage]; exact Bool.noConfusion
          rw [if_neg hrejected]
          exact stepTask_run h
        · cases h

/-- What a step is for the store. -/
def storeAction (options : ValidatorOptions) (s : TaskStore) : TaskStoreAction → Option StoreAction
  | .database a => some a
  | .validated j addr variants geoData =>
      if Mute options s (.validated j addr variants geoData) then none
      else (s.tasks.workloads[j]?).map (fun workLoad =>
        .store { workLoad with results := some ⟨variants, geoData⟩ })
  | .exec _ _ | .task _ | .stored _ => none

/-- **The calls of `store` run as they do on their own.** -/
theorem refines_store (options : ValidatorOptions) :
    (machine options).Refines (Store.machine options) (·.store) (storeAction options)
      (fun _ => True) (fun _ => True) where
  keeps := fun _ _ _ _ _ _ => trivial
  simulates := by
    intro s a s' _ _ h
    cases a with
    | exec proxies store =>
        cases h
        rfl
    | task b =>
        simp only [machine, step] at h
        split at h
        · cases h
        · exact congrArg some (stepTask_store h).symm
    | validated j addr variants geoData =>
        simp only [storeAction]
        rcases validated_store h with ⟨hmute, hstore⟩ | ⟨hmute, workLoad, hwork, hstore⟩
        · rw [if_pos hmute, hstore]
          rfl
        · rw [if_neg hmute, hwork, hstore]
          rfl
    | database b =>
        simp only [machine, step] at h
        split at h
        · cases h
        · obtain ⟨store, hstep, rfl⟩ := Option.map_eq_some_iff.mp h
          rw [storeAction, Option.toList_some, Machine.run_singleton]
          exact hstep
    | stored j => exact congrArg some (stored_store h).symm

/-! ## Steps that write nothing -/

/-- The tables are those of `db`, and no `store` call is under way. -/
structure Quiet (db : Database) (s : TaskStore) : Prop where
  db_eq : s.store.db = db
  calls_over : ∀ c ∈ s.store.calls, Store.isOver c.stage = true

section Steps

variable {options : ValidatorOptions} {db : Database} {s s' : TaskStore} {a : TaskStoreAction}

theorem Quiet.congr (h : Quiet db s) (hstore : s'.store = s.store) : Quiet db s' :=
  ⟨by rw [hstore, h.db_eq], by rw [hstore]; exact h.calls_over⟩

/-- With no call under way, there is nothing to do on the database. -/
theorem Quiet.database (h : Quiet db s) {b : StoreAction}
    (hstep : step options s (.database b) = some s') : Quiet db s' := by
  rw [step] at hstep
  split at hstep
  · cases hstep
  · rename_i hcalls
    obtain ⟨store, hb, rfl⟩ := Option.map_eq_some_iff.mp hstep
    rcases Store.step_cases (Bool.eq_false_iff.mpr hcalls) hb with
      ⟨ms, -, rfl⟩ | ⟨i, c, db', stage, state, -, hc, hnext, -⟩
    · exact ⟨h.db_eq, h.calls_over⟩
    · have hover := h.calls_over c (List.mem_of_getElem? hc)
      rw [hnext.not_over] at hover
      cases hover

theorem Quiet.step (h : Quiet db s) (hmute : Mute options s a)
    (hstep : step options s a = some s') : Quiet db s' := by
  cases a with
  | exec proxies store =>
      cases hstep
      exact ⟨h.db_eq, h.calls_over⟩
  | task b =>
      rw [TaskStore.step] at hstep
      split at hstep
      · cases hstep
      · exact h.congr (stepTask_store hstep)
  | validated j addr variants geoData =>
      rcases validated_store hstep with ⟨-, hstore⟩ | ⟨hstores, -⟩
      · exact h.congr hstore
      · exact absurd hmute hstores
  | database b => exact h.database hstep
  | stored j => exact h.congr (stored_store hstep)

theorem Quiet.unwritten (h : Quiet db s) : Unwritten options db s := by
  intro as t hrun
  have hkeep : ∀ u a u', Quiet db u → (∃ b, a = TaskStoreAction.database b) →
      (machine options).step u a = some u' → Quiet db u' := by
    intro u a u' hu hdatabase hstep
    obtain ⟨b, rfl⟩ := hdatabase
    exact hu.database hstep
  have hquiet : Quiet db t := (machine options).run_invariant_on hkeep h (by simp) hrun
  rw [← hquiet.db_eq]
  exact ⟨rfl, rfl, rfl⟩

end Steps

/-! ## A call that writes -/

/-- An address that is looked up and saved is another one behind it. -/
theorem saveAddr_entered {db : Database} (hwf : db.Wf) (data : ProxyData) (now : Nat) :
    ∃ db' addr, db.saveAddr (Store.entered db data now) = some (db', addr) ∧
      db'.addrs ≠ db.addrs := by
  obtain ⟨⟨db', addr⟩, hsave⟩ :=
    Option.ne_none_iff_exists'.mp (Store.saveAddr_entered_ne hwf data now)
  have hsaved := Database.saveAddr_saved hwf (Store.entered_knows hwf data now) hsave
  refine ⟨db', addr, hsave, ?_⟩
  intro hsame
  have hfound := hsaved.found_of_key (Store.entered_key db data now hwf)
  rw [Database.findAddr_congr hsame] at hfound
  -- the row found before is the one found behind it, with its number raised
  have hnumber : addr.validationId = (Store.entered db data now).validationId := by
    rw [hsaved.entity]
  have hraised : (Store.entered db data now).validationId = addr.validationId + 1 := by
    simp [Store.entered, hfound]
  omega

/-- The operations of the calls on their own. -/
theorem run_database (options : ValidatorOptions) (s : TaskStore) {as : List StoreAction}
    (has : ∀ a ∈ as, a.calls = false) :
    (machine options).run s (as.map .database) =
      ((Store.machine options).run s.store as).map (fun store => { s with store := store }) := by
  induction as generalizing s with
  | nil => rfl
  | cons a as ih =>
      have ha := has a List.mem_cons_self
      have hstep : (machine options).step s (.database a) =
          (Store.step options s.store a).map (fun store => { s with store := store }) := by
        simp [machine, step, ha]
      rw [List.map_cons, Machine.run_cons, Machine.run_cons, hstep]
      change _ = ((Store.step options s.store a).bind _).map _
      cases Store.step options s.store a with
      | none => rfl
      | some store => exact ih _ fun b hb => has b (List.mem_cons_of_mem _ hb)

/-- **A call of `store` that is let on writes.** -/
theorem exists_write (options : ValidatorOptions) {store : Store} (hwf : store.db.Wf)
    (data : ProxyData) :
    ∃ t, (Store.machine options).run (store.call data .finding)
        [.go store.calls.length, .go store.calls.length] = some t ∧
      t.db.addrs ≠ store.db.addrs := by
  obtain ⟨db', addr, hsave, hne⟩ := saveAddr_entered hwf data store.clock
  refine ⟨{ store with
    db := db'
    calls := store.calls ++ [⟨data, store.clock, Store.saved addr data⟩] }, ?_, hne⟩
  simp [Machine.run_cons, Store.machine, Store.step, Store.call, Store.goOn, Store.goto, hsave]

/-! ## When nothing is written -/

/-- **A run writes nothing, now or later, exactly if** no result that comes
is stored. The tasks' field `store` is no part of the condition. -/
theorem unwritten_iff (options : ValidatorOptions) {s t : TaskStore} {as : List TaskStoreAction}
    (hwf : s.store.db.Wf) (hover : ∀ c ∈ s.store.calls, Store.isOver c.stage = true)
    (hnoStore : ∀ a ∈ as, ForNoStore a) (hrun : (machine options).run s as = some t) :
    (machine options).Always (Unwritten options s.store.db) s as ↔
      (machine options).Along (Mute options) s as := by
  have hkeep : ∀ u a u', Quiet s.store.db u → ForNoStore a → Mute options u a →
      (machine options).step u a = some u' → Quiet s.store.db u' :=
    fun _ _ _ hu _ hmute hstep => hu.step hmute hstep
  have hbreak : ∀ u a u', Quiet s.store.db u → ForNoStore a →
      (machine options).step u a = some u' → Unwritten options s.store.db u' →
      Mute options u a := by
    intro u a u' hu _ hstep hunwritten
    cases a with
    | validated j addr variants geoData =>
        by_contra hstores
        rcases validated_store hstep with ⟨hmute, -⟩ | ⟨-, workLoad, -, hcall⟩
        · exact hstores hmute
        · obtain ⟨store, hwrite, hne⟩ := exists_write options (hu.db_eq ▸ hwf)
            { workLoad with results := some ⟨variants, geoData⟩ }
          have hlate : (machine options).run u' (List.map .database
              [.go u.store.calls.length, .go u.store.calls.length]) =
                some { u' with store := store } := by
            rw [run_database options u' (by simp [StoreAction.calls]), hcall, hwrite]
            rfl
          exact hne ((hunwritten _ _ hlate).addrs.trans (by rw [hu.db_eq]))
    | _ => trivial
  exact (machine options).always_iff_along_of_inv hkeep (fun _ hu => hu.unwritten) hbreak
    ⟨rfl, hover⟩ ((machine options).along_of_forall_mem hnoStore) hrun

/-- A task with one proxy that is not to store, to the answers of its
requests. -/
def oneProxy : List TaskStoreAction :=
  [.exec [Tasks.someProxy] false, .task (.acquired 0)] ++
    ([.start, .progressed, .checked, .acquired, .settled, .resumed, .connected, .lookedUp,
      .answered 0, .answered 1, .answered 2, .answered 3] : List JobEvent).map
        (fun e => .task (.validator (.job 0 e)))

/-- A request that failed. -/
def failedVariant : JudgeResult :=
  { protocolFrom := .http, protocolTo := .http, error := some ⟨[], []⟩ }

theorem unwritten_failed :
    (machine {}).Always (Unwritten {} {}) {}
      (oneProxy ++ [.validated 0 "10.0.0.1".toList [failedVariant] none]) := by
  have hrun : ((machine {}).run {}
      (oneProxy ++ [.validated 0 "10.0.0.1".toList [failedVariant] none])).isSome = true := by
    decide
  exact (unwritten_iff {} Database.wf_empty (by simp) (by decide)
    (Option.some_get hrun).symm).mpr (by decide)

/-- The same task with a success, from the call of `store` to the return
of `exec`. -/
def stillStored : List TaskStoreAction :=
  oneProxy ++ [.validated 0 "10.0.0.1".toList [Tasks.httpVariant] none] ++
    ([.go 0, .go 0, .go 0, .saveState 0 0, .go 0] : List StoreAction).map .database ++
    [.stored 0, .task (.settled 0 0), .task (.validator .onEmpty)] ++
    (Tasks.restOfEmpty 0).map .task ++ [.task (.returned 0)]

/-- The task has returned, and there is a row for its proxy. -/
theorem not_unwritten_stillStored :
    ¬ ∀ options as t, (∀ a ∈ as, ForNoStore a) → (machine options).run {} as = some t →
      SameTables {} t.store.db := by
  intro h
  have hrun : ((machine {}).run {} stillStored).isSome = true := by decide
  have hrows : ∀ hsome, (((machine {}).run {} stillStored).get hsome).store.db.addrs ≠ [] := by
    decide
  exact hrows hrun (h {} stillStored _ (by decide) (Option.some_get hrun).symm).addrs

end TaskStore

end ProxyBroker.Proxy
