/-
ProxyBroker.Judge.ServersTheorems — when the judge's flag tells the truth
about its servers.

Both methods test the flag before they ask for the lock and do not test
it again behind it. Two overlapping calls of `wakeup` both pass the test,
and the second starts servers that run. And when a server does not start,
`wakeup` returns false but leaves the flag up.

`lifecycle_of_timely`: of the runs in which no server call rejects, those
in which every call that is handed the lock still finds the flag as it
tested it are in order in every state, and no others. A run in which a
`wakeup` returns false is never in order.
-/
import ProxyBroker.Judge.Servers

namespace ProxyBroker

open Lib

namespace JudgeServers

/-! ## The property and the condition -/

/-- The servers are called in time, and the flag is right when no call
holds or waits for the lock. -/
structure LifecycleOk (s : JudgeServers) : Prop where
  notMisused : s.misused = false
  notLeftEnabled : s.leftEnabled = false
  quiet : s.judge.lock.isFree = true →
    (s.judge.isEnabled = true ↔ s.servers.http = .running ∧ s.servers.https = .running)

/-- No start or stop rejects. -/
def Accepted (_ : JudgeServers) : Action → Prop
  | .settle _ ok => ok = true
  | _ => True

/-- The call that goes on finds the flag as it was when it tested it. -/
def Timely (s : JudgeServers) : Action → Prop
  | .resume => ∀ call ∈ s.judge.lock.holder, s.judge.isEnabled = decide (call = .pending)
  | _ => True

instance (s : JudgeServers) : ∀ a, Decidable (Accepted s a)
  | .settle _ ok => inferInstanceAs (Decidable (ok = true))
  | .wakeup | .pending | .resume | .finish => inferInstanceAs (Decidable True)

instance (s : JudgeServers) : ∀ a, Decidable (Timely s a)
  | .resume => inferInstanceAs (Decidable (∀ call ∈ s.judge.lock.holder, _))
  | .wakeup | .pending | .settle _ _ | .finish => inferInstanceAs (Decidable True)

/-! ## The invariant -/

/-- The servers are what the flag says. -/
def Settled (s : JudgeServers) : Prop :=
  ∀ n, s.servers.get n = if s.judge.isEnabled then .running else .stopped

/-- The servers are at work for `call`, which has set the flag. -/
def Working (s : JudgeServers) (call : JudgeCall) (answers : Both (Option Bool)) : Prop :=
  s.judge.isEnabled = decide (call = .wakeup) ∧
    ∀ n, answers.get n = none ∧ s.servers.get n = busy call ∨
      answers.get n = some true ∧ s.servers.get n = done call

structure Inv (s : JudgeServers) : Prop where
  notMisused : s.misused = false
  notLeftEnabled : s.leftEnabled = false
  idle : s.answers = none → Settled s
  working : ∀ answers ∈ s.answers, ∃ call ∈ s.judge.lock.holder, Working s call answers

theorem Inv.ok {s : JudgeServers} (h : Inv s) : LifecycleOk s := by
  refine ⟨h.notMisused, h.notLeftEnabled, ?_⟩
  intro hfree
  have hnone : s.judge.lock.holder = none := by
    simpa [Semaphore.isFree, Option.isNone_iff_eq_none] using hfree
  have hanswers : s.answers = none := by
    cases ha : s.answers with
    | none => rfl
    | some answers =>
        obtain ⟨call, hcall, -⟩ := h.working answers ha
        rw [hnone] at hcall
        cases hcall
  have hhttp : s.servers.http = _ := h.idle hanswers .http
  have hhttps : s.servers.https = _ := h.idle hanswers .https
  rw [hhttp, hhttps]
  cases s.judge.isEnabled <;> simp

/-! ## The parts of a call -/

/-- The first part of a call leaves the flag, and who holds the lock. -/
theorem Inv.judge {s : JudgeServers} (h : Inv s) {judge : Judge JudgeCall}
    (henabled : judge.isEnabled = s.judge.isEnabled)
    (hholder : ∀ call ∈ s.judge.lock.holder, call ∈ judge.lock.holder) :
    Inv { s with judge := judge } := by
  refine ⟨h.notMisused, h.notLeftEnabled, ?_, ?_⟩
  · intro hnone n
    show s.servers.get n = if judge.isEnabled then .running else .stopped
    rw [henabled]
    exact h.idle hnone n
  · intro answers hanswers
    obtain ⟨call, hcall, henb, hservers⟩ := h.working answers hanswers
    exact ⟨call, hholder call hcall, henabled.trans henb, hservers⟩

theorem acquire_holder {κ : Type} (l : Semaphore κ) (c : κ) :
    ∀ call ∈ l.holder, call ∈ (l.acquire c).holder := by
  intro call hcall
  unfold Semaphore.acquire
  cases hh : l.holder with
  | none =>
      rw [hh] at hcall
      cases hcall
  | some c' =>
      simpa [hh] using hcall

theorem Inv.wakeup {s : JudgeServers} (h : Inv s) :
    Inv { s with judge := (s.judge.wakeup .wakeup).getD s.judge } := by
  unfold Judge.wakeup
  split
  · exact h
  · exact h.judge rfl (acquire_holder _ _)

theorem Inv.pending {s : JudgeServers} (h : Inv s) :
    Inv { s with judge := (s.judge.pending .pending).getD s.judge } := by
  unfold Judge.pending
  split
  · exact h
  · exact h.judge rfl (acquire_holder _ _)

/-- The second part is in time exactly if the flag is as it was tested. -/
theorem callServers_misused {s : JudgeServers} (h : Inv s) (hnone : s.answers = none)
    (call : JudgeCall) :
    (s.callServers call).misused = false ↔ s.judge.isEnabled = decide (call = .pending) := by
  have hhttp : s.servers.http = _ := h.idle hnone .http
  have hhttps : s.servers.https = _ := h.idle hnone .https
  simp only [callServers, h.notMisused, hhttp, hhttps]
  cases s.judge.isEnabled <;> cases call <;> decide

theorem Inv.callServers {s : JudgeServers} (h : Inv s) (hnone : s.answers = none)
    {call : JudgeCall} (hcall : s.judge.lock.holder = some call)
    (htimely : s.judge.isEnabled = decide (call = .pending)) : Inv (s.callServers call) := by
  refine ⟨(callServers_misused h hnone call).mpr htimely, h.notLeftEnabled, ?_, ?_⟩
  · intro hanswers
    cases hanswers
  · rintro _ ⟨rfl⟩
    refine ⟨call, ?_, ?_, ?_⟩
    · cases call <;> exact hcall
    · cases call <;> rfl
    · intro n
      cases n <;> exact .inl ⟨rfl, rfl⟩

/-- A server settles that is at work for the call that holds the lock. -/
theorem Inv.settle {s : JudgeServers} (h : Inv s) {n : ServerName} {server : ServerState}
    (hserver : settled true (s.servers.get n) = some server) :
    Inv { s with
      servers := s.servers.set n server
      answers := s.answers.map (fun answers => answers.set n (some true)) } := by
  cases hanswers : s.answers with
  | none =>
      rw [h.idle hanswers n] at hserver
      cases hb : s.judge.isEnabled <;> simp [hb, settled] at hserver
  | some answers =>
      obtain ⟨call, hcall, henabled, hservers⟩ := h.working answers hanswers
      refine ⟨h.notMisused, h.notLeftEnabled, by simp, ?_⟩
      rintro _ ⟨rfl⟩
      refine ⟨call, hcall, henabled, ?_⟩
      intro n'
      by_cases hn : n' = n
      · subst hn
        refine .inr ⟨Both.get_set_self _ _ _, ?_⟩
        show (s.servers.set n' server).get n' = done call
        rw [Both.get_set_self]
        rcases hservers n' with ⟨-, hbusy⟩ | ⟨-, hdone⟩
        · rw [hbusy] at hserver
          cases call <;> exact (Option.some.inj hserver).symm
        · rw [hdone] at hserver
          cases call <;> cases hserver
      · show (answers.set n (some true)).get n' = none ∧
            (s.servers.set n server).get n' = busy call ∨
          (answers.set n (some true)).get n' = some true ∧
            (s.servers.set n server).get n' = done call
        rw [Both.get_set_of_ne _ hn, Both.get_set_of_ne _ hn]
        exact hservers n'

/-- The call returns once both servers have settled. -/
theorem Inv.finish {s : JudgeServers} (h : Inv s) {call : JudgeCall}
    (hcall : s.judge.lock.holder = some call) {answers : Both (Option Bool)}
    (hanswers : s.answers = some answers) {res : Bool} (hres : promiseAll answers = some res) :
    Inv (s.finishCall call res) := by
  obtain ⟨call', hcall', henabled, hservers⟩ := h.working answers hanswers
  rw [hcall] at hcall'
  cases hcall'
  have hnone : ∀ n, answers.get n ≠ some false := by
    intro n heq
    rcases hservers n with ⟨ha, -⟩ | ⟨ha, -⟩ <;> rw [ha] at heq <;> cases heq
  have hhttp : answers.http ≠ some false := hnone .http
  have hhttps : answers.https ≠ some false := hnone .https
  simp only [promiseAll, hhttp, hhttps, or_self, if_false] at hres
  split at hres
  · rename_i hboth
    cases hres
    refine ⟨h.notMisused, ?_, ?_, ?_⟩
    · simp [finishCall, h.notLeftEnabled]
    · intro _ n
      have hn : answers.get n = some true := by
        cases n
        · exact hboth.1
        · exact hboth.2
      have hdone : s.servers.get n = done call := by
        rcases hservers n with ⟨ha, -⟩ | ⟨-, hd⟩
        · rw [hn] at ha
          cases ha
        · exact hd
      show s.servers.get n = if s.judge.isEnabled then .running else .stopped
      rw [hdone, henabled]
      cases call <;> rfl
    · intro answers ha
      cases ha
  · cases hres

/-! ## One step -/

theorem step_keep {s s' : JudgeServers} {a : Action} (h : Inv s) (hok : Accepted s a)
    (htimely : Timely s a) (hstep : step s a = some s') : Inv s' := by
  cases a with
  | wakeup =>
      cases hstep
      exact h.wakeup
  | pending =>
      cases hstep
      exact h.pending
  | resume =>
      simp only [step] at hstep
      split at hstep
      · rename_i call hcall hnone
        cases hstep
        exact h.callServers hnone hcall (htimely call hcall)
      · cases hstep
  | settle n ok =>
      obtain ⟨server, hserver, rfl⟩ := Option.map_eq_some_iff.mp hstep
      cases hok
      exact h.settle hserver
  | finish =>
      simp only [step] at hstep
      split at hstep
      · rename_i call answers hcall hanswers
        obtain ⟨res, hres, rfl⟩ := Option.map_eq_some_iff.mp hstep
        exact h.finish hcall hanswers hres
      · cases hstep

/-- A call that goes on late misuses the servers at once. -/
theorem timely_of_ok {s s' : JudgeServers} {a : Action} (h : Inv s) (hstep : step s a = some s')
    (hs' : LifecycleOk s') : Timely s a := by
  cases a with
  | resume =>
      simp only [step] at hstep
      split at hstep
      · rename_i call hcall hnone
        cases hstep
        rintro call' hcall'
        rw [hcall] at hcall'
        cases hcall'
        exact (callServers_misused h hnone call).mp hs'.notMisused
      · cases hstep
  | _ => trivial

/-! ## A server that rejects -/

/-- While the servers are at work the flag is what the call has set. -/
def FlagSet (s : JudgeServers) : Prop :=
  s.answers.isSome = true →
    ∃ call ∈ s.judge.lock.holder, s.judge.isEnabled = decide (call = .wakeup)

theorem FlagSet.judge {s : JudgeServers} (h : FlagSet s) {judge : Judge JudgeCall}
    (henabled : judge.isEnabled = s.judge.isEnabled)
    (hholder : ∀ call ∈ s.judge.lock.holder, call ∈ judge.lock.holder) :
    FlagSet { s with judge := judge } := by
  intro hsome
  obtain ⟨call, hcall, hflag⟩ := h hsome
  exact ⟨call, hholder call hcall, henabled.trans hflag⟩

theorem FlagSet.step {s s' : JudgeServers} {a : Action} (h : FlagSet s)
    (hstep : step s a = some s') : FlagSet s' := by
  cases a with
  | wakeup =>
      cases hstep
      unfold Judge.wakeup
      split
      · exact h
      · exact h.judge rfl (acquire_holder _ _)
  | pending =>
      cases hstep
      unfold Judge.pending
      split
      · exact h
      · exact h.judge rfl (acquire_holder _ _)
  | resume =>
      simp only [JudgeServers.step] at hstep
      split at hstep
      · rename_i call hcall hnone
        cases hstep
        intro _
        refine ⟨call, ?_, ?_⟩
        · cases call <;> exact hcall
        · cases call <;> rfl
      · cases hstep
  | settle n ok =>
      obtain ⟨server, -, rfl⟩ := Option.map_eq_some_iff.mp hstep
      intro hsome
      exact h (by simpa using hsome)
  | finish =>
      simp only [JudgeServers.step] at hstep
      split at hstep
      · obtain ⟨res, -, rfl⟩ := Option.map_eq_some_iff.mp hstep
        intro hsome
        cases hsome
      · cases hstep

/-- A `wakeup` that returns false leaves the judge enabled. -/
theorem finish_rejected {s t : JudgeServers} {answers : Both (Option Bool)} (hflag : FlagSet s)
    (hcall : s.judge.lock.holder = some .wakeup) (hanswers : s.answers = some answers)
    (hrejected : promiseAll answers = some false) (hstep : step s .finish = some t) :
    t.leftEnabled = true := by
  obtain ⟨call, hcall', henabled⟩ := hflag (by rw [hanswers]; rfl)
  rw [hcall] at hcall'
  cases hcall'
  simp only [step, hcall, hanswers, hrejected, Option.map_some, Option.some.injEq] at hstep
  rw [← hstep]
  simp [finishCall, henabled]

/-- No `wakeup` returns false. -/
def Succeeds (s : JudgeServers) : Action → Prop
  | .finish => s.judge.lock.holder = some .wakeup → ∀ answers ∈ s.answers,
      promiseAll answers ≠ some false
  | _ => True

theorem succeeds_of_ok {s s' : JudgeServers} {a : Action} (hflag : FlagSet s)
    (hstep : step s a = some s') (hs' : LifecycleOk s') : Succeeds s a := by
  cases a with
  | finish =>
      intro hcall answers hanswers hrejected
      have hleft := finish_rejected hflag hcall hanswers hrejected hstep
      rw [hs'.notLeftEnabled] at hleft
      cases hleft
  | _ => trivial

/-! ## Whole runs -/

theorem inv_initial : Inv {} :=
  ⟨rfl, rfl, fun _ n => by cases n <;> rfl, fun _ h => by cases h⟩

/-- **The judge's lifecycle.** All states of a run are in order if no
server call rejects and every call that is handed the lock finds the flag
as it tested it. Of the runs in which no server call rejects no others
are in order, and none in which a `wakeup` returns false. -/
theorem lifecycle_of_timely {as : List Action} {t : JudgeServers} (h : machine.run {} as = some t) :
    (machine.Along (fun s a => Accepted s a ∧ Timely s a) {} as →
        machine.Always LifecycleOk {} as) ∧
      (machine.Always LifecycleOk {} as → machine.Along Succeeds {} as ∧
        (machine.Along Accepted {} as → machine.Along Timely {} as)) := by
  have hexact : machine.Along Accepted {} as →
      (machine.Always LifecycleOk {} as ↔ machine.Along Timely {} as) := fun hok =>
    machine.always_iff_along_of_inv (fun _ _ _ => step_keep) (fun _ => Inv.ok)
      (fun _ _ _ hs _ hstep hs' => timely_of_ok hs hstep hs') inv_initial hok h
  refine ⟨?_, ?_⟩
  · intro hboth
    obtain ⟨hok, htimely⟩ := machine.along_and.mp hboth
    exact (hexact hok).mpr htimely
  · intro hall
    refine ⟨?_, fun hok => (hexact hok).mp hall⟩
    have hflags : machine.Always FlagSet {} as :=
      machine.always_of_along (fun _ _ _ hs _ hstep => FlagSet.step hs hstep) (fun _ hs => hs)
        (fun hsome => by cases hsome) machine.along_true
    exact machine.along_of_always
      (fun _ _ _ hs hs' hstep => succeeds_of_ok hs.1 hstep hs'.2) h (hflags.and machine hall)

/-- The judge is woken up and put to sleep again. -/
def upAndDown : List Action :=
  [.wakeup, .resume, .settle .http true, .settle .https true, .finish, .pending, .resume,
    .settle .https true, .settle .http true, .finish]

def asleepAgain : JudgeServers := (machine.run {} upAndDown).getD {}

theorem lifecycle_upAndDown :
    machine.Always LifecycleOk {} upAndDown ∧ machine.Along Succeeds {} upAndDown := by
  obtain ⟨hok, hsucceeds⟩ :=
    lifecycle_of_timely (show machine.run {} upAndDown = some asleepAgain by decide)
  have hall := hok (by decide)
  exact ⟨hall, (hsucceeds hall).1⟩

/-- The plain server does not start. -/
def startFails : List Action :=
  [.wakeup, .resume, .settle .https true, .settle .http false, .finish]

/-- `wakeup` returns false, and the judge is enabled with one server. -/
theorem not_lifecycleOk_startFails :
    (machine.run {} startFails).isSome = true ∧ ¬ machine.Always LifecycleOk {} startFails := by
  refine ⟨by decide, ?_⟩
  intro hall
  have hrun : machine.run {} startFails = some ((machine.run {} startFails).getD {}) := by decide
  exact absurd (hall.of_run machine hrun).notLeftEnabled (by decide)

end JudgeServers

end ProxyBroker
