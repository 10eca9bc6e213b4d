/-
ProxyBroker.Proxy.TeardownTheorems — when a running validation keeps its
judge and its connection.

`do` takes a judge that is enabled for one that stays enabled. The flag
goes up before the connection is there, stays up when `connect` fails,
and comes down late: `onEmpty` first closes the connection, then waits
for the lock, and only then calls `disable`. A job that tests the flag in
between validates without a connection, and loses the judge under its
requests.

`validations_kept` has the condition on the tests of the flag under which
no validation is harmed, in any run. The invariant behind it is `Sound`:
while an `onEmpty` call has its `disable` before it, no job is past its
test.
-/
import ProxyBroker.Proxy.ProxyValidator

namespace ProxyBroker

open Lib

/-! ## The judge's parts -/

namespace Judge

variable {κ : Type}

/-- The ids in use are below the counter. -/
def Fresh (j : Judge κ) : Prop := ∀ id ∈ j.cleared ++ j.cache, id < j.inc

theorem createRequests_enabled (n : Nat) (j : Judge κ) :
    (j.createRequests n).1.enabled = j.enabled := by
  induction n generalizing j with
  | zero => rfl
  | succ n ih => exact ih j.createRequest.1

theorem createRequests_cleared (n : Nat) (j : Judge κ) :
    (j.createRequests n).1.cleared = j.cleared := by
  induction n generalizing j with
  | zero => rfl
  | succ n ih => exact ih j.createRequest.1

theorem Fresh.createRequest {j : Judge κ} (h : j.Fresh) : j.createRequest.1.Fresh := by
  intro id hid
  simp only [Judge.createRequest, List.mem_append, List.mem_singleton] at hid ⊢
  rcases hid with hid | hid | rfl
  · exact Nat.lt_succ_of_lt (h id (List.mem_append_left _ hid))
  · exact Nat.lt_succ_of_lt (h id (List.mem_append_right _ hid))
  · exact Nat.lt_succ_self _

theorem Fresh.createRequests {n : Nat} {j : Judge κ} (h : j.Fresh) :
    (j.createRequests n).1.Fresh := by
  induction n generalizing j with
  | zero => exact h
  | succ n ih => exact ih h.createRequest

/-- New requests were never cleared. -/
theorem Fresh.createRequests_notMem {n : Nat} {j : Judge κ} (h : j.Fresh) :
    ∀ id ∈ (j.createRequests n).2, id ∉ j.cleared := by
  induction n generalizing j with
  | zero =>
      intro id hid
      cases hid
  | succ n ih =>
      intro id hid hmem
      rcases List.mem_cons.mp hid with rfl | hid
      · exact Nat.lt_irrefl _ (h _ (List.mem_append_left _ hmem))
      · exact ih h.createRequest id hid hmem

theorem Fresh.removeFromCache {j : Judge κ} (h : j.Fresh) (id : Nat) :
    (j.removeFromCache id).Fresh := by
  intro i hi
  simp only [Judge.removeFromCache, List.mem_append, List.mem_filter] at hi ⊢
  rcases hi with hi | hi
  · exact h i (List.mem_append_left _ hi)
  · exact h i (List.mem_append_right _ hi.1)

theorem Fresh.pending {j j' : Judge κ} {c : κ} (h : j.Fresh) (hp : j.pending c = some j') :
    j'.Fresh := by
  unfold Judge.pending at hp
  split at hp
  · cases hp
  · cases hp
    simpa [Fresh, clearCache] using h

end Judge

namespace Proxy

/-! ## Phases -/

/-- The window: from the test of the flag, with the wake-up that belongs
to it, to the end of `store`. -/
def JobPhase.isValidating : JobPhase → Bool
  | .looking | .requesting _ | .storing _ => true
  | _ => false

/-- The job counts on the judge being enabled. -/
def JobPhase.isAwake : JobPhase → Bool
  | .starting | .woken | .connecting => true
  | p => p.isValidating

/-- The job has tested the flag and is not over. -/
def JobPhase.isPastCheck : JobPhase → Bool
  | .acquiring => true
  | p => p.isAwake

/-- The requests that are out. -/
def JobPhase.requests : JobPhase → List Nat
  | .requesting ids => ids
  | _ => []

/-- The `onEmpty` call has its `disable` before it. -/
def EmptyPhase.threatens : EmptyPhase → Bool
  | .closing | .acquiring => true
  | _ => false

namespace ProxyValidator

/-- **No validation is torn down**: for every job in its window the judge
is enabled, the connection is there and open, and `pending` has cleared
none of the requests. -/
def Unharmed (s : ProxyValidator) : Prop :=
  ∀ p ∈ s.jobs, p.isValidating →
    s.judge.isEnabled ∧ s.connectionOpen ∧ ∀ id ∈ p.requests, id ∉ s.judge.cleared

instance : DecidablePred Unharmed := fun s =>
  inferInstanceAs (Decidable (∀ p ∈ s.jobs, p.isValidating →
    s.judge.isEnabled ∧ s.connectionOpen ∧ ∀ id ∈ p.requests, id ∉ s.judge.cleared))

/-- The action is the test of the flag of a job. -/
def checks (s : ProxyValidator) : ValidatorAction → Bool
  | .job j .checked => s.jobs[j]? = some .checking
  | _ => false

/-- A test that finds the judge enabled finds the connection open. -/
def Opens (s : ProxyValidator) (a : ValidatorAction) : Prop :=
  s.checks a → s.judge.isEnabled → s.connectionOpen

instance (s : ProxyValidator) (a : ValidatorAction) : Decidable (s.Opens a) :=
  inferInstanceAs (Decidable (_ → _ → _))

/-- A test that finds the judge disabled finds no `onEmpty` call that has
its `disable` before it. -/
def Settled (s : ProxyValidator) (a : ValidatorAction) : Prop :=
  s.checks a → s.judge.isEnabled = false → ∀ r ∈ s.empties, r.threatens = false

instance (s : ProxyValidator) (a : ValidatorAction) : Decidable (s.Settled a) :=
  inferInstanceAs (Decidable (_ → _ → ∀ r ∈ s.empties, r.threatens = false))

end ProxyValidator

/-! ## The invariant -/

theorem JobPhase.isPastCheck_of_awake {p : JobPhase} (h : p.isAwake) : p.isPastCheck := by
  cases p with
  | acquiring => rfl
  | _ => exact h

theorem JobPhase.isAwake_of_validating {p : JobPhase} (h : p.isValidating) : p.isAwake := by
  cases p with
  | starting => rfl
  | woken => rfl
  | connecting => rfl
  | _ => exact h

theorem JobPhase.isValidating_of_requests {p : JobPhase} {id : Nat} (h : id ∈ p.requests) :
    p.isValidating := by
  cases p with
  | requesting ids => rfl
  | _ => cases h

theorem JobPhase.isOver_not_pastCheck {p : JobPhase} (h : p.isOver) : p.isPastCheck = false := by
  cases p with
  | done => rfl
  | failed => rfl
  | _ => cases h

namespace ProxyValidator

/-- What a job in phase `p` needs. -/
structure Fits (judge : Judge Caller) (opened : Bool) (p : JobPhase) : Prop where
  awake : p.isAwake → judge.enabled
  connected : p.isValidating → opened
  uncleared : ∀ id ∈ p.requests, id ∉ judge.cleared

/-- Where `onEmpty` may take down what is there: no connection is open
and no job is past its test. -/
structure Still (opened : Bool) (jobs : List JobPhase) : Prop where
  closed : opened = false
  unchecked : ∀ p ∈ jobs, p.isPastCheck = false

structure Sound (s : ProxyValidator) : Prop where
  fits : ∀ p ∈ s.jobs, Fits s.judge s.connectionOpen p
  fresh : s.judge.Fresh
  still : ∀ r ∈ s.empties, r.threatens → Still s.connectionOpen s.jobs

theorem Sound.unharmed {s : ProxyValidator} (h : s.Sound) : s.Unharmed := by
  intro p hp hval
  have hfits := h.fits p hp
  exact ⟨hfits.awake (JobPhase.isAwake_of_validating hval), hfits.connected hval, hfits.uncleared⟩

/-- Before its window a job needs at most the judge. -/
theorem Fits.of_waking {judge : Judge Caller} {opened : Bool} {p : JobPhase}
    (hp : p.isValidating = false) (henabled : p.isAwake → judge.enabled) :
    Fits judge opened p := by
  refine ⟨henabled, ?_, ?_⟩
  · intro hv
    rw [hp] at hv
    cases hv
  · intro id hid
    rw [JobPhase.isValidating_of_requests hid] at hp
    cases hp

/-- A job in front of its test, or over, needs nothing. -/
theorem Fits.of_unchecked {judge : Judge Caller} {opened : Bool} {p : JobPhase}
    (h : p.isPastCheck = false) : Fits judge opened p := by
  have hawake : ¬p.isAwake := by
    intro hp
    rw [JobPhase.isPastCheck_of_awake hp] at h
    cases h
  refine .of_waking ?_ (fun hp => absurd hp hawake)
  cases hv : p.isValidating with
  | false => rfl
  | true => exact absurd (JobPhase.isAwake_of_validating hv) hawake

theorem Fits.of_noRequests {judge : Judge Caller} {opened : Bool} {p : JobPhase}
    (hp : p.requests = []) (henabled : judge.enabled) (hopen : opened) :
    Fits judge opened p := by
  refine ⟨fun _ => henabled, fun _ => hopen, ?_⟩
  rw [hp]
  intro id hid
  cases hid

theorem Still.sound {s : ProxyValidator} (h : Still s.connectionOpen s.jobs)
    (hfresh : s.judge.Fresh) : s.Sound :=
  ⟨fun p hp => .of_unchecked (h.unchecked p hp), hfresh, fun _ _ _ => h⟩

/-- While a job is past its test no `onEmpty` call threatens. -/
theorem Sound.unthreatened {s : ProxyValidator} (h : s.Sound) {p : JobPhase} (hp : p ∈ s.jobs)
    (hpast : p.isPastCheck) : ∀ r ∈ s.empties, r.threatens = false := by
  intro r hr
  cases ht : r.threatens with
  | false => rfl
  | true =>
      have hun := (h.still r hr ht).unchecked p hp
      rw [hpast] at hun
      cases hun

/-- The rule for a job that moves on. -/
theorem Sound.goto {s : ProxyValidator} (h : s.Sound) {j : Nat} {p : JobPhase}
    (hfits : Fits s.judge s.connectionOpen p)
    (hpast : p.isPastCheck → ∀ r ∈ s.empties, r.threatens = false) : (s.goto j p).Sound := by
  refine ⟨?_, h.fresh, ?_⟩
  · intro q hq
    rcases List.mem_or_eq_of_mem_set hq with hq | rfl
    · exact h.fits q hq
    · exact hfits
  · intro r hr ht
    refine ⟨(h.still r hr ht).closed, ?_⟩
    intro q hq
    rcases List.mem_or_eq_of_mem_set hq with hq | rfl
    · exact (h.still r hr ht).unchecked q hq
    · cases hq' : q.isPastCheck with
      | false => rfl
      | true =>
          have hun := hpast hq' r hr
          rw [ht] at hun
          cases hun

/-- The move to a phase that needs nothing. -/
theorem Sound.goto_unchecked {s : ProxyValidator} (h : s.Sound) (j : Nat) {p : JobPhase}
    (hp : p.isPastCheck = false) : (s.goto j p).Sound := by
  refine h.goto (.of_unchecked hp) ?_
  intro hpast
  rw [hp] at hpast
  cases hpast

/-- The rule for an `onEmpty` call that moves on. -/
theorem Sound.emptyGoto {s : ProxyValidator} (h : s.Sound) (k : Nat) {r : EmptyPhase}
    (hstill : r.threatens → Still s.connectionOpen s.jobs) : (s.emptyGoto k r).Sound := by
  refine ⟨h.fits, h.fresh, ?_⟩
  intro q hq ht
  rcases List.mem_or_eq_of_mem_set hq with hq | rfl
  · exact h.still q hq ht
  · exact hstill ht

/-! ## Steps of a job -/

theorem connectionOpen_setConnection (s : ProxyValidator) (j : Nat) :
    (s.setConnection j).connectionOpen = true := by
  simp [setConnection, connectionOpen, goto, ConnectionWrapper.isOpen]

theorem Sound.enable {s : ProxyValidator} (h : s.Sound) :
    Sound { s with judge := s.judge.enable } := by
  refine ⟨?_, h.fresh, h.still⟩
  intro p hp
  exact ⟨fun _ => rfl, (h.fits p hp).connected, (h.fits p hp).uncleared⟩

/-- Changes of the judge that the jobs do not see. -/
theorem Sound.setJudge {s : ProxyValidator} (h : s.Sound) {judge : Judge Caller}
    (henabled : judge.enabled = s.judge.enabled) (hcleared : judge.cleared = s.judge.cleared)
    (hfresh : judge.Fresh) : Sound { s with judge := judge } := by
  refine ⟨?_, hfresh, h.still⟩
  intro p hp
  refine ⟨fun ha => henabled.trans ((h.fits p hp).awake ha), (h.fits p hp).connected, ?_⟩
  rw [hcleared]
  exact (h.fits p hp).uncleared

theorem Sound.check {s : ProxyValidator} (h : s.Sound) (j : Nat)
    (hopens : s.judge.isEnabled → s.connectionOpen)
    (hsettled : s.judge.isEnabled = false → ∀ r ∈ s.empties, r.threatens = false) :
    (s.check j).Sound := by
  unfold ProxyValidator.check Judge.wakeup
  cases henabled : s.judge.isEnabled with
  | false =>
      have hlock : Sound
          { s with judge := { s.judge with lock := s.judge.lock.acquire (.wakeup j) } } :=
        h.setJudge rfl rfl h.fresh
      refine hlock.goto (.of_waking rfl ?_) (fun _ => hsettled henabled)
      intro ha
      cases ha
  | true =>
      have hopen := hopens henabled
      refine h.goto (.of_noRequests rfl henabled hopen) ?_
      intro _ r hr
      cases ht : r.threatens with
      | false => rfl
      | true =>
          have hclosed := (h.still r hr ht).closed
          rw [hopen] at hclosed
          cases hclosed

theorem Sound.setConnection {s : ProxyValidator} (h : s.Sound) (j : Nat)
    (henabled : s.judge.enabled) (hun : ∀ r ∈ s.empties, r.threatens = false) :
    (s.setConnection j).Sound := by
  have hopen := connectionOpen_setConnection s j
  -- the new connection may replace an open one, which stays open
  have hconn : Sound { s with conns := s.conns ++ [{}], connection := some s.conns.length } := by
    refine ⟨?_, h.fresh, ?_⟩
    · intro p hp
      exact ⟨(h.fits p hp).awake, fun _ => hopen, (h.fits p hp).uncleared⟩
    · intro r hr ht
      rw [hun r hr] at ht
      cases ht
  exact hconn.goto (.of_noRequests rfl henabled hopen) (fun _ => hun)

theorem handleRequests_eq (s : ProxyValidator) (j : Nat) :
    s.handleRequests j = { s with judge := (s.judge.createRequests variants).1 }.goto j
      (.requesting (s.judge.createRequests variants).2) := rfl

theorem Sound.handleRequests {s : ProxyValidator} (h : s.Sound) (j : Nat)
    (henabled : s.judge.enabled) (hopen : s.connectionOpen)
    (hun : ∀ r ∈ s.empties, r.threatens = false) : (s.handleRequests j).Sound := by
  have hjudge := h.setJudge (Judge.createRequests_enabled variants s.judge)
    (Judge.createRequests_cleared variants s.judge) h.fresh.createRequests
  rw [handleRequests_eq]
  refine hjudge.goto ⟨?_, fun _ => hopen, ?_⟩ (fun _ => hun)
  · intro _
    exact (Judge.createRequests_enabled variants s.judge).trans henabled
  · intro id hid
    dsimp only
    rw [Judge.createRequests_cleared]
    exact h.fresh.createRequests_notMem id hid

theorem Sound.store {s : ProxyValidator} (h : s.Sound) (options : ValidatorOptions) (j : Nat)
    (hasSuccess : Bool) (henabled : s.judge.enabled) (hopen : s.connectionOpen)
    (hun : ∀ r ∈ s.empties, r.threatens = false) : (s.store options j hasSuccess).Sound := by
  unfold ProxyValidator.store
  split
  · split
    · exact h.goto_unchecked j rfl
    · exact h.goto (.of_noRequests rfl henabled hopen) (fun _ => hun)
  · exact h.goto_unchecked j rfl

/-- A step of a job keeps the invariant, if its test is as it should be. -/
theorem Sound.stepJob {options : ValidatorOptions} {s s' : ProxyValidator} (h : s.Sound) {j : Nat}
    {p : JobPhase} {e : JobEvent} (hp : p ∈ s.jobs)
    (hopens : p = .checking → e = .checked → s.judge.isEnabled → s.connectionOpen)
    (hsettled : p = .checking → e = .checked →
      s.judge.isEnabled = false → ∀ r ∈ s.empties, r.threatens = false)
    (hstep : s.stepJob options j p e = some s') : s'.Sound := by
  have hfits := h.fits p hp
  have hun := h.unthreatened hp
  unfold ProxyValidator.stepJob at hstep
  split at hstep
  · -- start
    cases hstep
    exact h.goto_unchecked j rfl
  · -- progressing
    split at hstep
    · cases hstep
      exact h.goto_unchecked j rfl
    · cases hstep
  · -- the test
    cases hstep
    exact h.check j (hopens rfl rfl) (hsettled rfl rfl)
  · -- wakeup has the lock
    split at hstep
    · cases hstep
      exact h.enable.goto (.of_waking rfl (fun _ => rfl)) (fun _ => hun rfl)
    · cases hstep
  · -- wakeup releases it
    cases hstep
    have hlock : Sound { s with judge := s.judge.release } := h.setJudge rfl rfl h.fresh
    exact hlock.goto (.of_waking rfl hfits.awake) (fun _ => hun rfl)
  · -- connect is called
    cases hstep
    split
    · exact h.goto (.of_waking rfl hfits.awake) (fun _ => hun rfl)
    · exact h.goto_unchecked j rfl
  · cases hstep
    exact h.setConnection j (hfits.awake rfl) (hun rfl)
  · cases hstep
    exact h.goto_unchecked j rfl
  · cases hstep
    exact h.handleRequests j (hfits.awake rfl) (hfits.connected rfl) (hun rfl)
  · cases hstep
    exact h.goto_unchecked j rfl
  · -- an answer
    rename_i ids id
    split at hstep
    · cases hstep
      have hcache : Sound { s with judge := s.judge.removeFromCache id } :=
        h.setJudge rfl rfl (h.fresh.removeFromCache id)
      refine hcache.goto ⟨fun _ => hfits.awake rfl, fun _ => hfits.connected rfl, ?_⟩
        (fun _ => hun rfl)
      intro i hi
      exact hfits.uncleared i (List.mem_of_mem_erase hi)
    · cases hstep
  · cases hstep
    exact h.store options j _ (hfits.awake rfl) (hfits.connected rfl) (hun rfl)
  · cases hstep
    exact h.goto_unchecked j rfl
  · cases hstep
    exact h.goto_unchecked j rfl
  · cases hstep

/-! ## Steps of `onEmpty` -/

theorem connectionOpen_closeConnection {s : ProxyValidator} {c : Nat}
    (h : s.connection = some c) : (s.closeConnection c).connectionOpen = false := by
  have hconn : (s.closeConnection c).connection = some c := h
  unfold connectionOpen
  rw [hconn]
  cases hw : s.conns[c]? with
  | none => simp [closeConnection, hw]
  | some w => simp [closeConnection, hw, ConnectionWrapper.isOpen]

/-- With everything at rest an `onEmpty` call may be anywhere. -/
theorem Still.emptyGoto {s : ProxyValidator} (h : Still s.connectionOpen s.jobs)
    (hfresh : s.judge.Fresh) (k : Nat) (r : EmptyPhase) : (s.emptyGoto k r).Sound :=
  (h.sound hfresh).emptyGoto k (fun _ => h)

/-- What follows the close, with everything at rest. -/
theorem Still.stopJudge {s : ProxyValidator} (h : Still s.connectionOpen s.jobs)
    (hfresh : s.judge.Fresh) (k : Nat) : (s.stopJudge k).Sound := by
  unfold ProxyValidator.stopJudge
  split
  · split
    · exact h.emptyGoto hfresh k _
    · rename_i judge hjudge
      refine Still.emptyGoto ?_ ?_ k _
      · exact h
      · exact hfresh.pending hjudge
  · refine Still.emptyGoto ?_ ?_ k _
    · exact h
    · exact hfresh

theorem Sound.onEmpty {s : ProxyValidator} (h : s.Sound) (hidle : s.idle) : s.onEmpty.Sound := by
  have hunchecked : ∀ p ∈ s.jobs, p.isPastCheck = false := by
    intro p hp
    exact JobPhase.isOver_not_pastCheck (List.all_eq_true.mp hidle p hp)
  unfold ProxyValidator.onEmpty
  dsimp only
  split
  · rename_i c hconn
    exact Still.sound ⟨connectionOpen_closeConnection hconn, hunchecked⟩ h.fresh
  · rename_i hconn
    refine Still.stopJudge ⟨?_, ?_⟩ ?_ _
    · simp [connectionOpen, hconn]
    · exact hunchecked
    · exact h.fresh

theorem Sound.stepEmpty {s s' : ProxyValidator} (h : s.Sound) {k : Nat} {r : EmptyPhase}
    {e : EmptyEvent} (hr : r ∈ s.empties) (hstep : s.stepEmpty k r e = some s') : s'.Sound := by
  have hstill := h.still r hr
  unfold ProxyValidator.stepEmpty at hstep
  split at hstep
  · -- the connection is closed
    cases hstep
    refine Still.stopJudge ⟨?_, ?_⟩ ?_ k
    · rfl
    · exact (hstill rfl).unchecked
    · exact h.fresh
  · -- close has failed
    cases hstep
    exact (hstill rfl).emptyGoto h.fresh k _
  · -- pending has the lock
    split at hstep
    · cases hstep
      refine Still.emptyGoto ?_ ?_ k _
      · exact hstill rfl
      · exact h.fresh
    · cases hstep
  · -- pending releases it
    cases hstep
    have hlock : Sound { s with judge := s.judge.release } := h.setJudge rfl rfl h.fresh
    refine hlock.emptyGoto k ?_
    intro ht
    cases ht
  · -- the end
    cases hstep
    have hflag : Sound { s with isEmpty := true } := ⟨h.fits, h.fresh, h.still⟩
    refine hflag.emptyGoto k ?_
    intro ht
    cases ht
  · cases hstep

/-! ## Runs -/

theorem sound_initial : Sound {} := by
  refine Still.sound ⟨rfl, ?_⟩ ?_
  · intro p hp
    cases hp
  · intro id hid
    cases hid

theorem Sound.push {s : ProxyValidator} (h : s.Sound) : s.push.Sound := by
  refine ⟨?_, h.fresh, ?_⟩
  · intro p hp
    rcases List.mem_append.mp hp with hp | hp
    · exact h.fits p hp
    · rw [List.mem_singleton.mp hp]
      exact .of_unchecked rfl
  · intro r hr ht
    refine ⟨(h.still r hr ht).closed, ?_⟩
    intro p hp
    rcases List.mem_append.mp hp with hp | hp
    · exact (h.still r hr ht).unchecked p hp
    · rw [List.mem_singleton.mp hp]
      rfl

/-- **Step lemma**: with its tests as they should be, every step keeps
the invariant. -/
theorem Sound.step {options : ValidatorOptions} {s s' : ProxyValidator} {a : ValidatorAction}
    (h : s.Sound) (hok : s.Opens a ∧ s.Settled a) (hstep : step options s a = some s') :
    s'.Sound := by
  cases a with
  | push =>
      cases hstep
      exact h.push
  | job j e =>
      obtain ⟨p, hp, hjob⟩ := Option.bind_eq_some_iff.mp hstep
      have hchecks : p = .checking → e = .checked → s.checks (.job j e) := by
        intro hchecking hchecked
        subst hchecking hchecked
        exact decide_eq_true hp
      exact h.stepJob (List.mem_of_getElem? hp) (fun hc he => hok.1 (hchecks hc he))
        (fun hc he => hok.2 (hchecks hc he)) hjob
  | onEmpty =>
      change (if s.idle then some s.onEmpty else none) = some s' at hstep
      split at hstep
      · rename_i hidle
        cases hstep
        exact h.onEmpty hidle
      · cases hstep
  | empty k e =>
      obtain ⟨r, hr, hempty⟩ := Option.bind_eq_some_iff.mp hstep
      exact h.stepEmpty (List.mem_of_getElem? hr) hempty

/-- A test that lets a job in without an open connection harms it at
once. -/
theorem opens_of_unharmed {options : ValidatorOptions} {s s' : ProxyValidator}
    {a : ValidatorAction} (h : s'.Unharmed) (hstep : step options s a = some s') : s.Opens a := by
  intro hchecks henabled
  cases a with
  | job j e =>
      cases e with
      | checked =>
          have hp : s.jobs[j]? = some .checking := of_decide_eq_true hchecks
          obtain ⟨hlt, -⟩ := List.getElem?_eq_some_iff.mp hp
          have hs' : s' = s.goto j .looking := by
            simp only [step, hp, Option.bind_some, stepJob, Option.some.injEq] at hstep
            rw [← hstep, ProxyValidator.check, henabled]
            rfl
          have hmem : .looking ∈ s'.jobs := by
            rw [hs']
            exact List.mem_set hlt .looking
          have hopen := (h .looking hmem rfl).2.1
          rw [hs'] at hopen
          exact hopen
      | _ => cases hchecks
  | _ => cases hchecks

/-- **When validations keep judge and connection.** Let every test that
finds the judge enabled find the connection open, and every test that
finds it disabled find no `onEmpty` call with its `disable` before it:
then no validation is harmed, in any state of the run. The first half is
also necessary. -/
theorem validations_kept (options : ValidatorOptions) {as : List ValidatorAction}
    {t : ProxyValidator} (hrun : (machine options).run {} as = some t) :
    ((machine options).Along (fun s a => s.Opens a ∧ s.Settled a) {} as →
        (machine options).Always Unharmed {} as) ∧
      ((machine options).Always Unharmed {} as → (machine options).Along Opens {} as) := by
  constructor
  · intro hok
    exact (machine options).always_of_along (fun _ _ _ hs hok hstep => hs.step hok hstep)
      (fun _ hs => hs.unharmed) sound_initial hok
  · intro hall
    exact (machine options).along_of_always (fun _ _ _ _ h hstep => opens_of_unharmed h hstep)
      hrun hall

/-- A job from its push to the end of `store`; its requests are `id` and
the next three. -/
def wholeJob (j id : Nat) : List ValidatorAction :=
  [.push, .job j .start, .job j .progressed, .job j .checked, .job j .acquired, .job j .settled,
    .job j .resumed, .job j .connected, .job j .lookedUp, .job j (.answered id),
    .job j (.answered (id + 1)), .job j (.answered (id + 2)), .job j (.answered (id + 3)),
    .job j (.validated true), .job j .stored]

/-- One job, `onEmpty` from start to end, and another job. -/
def calmRun : List ValidatorAction :=
  wholeJob 0 0 ++ [.onEmpty, .empty 0 .closed, .empty 0 .acquired, .empty 0 .settled,
    .empty 0 .resumed] ++ wholeJob 1 4

theorem validations_kept_calm : (machine {}).Always Unharmed {} calmRun := by
  have hrun : ((machine {}).run {} calmRun).isSome = true := by decide
  exact (validations_kept {} (Option.some_get hrun).symm).1 (by decide)

/-- The second job tests the flag while `onEmpty` closes the connection. -/
def lateRun : List ValidatorAction :=
  wholeJob 0 0 ++ [.onEmpty, .push, .job 1 .start, .job 1 .progressed, .job 1 .checked,
    .job 1 .lookedUp, .empty 0 .closed, .empty 0 .acquired]

/-- It ends up with no connection, a disabled judge and its requests
cleared. -/
theorem not_validations_kept :
    ¬ ∀ options as t, (machine options).run {} as = some t → t.Unharmed := by
  intro h
  have hrun : ((machine {}).run {} lateRun).isSome = true := by decide
  have hharm : ∀ hsome, ¬(((machine {}).run {} lateRun).get hsome).Unharmed := by decide
  exact hharm hrun (h {} lateRun _ (Option.some_get hrun).symm)

end ProxyValidator

end Proxy

end ProxyBroker
