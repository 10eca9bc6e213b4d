/-
ProxyBroker.Proxy.StreakTheorems — the counters behind `store` calls made
one behind the other for an address that was not stored.

`streakOf` folds the verdicts of the calls; `streakOf_eq` says what it is:
the lengths of the longest suffix of calls with an enabled variant and of
the longest one without, each with the time of its first call.
`streak_chain` is the joint invariant of the row and the state table, and
`streaks_of_run` its statement for every run.
-/
import Mathlib.Data.List.DropRight
import ProxyBroker.Proxy.StoreAloneTheorems

namespace ProxyBroker.Proxy.Storage

open Lib Server

/-- The call has an enabled variant. -/
def StoreCall.enabled (c : StoreCall) : Bool := c.data.results.any hasEnabled

/-- The longest suffix of calls with the verdict. -/
def suffix (enabled : Bool) (calls : List StoreCall) : List StoreCall :=
  calls.rtakeWhile (fun c => c.enabled == enabled)

/-- The verdicts of the calls, counted one behind the other. -/
def streakOf (calls : List StoreCall) : Streak := calls.foldl (fun st c => c.after st) {}

section

variable {calls : List StoreCall} {c : StoreCall} {enabled : Bool}

theorem suffix_concat_pos (h : c.enabled = enabled) :
    suffix enabled (calls ++ [c]) = suffix enabled calls ++ [c] :=
  List.rtakeWhile_concat_pos _ _ _ (by simp [h])

theorem suffix_concat_neg (h : c.enabled ≠ enabled) : suffix enabled (calls ++ [c]) = [] :=
  List.rtakeWhile_concat_neg _ _ _ (by simp [h])

theorem after_eq (h : c.data.results.isSome = true) (st : Streak) :
    c.after st = Streak.count c.enabled c.now st := by
  obtain ⟨results, hresults⟩ := Option.isSome_iff_exists.mp h
  simp [StoreCall.after, StoreCall.update, StoreCall.enabled, hresults]

/-- The time of the first call of a suffix that one more call makes
longer. -/
theorem head_now_concat (l : List StoreCall) (c : StoreCall) :
    ((l ++ [c]).head?).map (·.now) = some (((l.head?).map (·.now)).getD c.now) := by
  cases l <;> rfl

/-- **Streaks**: what the counters and since dates are. -/
theorem streakOf_eq (h : ∀ c ∈ calls, c.data.results.isSome = true) :
    streakOf calls =
      { countSuccess := (suffix true calls).length
        countErrors := (suffix false calls).length
        successSinceAt := ((suffix true calls).head?).map (·.now)
        errorsSinceAt := ((suffix false calls).head?).map (·.now) } := by
  induction calls using List.reverseRecOn with
  | nil => rfl
  | append_singleton calls c ih =>
      have hstep : streakOf (calls ++ [c]) = c.after (streakOf calls) := by simp [streakOf]
      rw [hstep, after_eq (h c (by simp)), ih (fun d hd => h d (by simp [hd]))]
      cases henabled : c.enabled with
      | true =>
          rw [suffix_concat_pos henabled, suffix_concat_neg (by simp [henabled]), head_now_concat]
          simp [Streak.count]
      | false =>
          rw [suffix_concat_pos henabled, suffix_concat_neg (by simp [henabled]), head_now_concat]
          simp [Streak.count]

/-- Of the two suffixes of some calls one is empty and one is not. -/
theorem suffix_exclusive (h : calls ≠ []) :
    ((suffix true calls).length = 0 ∧ (suffix false calls).length ≠ 0) ∨
      ((suffix true calls).length ≠ 0 ∧ (suffix false calls).length = 0) := by
  obtain ⟨init, c, rfl⟩ := List.eq_nil_or_concat' calls |>.resolve_left h
  cases henabled : c.enabled with
  | true =>
      rw [suffix_concat_pos henabled, suffix_concat_neg (by simp [henabled])]
      simp
  | false =>
      rw [suffix_concat_pos henabled, suffix_concat_neg (by simp [henabled])]
      simp

end

namespace Store

/-- The row and the state table behind the calls. -/
structure Counted (ip : Text) (port : Nat) (calls : List StoreCall) (db : Database) : Prop where
  consistent : Consistent db ip port
  results : ∀ c ∈ calls, c.data.results.isSome = true
  fresh : calls = [] → db.findAddr ip port = none
  row : calls ≠ [] → ∃ a, db.findAddr ip port = some a ∧ a.validationId = calls.length ∧
    a.streak = streakOf calls ∧ ∀ c ∈ calls.getLast?, (db.joined a).Perm (c.built a)

/-- What a call starts from, behind the others. -/
theorem Counted.entered {ip : Text} {port : Nat} {calls : List StoreCall} {db : Database}
    (h : Counted ip port calls db) {data : ProxyData} (hip : data.ip = ip)
    (hport : data.port = port) (now : Nat) :
    (entered db data now).validationId = calls.length + 1 ∧
      (entered db data now).streak = streakOf calls := by
  by_cases hnil : calls = []
  · have hfind := h.fresh hnil
    simp [Store.entered, hip, hport, hfind, hnil, IpAddr.streak, streakOf]
  · obtain ⟨a, hfind, hv, hstreak, -⟩ := h.row hnil
    rw [← hstreak]
    simp [Store.entered, hip, hport, hfind, hv, IpAddr.streak]

/-- **Call lemma**: one more call. -/
theorem Counted.ended {ip : Text} {port : Nat} {calls : List StoreCall} {db0 db : Database}
    {c : StoreCall} {a : IpAddr} (h : Counted ip port calls db0) (hfor : For ip port c)
    (hended : Ended db0 c a db) : Counted ip port (calls ++ [c]) db := by
  obtain ⟨hip, hport, hresults⟩ := hfor
  obtain ⟨hv, hstreak⟩ := h.entered hip hport c.now
  subst hip hport
  refine ⟨hended.consistent h.consistent, ?_, by simp, ?_⟩
  · intro d hd
    rcases List.mem_append.mp hd with hd | hd
    · exact h.results d hd
    · rw [List.mem_singleton.mp hd]
      exact hresults
  · intro _
    refine ⟨a, hended.found, ?_, ?_, ?_⟩
    · rw [hended.validationId, hv]
      simp
    · rw [hended.streak, hstreak]
      simp [streakOf]
    · intro d hd
      simp only [List.getLast?_concat, Option.mem_def, Option.some.injEq] at hd
      subst hd
      exact hended.joined_perm h.consistent

/-- The calls of `store`, in their order. -/
def storeCalls (calls : List StoreCall) : List StoreCall :=
  calls.filter (fun c => decide (c.stage ≠ .skipped))

theorem streak_chain (ip : Text) (port : Nat) :
    Chain ip port (fun calls db => Counted ip port (storeCalls calls) db) where
  wf _ _ h := h.consistent.wf
  ended calls db0 c a db h hfor hstage hended := by
    have heq : storeCalls (calls ++ [c]) = storeCalls calls ++ [c] := by
      simp [storeCalls, hstage]
    rw [heq]
    exact h.ended hfor hended
  skipped calls db c h hfor hstage := by
    have heq : storeCalls (calls ++ [c]) = storeCalls calls := by
      simp [storeCalls, hstage]
    rw [heq]
    exact h

/-- What the streak bookkeeping of the calls comes to. -/
structure Bookkept (calls : List StoreCall) (a : IpAddr) (db : Database) : Prop where
  validationId : a.validationId = calls.length
  countSuccess : a.countSuccess = (suffix true calls).length
  countErrors : a.countErrors = (suffix false calls).length
  exclusive : (a.countSuccess = 0 ∧ a.countErrors ≠ 0) ∨ (a.countSuccess ≠ 0 ∧ a.countErrors = 0)
  successSinceAt : a.successSinceAt = ((suffix true calls).head?).map (·.now)
  errorsSinceAt : a.errorsSinceAt = ((suffix false calls).head?).map (·.now)
  states : ∀ c ∈ calls.getLast?, (db.joined a).Perm (c.built a)

/-- **Streak bookkeeping**: behind every sequence of `store` calls made
one behind the other for an address that was not stored. -/
theorem streaks_of_run {options : ValidatorOptions} {ip : Text} {port : Nat} {s t : Store}
    {as : List StoreAction} (hdb : Consistent s.db ip port)
    (hnew : s.db.findAddr ip port = none) (hidle : s.calls = [])
    (has : (machine options).Along (Sequential ip port) s as)
    (h : (machine options).run s as = some t) (hover : ∀ c ∈ t.calls, isOver c.stage = true)
    (hcalled : storeCalls t.calls ≠ []) :
    ∃ a, t.db.findAddr ip port = some a ∧ Bookkept (storeCalls t.calls) a t.db := by
  have h0 : Counted ip port (storeCalls []) s.db :=
    ⟨hdb, by simp [storeCalls], fun _ => hnew, fun hne => absurd rfl hne⟩
  have hcounted := (streak_chain ip port).run hidle h0 has h hover
  obtain ⟨a, hfind, hv, hstreak, hstates⟩ := hcounted.row hcalled
  rw [streakOf_eq hcounted.results] at hstreak
  simp only [IpAddr.streak, Streak.mk.injEq] at hstreak
  obtain ⟨hsuccess, herrors, hsuccessSince, herrorsSince⟩ := hstreak
  refine ⟨a, hfind, hv, hsuccess, herrors, ?_, hsuccessSince, herrorsSince, hstates⟩
  rw [hsuccess, herrors]
  exact suffix_exclusive hcalled

/-- A success and then a failure. -/
def successFailure : List StoreAction :=
  .store (knownData working) :: alone 0 ++ [.tick 3, .store (knownData broken)] ++ alone 1

theorem consistent_empty (ip : Text) (port : Nat) : Consistent {} ip port :=
  ⟨Database.wf_empty, by simp, by simp⟩

theorem streaks_of_successFailure :
    ∃ a, (((machine {}).run {} successFailure).getD {}).db.findAddr ['x'] 80 = some a ∧
      Bookkept (storeCalls (((machine {}).run {} successFailure).getD {}).calls) a
        (((machine {}).run {} successFailure).getD {}).db := by
  have hrun : (machine {}).run {} successFailure =
      some (((machine {}).run {} successFailure).getD {}) := by decide
  exact streaks_of_run (consistent_empty _ _) rfl rfl (by decide) hrun (by decide) (by decide)

end Store

end ProxyBroker.Proxy.Storage
