/-
ProxyBroker.Proxy.ConnectionTheorems — what becomes of the storage
connections of the validator.

`do` opens a connection into one field whenever its own test found the
judge disabled, and `onEmpty` closes what the field holds. Jobs that take
the test before the judge is awake all open one, and the last of them is
the only one that is ever closed. `onEmpty` closes by the field but
clears it only after the close: a connection that comes in between is
forgotten, and one whose close failed, or a second `onEmpty` finds not
yet cleared, is closed again.

The validator's connections are a `Slot`; `step_slot` says which
operation a step is. `connections_held_iff` has the exact condition on
the steps of a run.
-/
import ProxyBroker.Lib.Slot
import ProxyBroker.Proxy.ProxyValidator

namespace ProxyBroker

open Lib

namespace Proxy

namespace ProxyValidator

/-- The connections on their own. -/
def slot (s : ProxyValidator) : Slot where
  closes := s.conns.map (·.closeCalls)
  current := s.connection

/-- What an action does to the connections, when it is taken. -/
def slotOp : ValidatorAction → Option SlotOp
  | .job _ .connected => some .fill
  | .onEmpty => some .close
  | .empty _ .closed => some .clear
  | _ => none

/-- A connection comes in while no other is open; `onEmpty` is called
while the connection of the field is open, or there is none; and when its
close is done, the field holds no open one. -/
def Careful (s : ProxyValidator) (a : ValidatorAction) : Prop :=
  ∀ op ∈ slotOp a, s.slot.Careful op

instance (s : ProxyValidator) (a : ValidatorAction) : Decidable (s.Careful a) :=
  inferInstanceAs (Decidable (∀ op ∈ slotOp a, s.slot.Careful op))

/-! ## Steps and the connections -/

theorem slot_check (s : ProxyValidator) (j : Nat) : (s.check j).slot = s.slot := by
  unfold ProxyValidator.check
  split
  · split <;> rfl
  · rfl

theorem slot_store (options : ValidatorOptions) (s : ProxyValidator) (j : Nat) (ok : Bool) :
    (s.store options j ok).slot = s.slot := by
  unfold ProxyValidator.store
  split
  · split <;> rfl
  · rfl

theorem slot_stopJudge (s : ProxyValidator) (k : Nat) : (s.stopJudge k).slot = s.slot := by
  unfold stopJudge
  split
  · split <;> rfl
  · rfl

theorem slot_setConnection (s : ProxyValidator) (j : Nat) :
    (s.setConnection j).slot = s.slot.fill := by
  simp [setConnection, slot, goto, Slot.fill]

theorem slot_onEmpty (s : ProxyValidator) : s.onEmpty.slot = s.slot.close := by
  unfold onEmpty
  cases hc : s.connection with
  | none =>
      change (stopJudge _ _).slot = _
      rw [slot_stopJudge]
      simp [slot, Slot.close, hc]
  | some c =>
      have hcloses : (s.conns.modify c (fun w => { w with closeCalls := w.closeCalls + 1 })).map
          (·.closeCalls) = (s.conns.map (·.closeCalls)).modify c (· + 1) := by
        apply List.ext_getElem?
        intro i
        rw [List.getElem?_map, List.getElem?_modify, List.getElem?_modify, List.getElem?_map]
        cases s.conns[i]? with
        | none => rfl
        | some w =>
            simp only [Option.map_some]
            split <;> rfl
      simp [closeConnection, slot, Slot.close, hc, hcloses]

/-- A job changes the connections only with its own. -/
theorem slot_stepJob {options : ValidatorOptions} {s s' : ProxyValidator} {j : Nat} {p : JobPhase}
    {e : JobEvent} (h : s.stepJob options j p e = some s') :
    s'.slot = (slotOp (.job j e)).elim s.slot s.slot.apply := by
  unfold stepJob at h
  split at h
  all_goals first | cases h | (split at h <;> cases h)
  all_goals
    first
      | exact slot_check s j
      | exact slot_setConnection s j
      | exact slot_store options s j _
      | rfl

theorem slot_stepEmpty {s s' : ProxyValidator} {k : Nat} {p : EmptyPhase} {e : EmptyEvent}
    (h : s.stepEmpty k p e = some s') :
    s'.slot = (slotOp (.empty k e)).elim s.slot s.slot.apply := by
  unfold stepEmpty at h
  split at h
  · cases h
    exact slot_stopJudge _ k
  · cases h
    rfl
  · split at h <;> cases h
    rfl
  · cases h
    rfl
  · cases h
    rfl
  · cases h

/-- **Which operation a step is.** -/
theorem step_slot {options : ValidatorOptions} {s s' : ProxyValidator} {a : ValidatorAction}
    (h : step options s a = some s') : s'.slot = (slotOp a).elim s.slot s.slot.apply := by
  cases a with
  | push =>
      cases h
      rfl
  | job j e =>
      obtain ⟨p, -, hjob⟩ := Option.bind_eq_some_iff.mp h
      exact slot_stepJob hjob
  | onEmpty =>
      change (if s.idle then some s.onEmpty else none) = some s' at h
      split at h
      · cases h
        exact slot_onEmpty s
      · cases h
  | empty k e =>
      obtain ⟨p, -, hempty⟩ := Option.bind_eq_some_iff.mp h
      exact slot_stepEmpty hempty

theorem filed_step {options : ValidatorOptions} {s s' : ProxyValidator} {a : ValidatorAction}
    (hs : s.slot.Filed) (h : step options s a = some s') : s'.slot.Filed := by
  rw [step_slot h]
  cases slotOp a with
  | none => exact hs
  | some op => exact hs.apply op

/-- The exact guard, for a step. -/
theorem held_step_iff {options : ValidatorOptions} {s s' : ProxyValidator} {a : ValidatorAction}
    (hfiled : s.slot.Filed) (hs : s.slot.Held) (h : step options s a = some s') :
    s'.slot.Held ↔ s.Careful a := by
  rw [step_slot h]
  unfold Careful
  cases slotOp a with
  | none => simpa using hs
  | some op => simpa using Slot.held_apply_iff hfiled hs op

theorem lost_step {options : ValidatorOptions} {s s' : ProxyValidator} {a : ValidatorAction}
    {c : Nat} (hs : s.slot.Lost c) (h : step options s a = some s') : s'.slot.Lost c := by
  rw [step_slot h]
  cases slotOp a with
  | none => exact hs
  | some op => exact hs.apply op

/-! ## Runs -/

theorem filed_initial : ({} : ProxyValidator).slot.Filed := by
  intro c hc
  cases hc

theorem held_initial : ({} : ProxyValidator).slot.Held := by
  apply Slot.Held.of_kept
  · intro n hn
    cases hn
  · intro c hc
    cases hc

/-- In the runs whose steps are all careful, and in no others, nothing is
leaked at any moment. -/
theorem always_held_iff {options : ValidatorOptions} {as : List ValidatorAction}
    {t : ProxyValidator} (hrun : (machine options).run {} as = some t) :
    (machine options).Always (fun s => s.slot.Held) {} as ↔
      (machine options).Along Careful {} as := by
  have hkeep : ∀ s a s', s.slot.Filed ∧ s.slot.Held → True → s.Careful a →
      step options s a = some s' → s'.slot.Filed ∧ s'.slot.Held := by
    intro s a s' hs _ hok hstep
    exact ⟨filed_step hs.1 hstep, (held_step_iff hs.1 hs.2 hstep).mpr hok⟩
  have hbreak : ∀ s a s', s.slot.Filed ∧ s.slot.Held → True →
      step options s a = some s' → s'.slot.Held → s.Careful a := by
    intro s a s' hs _ hstep hheld
    exact (held_step_iff hs.1 hs.2 hstep).mp hheld
  exact (machine options).always_iff_along_of_inv hkeep (fun s hs => hs.2) hbreak
    ⟨filed_initial, held_initial⟩ (machine options).along_true hrun

/-- A call of `onEmpty` that keeps `Held` leaves no connection open. -/
theorem allClosed_of_onEmpty {options : ValidatorOptions} {as : List ValidatorAction}
    {t : ProxyValidator} (hok : (machine options).Along Careful {} (as ++ [.onEmpty]))
    (hrun : (machine options).run {} (as ++ [.onEmpty]) = some t) : t.slot.AllClosed := by
  have hafter : t.slot.Held := ((always_held_iff hrun).mpr hok).of_run _ hrun
  rw [Machine.run_append] at hrun
  obtain ⟨s, hs, hstep⟩ := Option.bind_eq_some_iff.mp hrun
  rw [Machine.run_singleton] at hstep
  change step options s .onEmpty = some t at hstep
  have hbefore := ((machine options).along_append.mp hok).1
  have hheld : s.slot.Held := ((always_held_iff hs).mpr hbefore).of_run _ hs
  have hslot : t.slot = s.slot.close := step_slot hstep
  rw [hslot] at hafter ⊢
  exact hheld.allClosed_close hafter

/-- **When connections are not leaked.** In the runs whose steps are all
careful, and in no others, there is at every moment one open connection
at most, the one in the field, and none was closed twice. In these runs
every call of `onEmpty` leaves every connection closed, exactly once. In
the others a connection that is open and not in the field stays open,
whatever happens. -/
theorem connections_held_iff (options : ValidatorOptions) {as : List ValidatorAction}
    {t : ProxyValidator} (hrun : (machine options).run {} as = some t) :
    ((machine options).Always (fun s => s.slot.Held) {} as ↔
        (machine options).Along Careful {} as) ∧
      ((machine options).Along Careful {} as → ∀ bs cs u, as = bs ++ [.onEmpty] ++ cs →
        (machine options).run {} (bs ++ [.onEmpty]) = some u → u.slot.AllClosed) ∧
      (∀ bs cs u c, as = bs ++ cs → (machine options).run {} bs = some u → u.slot.Lost c →
        t.slot.Lost c) := by
  refine ⟨always_held_iff hrun, ?_, ?_⟩
  · rintro hok bs cs u rfl hu
    exact allClosed_of_onEmpty ((machine options).along_append.mp hok).1 hu
  · rintro bs cs u c rfl hu hlost
    rw [Machine.run_append, hu] at hrun
    exact (machine options).run_invariant (fun s a s' hs hstep => lost_step hs hstep) hlost hrun

/-- A job up to the moment it has called `connect`. -/
def toConnect (j : Nat) : List ValidatorAction :=
  [.job j .acquired, .job j .settled, .job j .resumed]

/-- A job behind its connection; its requests are `id` and the next
three. -/
def fromConnect (j id : Nat) : List ValidatorAction :=
  [.job j .connected, .job j .lookedUp, .job j (.answered id), .job j (.answered (id + 1)),
    .job j (.answered (id + 2)), .job j (.answered (id + 3)), .job j (.validated true),
    .job j .stored]

/-- Two pushes; one job runs before `onEmpty`, the other behind it. -/
def oneByOne : List ValidatorAction :=
  [.push, .job 0 .start, .job 0 .progressed, .job 0 .checked] ++ toConnect 0 ++ fromConnect 0 0 ++
    [.onEmpty, .empty 0 .closed, .empty 0 .acquired, .empty 0 .settled, .empty 0 .resumed] ++
    [.push, .job 1 .start, .job 1 .progressed, .job 1 .checked] ++ toConnect 1 ++
    fromConnect 1 4 ++ [.onEmpty]

theorem connections_held_oneByOne :
    (machine {}).Always (fun s => s.slot.Held) {} oneByOne := by
  have hrun : ((machine {}).run {} oneByOne).isSome = true := by decide
  exact (connections_held_iff {} (Option.some_get hrun).symm).1.mpr (by decide)

/-- Both jobs test the flag before either has the lock. -/
def bothAsleep : List ValidatorAction :=
  [.push, .push, .job 0 .start, .job 1 .start, .job 0 .progressed, .job 1 .progressed,
    .job 0 .checked, .job 1 .checked] ++ toConnect 0 ++ toConnect 1 ++ fromConnect 0 0 ++
    fromConnect 1 4 ++ [.onEmpty]

/-- Two connections were open at a time, and the first stays open behind
`onEmpty`. -/
theorem not_connections_held :
    ¬ ∀ options as t, (machine options).run {} as = some t →
      t.slot.Held ∧ (as.getLast? = some .onEmpty → t.slot.AllClosed) := by
  intro h
  have hrun : ((machine {}).run {} bothAsleep).isSome = true := by decide
  have hopen : ∀ hsome, ¬(((machine {}).run {} bothAsleep).get hsome).slot.AllClosed := by decide
  exact hopen hrun ((h {} bothAsleep _ (Option.some_get hrun).symm).2 (by decide))

end ProxyValidator

end Proxy

end ProxyBroker
