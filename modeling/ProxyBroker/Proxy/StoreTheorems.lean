/-
ProxyBroker.Proxy.StoreTheorems — what one operation of a `store` call
does, said once: `step_next` inverts a step of `Store.machine` that moves
a call.

In front of it the facts about the entity: `buildStates` changes only its
protocols, and `count` only its streaks.
-/
import ProxyBroker.Proxy.StorageTheorems

namespace ProxyBroker.Proxy.Storage

/-! ## Entities -/

/-- The counters and since dates of an address. -/
structure Streak where
  countSuccess : Nat := 0
  countErrors : Nat := 0
  successSinceAt : Option Nat := none
  errorsSinceAt : Option Nat := none
  deriving DecidableEq, Repr

/-- One more verdict. -/
def Streak.count (enabled : Bool) (now : Nat) (s : Streak) : Streak :=
  if enabled then ⟨s.countSuccess + 1, 0, some (s.successSinceAt.getD now), none⟩
  else ⟨0, s.countErrors + 1, none, some (s.errorsSinceAt.getD now)⟩

def IpAddr.streak (a : IpAddr) : Streak :=
  ⟨a.countSuccess, a.countErrors, a.successSinceAt, a.errorsSinceAt⟩

section

variable {addr : IpAddr} {results : List JudgeResult} {enabled : Bool} {now : Nat}

@[simp] theorem streak_count : (addr.count enabled now).streak = addr.streak.count enabled now := by
  cases enabled <;> rfl

@[simp] theorem count_id : (addr.count enabled now).id = addr.id := by cases enabled <;> rfl

@[simp] theorem count_key : (addr.count enabled now).key = addr.key := by cases enabled <;> rfl

@[simp] theorem count_validationId :
    (addr.count enabled now).validationId = addr.validationId := by cases enabled <;> rfl

@[simp] theorem count_lastCheckedAt :
    (addr.count enabled now).lastCheckedAt = addr.lastCheckedAt := by cases enabled <;> rfl

/-- Two entities differ in their protocols at most. -/
structure SameButProtocols (a b : IpAddr) : Prop where
  id_eq : a.id = b.id
  key_eq : a.key = b.key
  validationId_eq : a.validationId = b.validationId
  lastCheckedAt_eq : a.lastCheckedAt = b.lastCheckedAt
  streak_eq : a.streak = b.streak

theorem SameButProtocols.refl (a : IpAddr) : SameButProtocols a a := ⟨rfl, rfl, rfl, rfl, rfl⟩

theorem SameButProtocols.trans {a b c : IpAddr} (h : SameButProtocols a b)
    (h' : SameButProtocols b c) : SameButProtocols a c :=
  ⟨h.id_eq.trans h'.id_eq, h.key_eq.trans h'.key_eq,
    h.validationId_eq.trans h'.validationId_eq, h.lastCheckedAt_eq.trans h'.lastCheckedAt_eq,
    h.streak_eq.trans h'.streak_eq⟩

/-- The state of a result, by what it takes from the address. -/
theorem buildState_congr {a b : IpAddr} (h : SameButProtocols a b) (result : JudgeResult) :
    (buildState a result).1 = (buildState b result).1 := by
  simp [buildState, h.id_eq, h.validationId_eq]

theorem buildState_addr (result : JudgeResult) :
    SameButProtocols (buildState addr result).2 addr := by
  simp only [buildState]
  split
  · exact ⟨rfl, rfl, rfl, rfl, rfl⟩
  · exact .refl addr

theorem buildStates_addr : SameButProtocols (buildStates addr results).2.1 addr := by
  induction results generalizing addr with
  | nil => exact .refl addr
  | cons result results ih => exact ih.trans (buildState_addr result)

theorem buildStates_states :
    (buildStates addr results).1 = results.map (fun r => (buildState addr r).1) := by
  induction results generalizing addr with
  | nil => rfl
  | cons result results ih =>
      simp only [buildStates, ih, List.map_cons, List.cons.injEq, true_and]
      exact List.map_congr_left (fun r _ => buildState_congr (buildState_addr result) r)

theorem buildStates_enabled : (buildStates addr results).2.2 = results.any enables := by
  induction results generalizing addr with
  | nil => rfl
  | cons result results ih =>
      simp only [buildStates, ih, List.any_cons]
      rfl

end

/-- The states of the results of a call. -/
def builtStates (addr : IpAddr) (results : JudgeResults) : List IpAddrState :=
  results.getVariants.map (fun r => (buildState addr r).1)

/-- Some variant is enabled. -/
def hasEnabled (results : JudgeResults) : Bool := results.getVariants.any enables

/-- What the loop over the variants makes of the address. -/
def withProtocols (addr : IpAddr) (results : JudgeResults) : IpAddr :=
  (buildStates addr results.getVariants).2.1

theorem withProtocols_same (addr : IpAddr) (results : JudgeResults) :
    SameButProtocols (withProtocols addr results) addr := buildStates_addr

namespace StoreCall

/-- What a call makes of the streaks; nothing without results. -/
def update (c : StoreCall) : Option (Streak → Streak) :=
  c.data.results.map (fun results => Streak.count (hasEnabled results) c.now)

def after (c : StoreCall) (st : Streak) : Streak := (c.update.getD id) st

/-- The states a call saves, from its entity. -/
def built (c : StoreCall) (addr : IpAddr) : List IpAddrState :=
  c.data.results.elim [] (builtStates addr)

end StoreCall

namespace Store

theorem storing_eq (addr : IpAddr) (results : JudgeResults) (now : Nat) :
    storing addr results now =
      promiseAll (withProtocols addr results) (hasEnabled results) now
        (builtStates addr results) := by
  rw [storing, hasEnabled, builtStates, ← buildStates_enabled, ← buildStates_states]
  rfl

/-- The location is saved first, or not at all. -/
theorem located_cases (addr : IpAddr) (data : ProxyData) (results : JudgeResults) (now : Nat) :
    located addr data results now = storing addr results now ∨
      ∃ loc, located addr data results now = .savingLoc addr loc := by
  unfold located
  split
  · split
    · exact .inr ⟨_, rfl⟩
    · exact .inl rfl
  · exact .inl rfl

/-! ## Steps -/

/-- The call has returned or rejected, and all its saves have ended. -/
def isOver : Stage → Bool
  | .done _ | .failed [] | .skipped => true
  | _ => false

/-- What an operation of call `c` does: whether it is rejected, the
database and the stage then, and the state it has saved. -/
inductive Next (db : Database) (c : StoreCall) :
    Bool → Database → Stage → Option IpAddrState → Prop where
  | found (h : c.stage = .finding) : Next db c false db (.saving (entered db c.data c.now)) none
  | duplicate (addr : IpAddr) (h : c.stage = .saving addr) (hsave : db.saveAddr addr = none) :
      Next db c false db (.failed []) none
  | saved (addr : IpAddr) (db' : Database) (addr' : IpAddr) (h : c.stage = .saving addr)
      (hsave : db.saveAddr addr = some (db', addr')) : Next db c false db' (saved addr' c.data) none
  | located (addr : IpAddr) (results : JudgeResults) (h : c.stage = .locating addr)
      (hresults : c.data.results = some results) :
      Next db c false db (located addr c.data results c.now) none
  | savedLoc (addr : IpAddr) (loc : IpLoc) (results : JudgeResults)
      (h : c.stage = .savingLoc addr loc) (hresults : c.data.results = some results) :
      Next db c false (db.saveLoc loc) (storing addr results c.now) none
  | stored (addr : IpAddr) (enabled : Bool) (todo : List IpAddrState) (k : Nat)
      (state : IpAddrState) (h : c.stage = .storing addr enabled todo)
      (hk : todo[k]? = some state) :
      Next db c false (db.saveState state) (promiseAll addr enabled c.now (todo.eraseIdx k))
        (some state)
  | storedLate (todo : List IpAddrState) (k : Nat) (state : IpAddrState)
      (h : c.stage = .failed todo) (hk : todo[k]? = some state) :
      Next db c false (db.saveState state) (.failed (todo.eraseIdx k)) (some state)
  | gone (addr : IpAddr) (h : c.stage = .finalSaving addr) (hsave : db.saveAddr addr = none) :
      Next db c false db (.failed []) none
  | counted (addr : IpAddr) (db' : Database) (addr' : IpAddr) (h : c.stage = .finalSaving addr)
      (hsave : db.saveAddr addr = some (db', addr')) : Next db c false db' (.done addr') none
  | rejectedFind (h : c.stage = .finding) : Next db c true db (.failed []) none
  | rejectedSave (addr : IpAddr) (h : c.stage = .saving addr) :
      Next db c true db (.failed []) none
  | rejectedFindLoc (addr : IpAddr) (h : c.stage = .locating addr) :
      Next db c true db (.failed []) none
  | rejectedLoc (addr : IpAddr) (loc : IpLoc) (results : JudgeResults)
      (h : c.stage = .savingLoc addr loc) (hresults : c.data.results = some results) :
      Next db c true db (storing addr results c.now) none
  | rejectedState (addr : IpAddr) (enabled : Bool) (todo : List IpAddrState) (k : Nat)
      (state : IpAddrState) (h : c.stage = .storing addr enabled todo)
      (hk : todo[k]? = some state) : Next db c true db (.failed (todo.eraseIdx k)) none
  | rejectedLate (todo : List IpAddrState) (k : Nat) (state : IpAddrState)
      (h : c.stage = .failed todo) (hk : todo[k]? = some state) :
      Next db c true db (.failed (todo.eraseIdx k)) none
  | rejectedCount (addr : IpAddr) (h : c.stage = .finalSaving addr) :
      Next db c true db (.failed []) none

/-- Only a call that is under way is moved. -/
theorem Next.not_over {db db' : Database} {c : StoreCall} {b : Bool} {stage : Stage}
    {state : Option IpAddrState} (h : Next db c b db' stage state) : isOver c.stage = false := by
  have hlate : ∀ (todo : List IpAddrState) (k : Nat) (st : IpAddrState), todo[k]? = some st →
      isOver (.failed todo) = false := by
    intro todo k st hk
    cases todo with
    | nil => cases hk
    | cons _ _ => rfl
  cases h with
  | storedLate todo k st hstage hk =>
      rw [hstage]
      exact hlate todo k st hk
  | rejectedLate todo k st hstage hk =>
      rw [hstage]
      exact hlate todo k st hk
  | _ => simp [isOver, *]

/-- The state behind an operation of call `i`. -/
def next (s : Store) (i : Nat) (c : StoreCall) (db : Database) (stage : Stage)
    (state : Option IpAddrState) : Store :=
  { s with
    db := db
    calls := s.calls.set i { c with stage := stage }
    written := s.written ++ state.toList.map (fun st => (i, st)) }

variable {s s' : Store} {i k : Nat} {c : StoreCall}

theorem goOn_next (h : s.goOn i c = some s') :
    ∃ db stage state, Next s.db c false db stage state ∧ s' = s.next i c db stage state := by
  unfold goOn at h
  split at h
  · cases h
    exact ⟨_, _, none, .found ‹_›, by simp [next, goto]⟩
  · split at h
    · cases h
      exact ⟨_, _, none, .duplicate _ ‹_› ‹_›, by simp [next, goto]⟩
    · cases h
      exact ⟨_, _, none, .saved _ _ _ ‹_› ‹_›, by simp [next, goto]⟩
  · cases h
    exact ⟨_, _, none, .located _ _ ‹_› ‹_›, by simp [next, goto]⟩
  · cases h
    exact ⟨_, _, none, .savedLoc _ _ _ ‹_› ‹_›, by simp [next, goto]⟩
  · split at h
    · cases h
      exact ⟨_, _, none, .gone _ ‹_› ‹_›, by simp [next, goto]⟩
    · cases h
      exact ⟨_, _, none, .counted _ _ _ ‹_› ‹_›, by simp [next, goto]⟩
  · cases h

theorem saveState_next (h : s.saveState i c k = some s') :
    ∃ db stage state, Next s.db c false db stage state ∧ s' = s.next i c db stage state := by
  unfold saveState at h
  split at h
  · rename_i addr enabled todo hstage
    obtain ⟨state, hk, rfl⟩ := Option.map_eq_some_iff.mp h
    exact ⟨_, _, some state, .stored addr enabled todo k state hstage hk, by simp [next, goto]⟩
  · rename_i todo hstage
    obtain ⟨state, hk, rfl⟩ := Option.map_eq_some_iff.mp h
    exact ⟨_, _, some state, .storedLate todo k state hstage hk, by simp [next, goto]⟩
  · cases h

theorem reject_next (h : s.reject i c = some s') :
    ∃ stage, Next s.db c true s.db stage none ∧ s' = s.next i c s.db stage none := by
  unfold reject at h
  split at h
  · cases h
    exact ⟨_, .rejectedFind ‹_›, by simp [next, goto]⟩
  · cases h
    exact ⟨_, .rejectedSave _ ‹_›, by simp [next, goto]⟩
  · cases h
    exact ⟨_, .rejectedFindLoc _ ‹_›, by simp [next, goto]⟩
  · cases h
    exact ⟨_, .rejectedCount _ ‹_›, by simp [next, goto]⟩
  · cases h
    exact ⟨_, .rejectedLoc _ _ _ ‹_› ‹_›, by simp [next, goto]⟩
  · cases h

theorem rejectState_next (h : s.rejectState i c k = some s') :
    ∃ stage, Next s.db c true s.db stage none ∧ s' = s.next i c s.db stage none := by
  unfold rejectState at h
  split at h
  · rename_i hstage
    obtain ⟨state, hk, rfl⟩ := Option.map_eq_some_iff.mp h
    exact ⟨_, .rejectedState _ _ _ k state hstage hk, by simp [next, goto]⟩
  · rename_i hstage
    obtain ⟨state, hk, rfl⟩ := Option.map_eq_some_iff.mp h
    exact ⟨_, .rejectedLate _ k state hstage hk, by simp [next, goto]⟩
  · cases h

end Store

namespace StoreAction

/-- The call an action moves. -/
def index : StoreAction → Option Nat
  | .go i | .saveState i _ | .reject i | .rejectState i _ => some i
  | .tick _ | .store _ | .validated _ _ => none

def rejects : StoreAction → Bool
  | .reject _ | .rejectState _ _ => true
  | _ => false

/-- A new call is made. -/
def calls : StoreAction → Bool
  | .store _ | .validated _ _ => true
  | _ => false

end StoreAction

namespace Store

/-- **Inversion** of the steps that move a call. -/
theorem step_next {options : ValidatorOptions} {s s' : Store} {a : StoreAction} {i : Nat}
    (hi : a.index = some i) (h : step options s a = some s') :
    ∃ c db stage state, s.calls[i]? = some c ∧ Next s.db c a.rejects db stage state ∧
      s' = s.next i c db stage state := by
  cases a with
  | tick ms => cases hi
  | store data => cases hi
  | validated data results => cases hi
  | go j =>
      cases hi
      obtain ⟨c, hc, h⟩ := Option.bind_eq_some_iff.mp h
      obtain ⟨db, stage, state, hnext, hs'⟩ := goOn_next h
      exact ⟨c, db, stage, state, hc, hnext, hs'⟩
  | saveState j k =>
      cases hi
      obtain ⟨c, hc, h⟩ := Option.bind_eq_some_iff.mp h
      obtain ⟨db, stage, state, hnext, hs'⟩ := saveState_next h
      exact ⟨c, db, stage, state, hc, hnext, hs'⟩
  | reject j =>
      cases hi
      obtain ⟨c, hc, h⟩ := Option.bind_eq_some_iff.mp h
      obtain ⟨stage, hnext, hs'⟩ := reject_next h
      exact ⟨c, _, stage, none, hc, hnext, hs'⟩
  | rejectState j k =>
      cases hi
      obtain ⟨c, hc, h⟩ := Option.bind_eq_some_iff.mp h
      obtain ⟨stage, hnext, hs'⟩ := rejectState_next h
      exact ⟨c, _, stage, none, hc, hnext, hs'⟩

/-- A step that makes no call: time passes, or a call is moved. -/
theorem step_cases {options : ValidatorOptions} {s s' : Store} {a : StoreAction}
    (ha : a.calls = false) (h : step options s a = some s') :
    (∃ ms, a = .tick ms ∧ s' = { s with clock := s.clock + ms }) ∨
      ∃ i c db stage state, a.index = some i ∧ s.calls[i]? = some c ∧
        Next s.db c a.rejects db stage state ∧ s' = s.next i c db stage state := by
  cases hi : a.index with
  | none =>
      cases a <;> simp [StoreAction.index, StoreAction.calls] at hi ha
      cases h
      exact .inl ⟨_, rfl, rfl⟩
  | some i =>
      obtain ⟨c, db, stage, state, hc, hnext, hs'⟩ := step_next hi h
      exact .inr ⟨i, c, db, stage, state, rfl, hc, hnext, hs'⟩

/-! ## Examples -/

/-- An address known from one validation with success. -/
def knownAddr : IpAddr :=
  { id := 1, ip := ['x'], port := 80, validationId := 1, lastCheckedAt := some 1,
    countSuccess := 1, successSinceAt := some 1 }

/-- Results with a variant that is enabled, and with one that is not. -/
def working : JudgeResults :=
  { variants := [{ protocolFrom := .http, protocolTo := .http, level := 1 }] }

def broken : JudgeResults :=
  { variants := [{ protocolFrom := .http, protocolTo := .http, error := some ⟨['e'], ['e']⟩ }] }

def knownData (results : JudgeResults) : ProxyData := ⟨['x'], 80, some results⟩

/-- The known address, and the state of its validation. -/
def knownDb : Database :=
  { addrs := [knownAddr], states := builtStates knownAddr working, nextId := 2 }

/-- What a call with one variant waits for, in order. -/
def alone (i : Nat) : List StoreAction := [.go i, .go i, .go i, .saveState i 0, .go i]

theorem knownDb_wf : knownDb.Wf := ⟨by decide, by decide, by decide, by decide, by decide⟩

end Store

end ProxyBroker.Proxy.Storage
