/-
ProxyBroker.Proxy.WithdrawalTheorems — which runs keep a blocked address
out of the list.

`doLog` removes one entry of the address it blocks: the one that its
call found, by address and destination protocol, before its awaits. An
address has an entry for each destination protocol, and a queued health
check lists an entry without looking at what is blocked.

`withdrawn_iff` gives the exact condition twice, for the two moments
from which an address can be said to be blocked: the commit of the
transaction, and the moment at which the call goes on behind it and
removes its entry. Both are instances of the exact guard rule.
-/
import ProxyBroker.Proxy.ProxyRotatorTheorems

namespace ProxyBroker.Proxy

open Lib Server

namespace Rotator

/-! ## Blocked addresses -/

def addressOf (a : IpAddr) : Text × Nat := (a.ip, a.port)

/-- No address of `out` is listed, and none is handed out. -/
def Withdrawn (out : List (Text × Nat)) (s : Rotator) : Prop :=
  (∀ r ∈ s.activeList, addressOf (s.heap r) ∉ out) ∧
    ∀ selector r, s.found selector = some r → addressOf (s.heap r) ∉ out

theorem withdrawn_of_listed {out : List (Text × Nat)} {s : Rotator} :
    Withdrawn out s ↔ ∀ r ∈ s.activeList, addressOf (s.heap r) ∉ out :=
  ⟨fun h => h.1, fun h => ⟨h, fun _ r hf => h r (found_spec hf).1⟩⟩

/-- `call` commits its address as blocked. -/
def commitsBlock (s : Rotator) (call : LogCall) : Bool :=
  match call.stage with
  | .read addrId rotate =>
      let ipRotate := savedRotate call addrId rotate
      !(rotate.isNone && s.rotates.any (isRowOf ipRotate)) && blocks ipRotate
  | _ => false

/-- `call` has committed its address as blocked and goes on. -/
def settlesBlock (call : LogCall) : Bool :=
  match call.stage with
  | .committed _ remove => remove
  | _ => false

/-- A health check lists a proxy of an address in `out`. -/
def relists (out : List (Text × Nat)) (s : Rotator) : Action → Bool
  | .doSucceeded w =>
      (s.findActiveEntry (s.heap w).ip (s.heap w).port (s.heap w).state.protocolDest).isNone &&
        decide (addressOf (s.heap w) ∈ out)
  | _ => false

/-- An address is committed as blocked while an entry of it is listed. -/
def commitsListed (s : Rotator) : Action → Bool
  | .logGo i =>
      match s.logs[i]? with
      | some call =>
          commitsBlock s call &&
            s.activeList.any (fun r => addressOf (s.heap r) = (call.used.ip, call.used.port))
      | none => false
  | _ => false

/-- The call that blocked an address goes on while an entry of it is
listed that the call does not remove. -/
def settlesListed (s : Rotator) : Action → Bool
  | .logGo i =>
      match s.logs[i]? with
      | some call =>
          settlesBlock call && s.activeList.any (fun r =>
            addressOf (s.heap r) = (call.used.ip, call.used.port) && call.addr ≠ some r)
      | none => false
  | _ => false

theorem SameProxy.address {a b : IpAddr} (h : SameProxy a b) : addressOf b = addressOf a := by
  rw [addressOf, addressOf, h.ip, h.port]

/-- Steps that list nothing and withdraw nothing keep `Withdrawn`. -/
theorem withdrawn_of_subset {out : List (Text × Nat)} {options : RotatorOptions}
    {s s' : Rotator} {a : Action} (h : step options s a = some s') (hw : Withdrawn out s)
    (hsub : s'.activeList ⊆ s.activeList) : Withdrawn out s' := by
  rw [withdrawn_of_listed] at hw ⊢
  intro r hr
  rw [(step_identity h r).address]
  exact hw r (hsub hr)

/-- Steps of other methods than `doLog` keep `Withdrawn` unless they list
a withdrawn address. -/
theorem withdrawn_step {out : List (Text × Nat)} {options : RotatorOptions}
    {s s' : Rotator} {a : Action} (h : step options s a = some s') (ha : ∀ i, a ≠ .logGo i)
    (hw : Withdrawn out s) : Withdrawn out s' ↔ relists out s a = false := by
  cases a with
  | doSucceeded w =>
      have hid := step_identity h
      cases h
      rcases doSucceeded_cases s w with ⟨hf, heq⟩ | ⟨hf, -, hlist, -⟩
      · rw [heq]
        have hrelists : relists out s (.doSucceeded w) = false := by
          simp [relists, Option.isNone_iff_eq_none, hf]
        exact ⟨fun _ => hrelists, fun _ => hw⟩
      · rw [withdrawn_of_listed, hlist, relists, hf]
        simp only [Option.isNone_none, Bool.true_and, decide_eq_false_iff_not, List.mem_append,
          List.mem_singleton]
        constructor
        · intro hlisted
          have := hlisted w (.inr rfl)
          rwa [(hid w).address] at this
        · intro hw' r hr
          rw [(hid r).address]
          rcases hr with hr | rfl
          · exact hw.1 r hr
          · exact hw'
  | logGo i => exact absurd rfl (ha i)
  | _ =>
      have hsub := (step_listed h (by intro w; simp)).subset
      exact ⟨fun _ => rfl, fun _ => withdrawn_of_subset h hw hsub⟩

/-- An address is withdrawn, and `list` is what stays listed. -/
theorem withdrawn_append {out : List (Text × Nat)} {options : RotatorOptions}
    {s s' : Rotator} {a : Action} (h : step options s a = some s') (hw : Withdrawn out s)
    (hsub : s'.activeList ⊆ s.activeList) (address : Text × Nat) :
    Withdrawn (out ++ [address]) s' ↔
      ∀ r ∈ s'.activeList, addressOf (s.heap r) ≠ address := by
  rw [withdrawn_of_listed]
  constructor
  · intro hw' r hr heq
    apply hw' r hr
    rw [(step_identity h r).address, heq]
    exact List.mem_append_right _ (List.mem_singleton_self _)
  · intro hne r hr hmem
    rw [(step_identity h r).address, List.mem_append, List.mem_singleton] at hmem
    rcases hmem with hmem | hmem
    · exact hw.1 r (hsub hr) hmem
    · exact hne r hr hmem

/-! ## What a `doLog` call adds to the history -/

theorem logGo_blocked (s : Rotator) (i : Nat) (call : LogCall) :
    (s.logGo i call).blocked =
      if commitsBlock s call then s.blocked ++ [(call.used.ip, call.used.port)]
      else s.blocked := by
  unfold logGo commitsBlock
  cases call.stage with
  | called =>
      dsimp only
      unfold logRead
      split <;> rfl
  | read addrId rotate =>
      dsimp only
      unfold logCommit
      dsimp only
      split
      · rename_i hconflict
        simp [hconflict, endLog]
      · rename_i hconflict
        simp [hconflict]
  | committed rotate remove =>
      show (s.settleEntry call rotate remove).blocked = s.blocked
      unfold settleEntry
      split
      · rfl
      · split
        · rfl
        · split <;> rfl

theorem logGo_settled (s : Rotator) (i : Nat) (call : LogCall) :
    (s.logGo i call).settled =
      if settlesBlock call then s.settled ++ [(call.used.ip, call.used.port)]
      else s.settled := by
  unfold logGo settlesBlock
  cases call.stage with
  | called =>
      dsimp only
      unfold logRead
      split <;> rfl
  | read addrId rotate =>
      dsimp only
      unfold logCommit
      dsimp only
      split <;> rfl
  | committed rotate remove => rfl

/-- A commit leaves the list alone. -/
theorem logGo_activeList_of_commits {s : Rotator} (i : Nat) {call : LogCall}
    (h : commitsBlock s call = true) : (s.logGo i call).activeList = s.activeList := by
  unfold commitsBlock at h
  unfold logGo
  cases hst : call.stage with
  | called => simp [hst] at h
  | read addrId rotate =>
      dsimp only
      unfold logCommit
      dsimp only
      split <;> rfl
  | committed rotate remove => simp [hst] at h

/-- A call that has blocked its address takes the entry it found out of
the list. -/
theorem logGo_activeList_of_settles {s : Rotator} (i : Nat) {call : LogCall}
    (h : settlesBlock call = true) :
    (s.logGo i call).activeList = s.activeList.filter (fun r => call.addr ≠ some r) := by
  unfold settlesBlock at h
  unfold logGo
  cases hst : call.stage with
  | called => simp [hst] at h
  | read addrId rotate => simp [hst] at h
  | committed rotate remove =>
      simp only [hst] at h
      show (s.settleEntry call rotate remove).activeList = _
      unfold settleEntry
      cases haddr : call.addr with
      | none => simp
      | some addr =>
          simp only [h, if_true]
          refine List.filter_congr ?_
          intro r _
          simp [eq_comm]

theorem step_history {options : RotatorOptions} {s s' : Rotator} {a : Action}
    (h : step options s a = some s') (ha : ∀ i, a ≠ .logGo i) :
    s'.blocked = s.blocked ∧ s'.settled = s.settled := by
  cases a with
  | tick ms => cases h; exact ⟨rfl, rfl⟩
  | take selector elapsed =>
      cases h
      cases hf : s.found selector with
      | none =>
          rw [take_of_not_found options hf, updateList_rest]
          exact ⟨rfl, rfl⟩
      | some addr =>
          rw [take_of_found options hf, updateList_rest]
          exact ⟨rfl, rfl⟩
  | doSucceeded w =>
      cases h
      rcases doSucceeded_cases s w with ⟨-, heq⟩ | ⟨-, -, -, -, -, hb, hs⟩
      · rw [heq]
        exact ⟨rfl, rfl⟩
      · exact ⟨hb, hs⟩
  | doLog ip test => cases h; exact ⟨rfl, rfl⟩
  | logGo i => exact absurd rfl (ha i)
  | logFail i => rw [logFail_spec h]; exact ⟨rfl, rfl⟩
  | onEmpty => cases h; exact ⟨rfl, rfl⟩
  | removeUnusedProxies => cases h; exact ⟨rfl, rfl⟩

/-! ## Which steps keep a blocked address out -/

theorem commit_exact (options : RotatorOptions) (s : Rotator) (a : Action) (s' : Rotator)
    (hw : Withdrawn s.blocked s) (h : step options s a = some s') :
    Withdrawn s'.blocked s' ↔ (relists s.blocked s a || commitsListed s a) = false := by
  by_cases hgo : ∃ i, a = .logGo i
  · obtain ⟨i, rfl⟩ := hgo
    obtain ⟨call, hcall, rfl⟩ := Option.map_eq_some_iff.mp h
    have hsub := (logGo_sublist s i call).subset
    rw [logGo_blocked]
    simp only [relists, commitsListed, hcall, Bool.false_or]
    cases hc : commitsBlock s call with
    | false => simpa using withdrawn_of_subset h hw hsub
    | true =>
        rw [if_pos rfl, withdrawn_append h hw hsub, logGo_activeList_of_commits i hc]
        simp
  · have hno : ∀ i, a ≠ .logGo i := fun i hi => hgo ⟨i, hi⟩
    have hcommits : commitsListed s a = false := by
      cases a with
      | logGo i => exact absurd rfl (hno i)
      | _ => rfl
    rw [(step_history h hno).1, hcommits, Bool.or_false]
    exact withdrawn_step h hno hw

theorem settle_exact (options : RotatorOptions) (s : Rotator) (a : Action) (s' : Rotator)
    (hw : Withdrawn s.settled s) (h : step options s a = some s') :
    Withdrawn s'.settled s' ↔ (relists s.settled s a || settlesListed s a) = false := by
  by_cases hgo : ∃ i, a = .logGo i
  · obtain ⟨i, rfl⟩ := hgo
    obtain ⟨call, hcall, rfl⟩ := Option.map_eq_some_iff.mp h
    have hsub := (logGo_sublist s i call).subset
    rw [logGo_settled]
    simp only [relists, settlesListed, hcall, Bool.false_or]
    cases hc : settlesBlock call with
    | false => simpa using withdrawn_of_subset h hw hsub
    | true =>
        rw [if_pos rfl, withdrawn_append h hw hsub, logGo_activeList_of_settles i hc]
        simp only [List.mem_filter, decide_eq_true_eq, Bool.true_and, List.any_eq_false,
          Bool.and_eq_true, not_and]
        constructor
        · intro hne r hr heq haddr
          exact hne r ⟨hr, haddr⟩ heq
        · intro hall r hr heq
          exact hall r hr.1 heq hr.2
  · have hno : ∀ i, a ≠ .logGo i := fun i hi => hgo ⟨i, hi⟩
    have hsettles : settlesListed s a = false := by
      cases a with
      | logGo i => exact absurd rfl (hno i)
      | _ => rfl
    rw [(step_history h hno).2, hsettles, Bool.or_false]
    exact withdrawn_step h hno hw

/-- **When a blocked proxy stays out.** In every run from a state in
which `doLog` has blocked nothing yet:

* from the commit that blocks an address on, no entry of it is listed or
  handed out, exactly when no step commits an address that is listed and
  none lists one that is committed;
* from the moment on at which its `doLog` has gone on behind the
  transaction, no entry of it is listed or handed out, exactly when no
  call goes on while the list has an entry of the address besides the
  one it removes, and no health check lists one later. -/
theorem withdrawn_iff (options : RotatorOptions) (s t : Rotator) (as : List Action)
    (hblocked : s.blocked = []) (hsettled : s.settled = [])
    (hrun : (machine options).run s as = some t) :
    ((machine options).Always (fun s => Withdrawn s.blocked s) s as ↔
        (machine options).Along
          (fun s a => (relists s.blocked s a || commitsListed s a) = false) s as) ∧
      ((machine options).Always (fun s => Withdrawn s.settled s) s as ↔
        (machine options).Along
          (fun s a => (relists s.settled s a || settlesListed s a) = false) s as) := by
  refine ⟨?_, ?_⟩
  · refine (machine options).always_iff_along (commit_exact options) ?_ hrun
    rw [hblocked]
    exact ⟨fun _ _ => List.not_mem_nil, fun _ _ _ => List.not_mem_nil⟩
  · refine (machine options).always_iff_along (settle_exact options) ?_ hrun
    rw [hsettled]
    exact ⟨fun _ _ => List.not_mem_nil, fun _ _ _ => List.not_mem_nil⟩

/-- Proxies 0 and 1 are one address, checked for http and for https. The
address has failed a hundred times. -/
def failing : Rotator where
  heap r := { exampleAddr with
    state := { exampleAddr.state with protocolDest := if r = 0 then .http else .https } }
  addrs := [{ id := 1, ip := exampleAddr.ip, port := exampleAddr.port }]
  rotates := [{ protocolSrc := .http, addrId := 1, errors := 100, inc := 100 }]

/-- One more failure is booked from start to end. -/
def bookFailure : List Action :=
  [.doLog
    { protocol := .http, protocolDest := .http, ip := exampleAddr.ip, port := exampleAddr.port }
    false, .logGo 0, .logGo 0, .logGo 0]

theorem withdrawn_single :
    (machine {}).Always (fun s => Withdrawn s.settled s) failing
      (.doSucceeded 0 :: bookFailure) := by
  have hiff := withdrawn_iff {} failing (after {} failing (.doSucceeded 0 :: bookFailure))
    (.doSucceeded 0 :: bookFailure) rfl rfl rfl
  rw [hiff.2]
  decide

/-- Both proxies are listed when the failure is booked. -/
def bookFailureOfTwo : List Action :=
  .doSucceeded 0 :: .doSucceeded 1 :: bookFailure ++ [.tick 2000]

/-- The entry for the other protocol stays, and is handed out. -/
theorem not_withdrawn_otherProtocol :
    ¬ ∀ t, (machine {}).run failing bookFailureOfTwo = some t → Withdrawn t.settled t := by
  intro h
  have hrun : (machine {}).run failing bookFailureOfTwo =
      some (after {} failing bookFailureOfTwo) := rfl
  have hfound : (after {} failing bookFailureOfTwo).found [(kTargetSSL, .bool true)] = some 1 := by
    decide
  have hout : addressOf ((after {} failing bookFailureOfTwo).heap 1) ∈
      (after {} failing bookFailureOfTwo).settled := by
    decide
  exact (h _ hrun).2 _ _ hfound hout

end Rotator

end ProxyBroker.Proxy
