/-
ProxyBroker.Proxy.ProxyRotatorTheorems — what one step of the rotator
does to its objects and to its list.

* `step_identity` — no step turns an object into another proxy;
* `step_listed` — only a succeeded health check lists an entry, and
  `doSucceeded_cases` says which;
* `found_spec` — what the fast path of `take` asks of an entry.

The theorems about runs are read off these.
-/
import ProxyBroker.Proxy.ProxyRotator

namespace ProxyBroker.Proxy

open Lib Server

namespace Rotator

/-! ## Objects -/

@[simp] theorem modify_heap_self (s : Rotator) (r : Ref) (f : IpAddr → IpAddr) :
    (s.modify r f).heap r = f (s.heap r) := by
  simp [modify]

theorem modify_heap_of_ne (s : Rotator) {r x : Ref} (h : x ≠ r) (f : IpAddr → IpAddr) :
    (s.modify r f).heap x = s.heap x := by
  simp [modify, h]

@[simp] theorem modify_activeList (s : Rotator) (r : Ref) (f : IpAddr → IpAddr) :
    (s.modify r f).activeList = s.activeList := rfl

@[simp] theorem modify_clock (s : Rotator) (r : Ref) (f : IpAddr → IpAddr) :
    (s.modify r f).clock = s.clock := rfl

/-- A `forEach` over references: an object is changed once for each time
it is listed. -/
theorem foldl_modify_heap (f : IpAddr → IpAddr) (l : List Ref) (s : Rotator) (x : Ref) :
    (l.foldl (fun s r => s.modify r f) s).heap x = f^[l.count x] (s.heap x) := by
  induction l generalizing s with
  | nil => rfl
  | cons r l ih =>
      rw [List.foldl_cons, ih]
      by_cases h : r = x
      · subst h
        rw [modify_heap_self, List.count_cons_self, Function.iterate_succ_apply]
      · rw [modify_heap_of_ne s (fun heq => h heq.symm), List.count_cons_of_ne h]

/-- The rest of the state is left alone. -/
theorem foldl_modify_rest (f : IpAddr → IpAddr) (l : List Ref) (s : Rotator) :
    l.foldl (fun s r => s.modify r f) s =
      { s with heap := (l.foldl (fun s r => s.modify r f) s).heap } := by
  induction l generalizing s with
  | nil => rfl
  | cons r l ih =>
      rw [List.foldl_cons, ih]
      rfl

theorem stepOdds_heap (options : RotatorOptions) (s : Rotator) (x : Ref) :
    (stepOdds options s).heap x = (stepOdd options)^[s.activeList.count x] (s.heap x) :=
  foldl_modify_heap _ _ _ _

theorem stepOdds_rest (options : RotatorOptions) (s : Rotator) :
    stepOdds options s = { s with heap := (stepOdds options s).heap } :=
  foldl_modify_rest _ _ _

theorem orderActiveList_perm (s : Rotator) :
    s.orderActiveList.activeList.Perm s.activeList :=
  List.perm_insertionSort _ _

@[simp] theorem orderActiveList_heap (s : Rotator) : s.orderActiveList.heap = s.heap := rfl

@[simp] theorem orderActiveList_clock (s : Rotator) : s.orderActiveList.clock = s.clock := rfl

/-! ## `updateList` and `take` -/

theorem updateList_heap (options : RotatorOptions) (s : Rotator) (x : Ref) :
    (s.updateList options).heap x =
      (stepOdd options)^[s.cleanupList.activeList.count x] (s.heap x) := by
  rw [updateList, orderActiveList_heap, stepOdds_heap]
  rfl

theorem updateList_perm (options : RotatorOptions) (s : Rotator) :
    (s.updateList options).activeList.Perm s.cleanupList.activeList := by
  refine (orderActiveList_perm _).trans ?_
  rw [stepOdds_rest]

theorem updateList_rest (options : RotatorOptions) (s : Rotator) :
    s.updateList options =
      { s with
        heap := (s.updateList options).heap
        activeList := (s.updateList options).activeList } := by
  unfold updateList
  rw [stepOdds_rest]
  rfl

theorem take_activeList (options : RotatorOptions) (s : Rotator) (selector : Object)
    (elapsed : Nat) :
    (s.take options selector elapsed).activeList = (s.updateList options).activeList := by
  unfold take
  cases s.found selector <;> rfl

theorem take_clock (options : RotatorOptions) (s : Rotator) (selector : Object) (elapsed : Nat) :
    (s.take options selector elapsed).clock = s.clock + elapsed := by
  unfold take
  cases s.found selector <;> rfl

theorem take_of_found (options : RotatorOptions) {s : Rotator} {selector : Object} {e : Ref}
    (h : s.found selector = some e) (elapsed : Nat) :
    s.take options selector elapsed =
      useAddr { s.updateList options with clock := s.clock + elapsed } e := by
  simp [take, h]

theorem take_of_not_found (options : RotatorOptions) {s : Rotator} {selector : Object}
    (h : s.found selector = none) (elapsed : Nat) :
    s.take options selector elapsed = { s.updateList options with clock := s.clock + elapsed } := by
  simp [take, h]

/-- An entry the fast path finds is listed, rested and two seconds old. -/
theorem found_spec {s : Rotator} {selector : Object} {e : Ref} (h : s.found selector = some e) :
    e ∈ s.activeList ∧ (s.heap e).odd = 0 ∧ (s.heap e).updatedAt + 2000 ≤ s.clock := by
  have hmem := List.mem_of_find?_eq_some h
  have helig := List.find?_some h
  simp only [eligible, Bool.and_eq_true, Bool.not_eq_true', decide_eq_true_eq,
    decide_eq_false_iff_not] at helig
  exact ⟨hmem, helig.1.1, by omega⟩

theorem stepOdd_used (options : RotatorOptions) (a : IpAddr) :
    (stepOdd options a).used = a.used := by
  unfold stepOdd
  split <;> rfl

theorem stepOdd_updatedAt (options : RotatorOptions) (a : IpAddr) :
    (stepOdd options a).updatedAt = a.updatedAt := by
  unfold stepOdd
  split <;> rfl

/-! ## One step and the objects -/

/-- What says which proxy an object is. Nothing changes it. -/
structure SameProxy (a b : IpAddr) : Prop where
  ip : b.ip = a.ip
  port : b.port = a.port
  state : b.state = a.state

/-- What the reuse pause is computed from. Only `take` and listing an
object change it. -/
structure SameRest (a b : IpAddr) : Prop where
  odd : b.odd = a.odd
  used : b.used = a.used
  updatedAt : b.updatedAt = a.updatedAt

theorem SameProxy.refl (a : IpAddr) : SameProxy a a := ⟨rfl, rfl, rfl⟩

theorem SameRest.refl (a : IpAddr) : SameRest a a := ⟨rfl, rfl, rfl⟩

theorem SameProxy.trans {a b c : IpAddr} (hab : SameProxy a b) (hbc : SameProxy b c) :
    SameProxy a c :=
  ⟨hbc.ip.trans hab.ip, hbc.port.trans hab.port, hbc.state.trans hab.state⟩

theorem modify_sameProxy (s : Rotator) (r : Ref) {f : IpAddr → IpAddr}
    (hf : ∀ a, SameProxy a (f a)) (x : Ref) : SameProxy (s.heap x) ((s.modify r f).heap x) := by
  by_cases h : x = r
  · subst h
    rw [modify_heap_self]
    exact hf _
  · rw [modify_heap_of_ne s h]
    exact SameProxy.refl _

theorem modify_sameRest (s : Rotator) (r : Ref) {f : IpAddr → IpAddr}
    (hf : ∀ a, SameRest a (f a)) (x : Ref) : SameRest (s.heap x) ((s.modify r f).heap x) := by
  by_cases h : x = r
  · subst h
    rw [modify_heap_self]
    exact hf _
  · rw [modify_heap_of_ne s h]
    exact SameRest.refl _

theorem stepOdd_sameProxy (options : RotatorOptions) (a : IpAddr) :
    SameProxy a (stepOdd options a) := by
  unfold stepOdd
  split <;> exact ⟨rfl, rfl, rfl⟩

theorem updateList_sameProxy (options : RotatorOptions) (s : Rotator) (x : Ref) :
    SameProxy (s.heap x) ((s.updateList options).heap x) := by
  rw [updateList_heap]
  induction s.cleanupList.activeList.count x with
  | zero => exact SameProxy.refl _
  | succ n ih =>
      rw [Function.iterate_succ_apply']
      exact ih.trans (stepOdd_sameProxy options _)

theorem take_sameProxy (options : RotatorOptions) (s : Rotator) (selector : Object)
    (elapsed : Nat) (x : Ref) :
    SameProxy (s.heap x) ((s.take options selector elapsed).heap x) := by
  refine (updateList_sameProxy options s x).trans ?_
  cases h : s.found selector with
  | none =>
      rw [take_of_not_found options h]
      exact SameProxy.refl _
  | some addr =>
      rw [take_of_found options h]
      refine modify_sameProxy { s.updateList options with clock := s.clock + elapsed } addr ?_ x
      intro a
      exact ⟨rfl, rfl, rfl⟩

theorem doSucceeded_sameProxy (s : Rotator) (w x : Ref) :
    SameProxy (s.heap x) ((s.doSucceeded w).heap x) := by
  unfold doSucceeded
  dsimp only
  split
  · exact SameProxy.refl _
  · exact modify_sameProxy s w (fun a => show SameProxy a (listed s.clock a) from ⟨rfl, rfl, rfl⟩) x

/-- What `doLog` does behind its transaction, to objects. -/
theorem settleEntry_heap (s : Rotator) (call : LogCall) (rotate : IpRotate) (remove : Bool)
    (x : Ref) :
    SameProxy (s.heap x) ((s.settleEntry call rotate remove).heap x) ∧
      SameRest (s.heap x) ((s.settleEntry call rotate remove).heap x) := by
  unfold settleEntry
  split
  · exact ⟨SameProxy.refl _, SameRest.refl _⟩
  · split
    · exact ⟨SameProxy.refl _, SameRest.refl _⟩
    · split
      all_goals
        refine ⟨modify_sameProxy s _ ?_ x, modify_sameRest s _ ?_ x⟩
        · intro a
          exact ⟨rfl, rfl, rfl⟩
        · intro a
          exact ⟨rfl, rfl, rfl⟩

theorem logRead_heap (s : Rotator) (i : Nat) (call : LogCall) :
    (s.logRead i call).heap = s.heap := by
  unfold logRead
  split <;> rfl

theorem logCommit_heap (s : Rotator) (i : Nat) (call : LogCall) (addrId : Nat)
    (rotate : Option IpRotate) : (s.logCommit i call addrId rotate).heap = s.heap := by
  unfold logCommit
  dsimp only
  split <;> rfl

theorem logGo_heap (s : Rotator) (i : Nat) (call : LogCall) (x : Ref) :
    SameProxy (s.heap x) ((s.logGo i call).heap x) ∧
      SameRest (s.heap x) ((s.logGo i call).heap x) := by
  unfold logGo
  split
  · rw [logRead_heap]
    exact ⟨SameProxy.refl _, SameRest.refl _⟩
  · rw [logCommit_heap]
    exact ⟨SameProxy.refl _, SameRest.refl _⟩
  · exact settleEntry_heap s call _ _ x

theorem logGo_clock (s : Rotator) (i : Nat) (call : LogCall) :
    (s.logGo i call).clock = s.clock := by
  unfold logGo
  split
  · unfold logRead
    split <;> rfl
  · unfold logCommit
    dsimp only
    split <;> rfl
  · show (s.settleEntry call _ _).clock = s.clock
    unfold settleEntry
    split
    · rfl
    · split
      · rfl
      · split <;> rfl

theorem logFail_spec {options : RotatorOptions} {s s' : Rotator} {i : Nat}
    (h : step options s (.logFail i) = some s') : s' = s.endLog i := by
  simp only [step] at h
  split at h
  · cases h
  · cases h
  · cases h
    rfl

/-- **No step turns an object into another proxy.** -/
theorem step_identity {options : RotatorOptions} {s s' : Rotator} {a : Action}
    (h : step options s a = some s') (x : Ref) : SameProxy (s.heap x) (s'.heap x) := by
  cases a with
  | tick ms => cases h; exact SameProxy.refl _
  | take selector elapsed => cases h; exact take_sameProxy options s selector elapsed x
  | doSucceeded w => cases h; exact doSucceeded_sameProxy s w x
  | doLog ip test => cases h; exact SameProxy.refl _
  | logGo i =>
      obtain ⟨call, -, rfl⟩ := Option.map_eq_some_iff.mp h
      exact (logGo_heap s i call x).1
  | logFail i => rw [logFail_spec h]; exact SameProxy.refl _
  | onEmpty => cases h; exact SameProxy.refl _
  | removeUnusedProxies => cases h; exact SameProxy.refl _

/-! ## One step and the list -/

theorem cleanupList_sublist (s : Rotator) :
    s.cleanupList.activeList.Sublist s.activeList := List.filter_sublist

theorem settleEntry_sublist (s : Rotator) (call : LogCall) (rotate : IpRotate)
    (remove : Bool) : (s.settleEntry call rotate remove).activeList.Sublist s.activeList := by
  unfold settleEntry
  split
  · exact List.Sublist.refl _
  · split
    · exact List.filter_sublist
    · split <;> exact List.Sublist.refl _

theorem logGo_sublist (s : Rotator) (i : Nat) (call : LogCall) :
    (s.logGo i call).activeList.Sublist s.activeList := by
  unfold logGo
  split
  · unfold logRead
    split <;> exact List.Sublist.refl _
  · unfold logCommit
    dsimp only
    split <;> exact List.Sublist.refl _
  · exact settleEntry_sublist s call _ _

/-- **Only a succeeded health check lists an entry.** -/
theorem step_listed {options : RotatorOptions} {s s' : Rotator} {a : Action}
    (h : step options s a = some s') (ha : ∀ w, a ≠ .doSucceeded w) :
    s'.activeList.Subperm s.activeList := by
  cases a with
  | tick ms => cases h; exact List.Subperm.refl _
  | take selector elapsed =>
      cases h
      rw [take_activeList]
      exact (updateList_perm options s).subperm.trans (cleanupList_sublist s).subperm
  | doSucceeded w => exact absurd rfl (ha w)
  | doLog ip test => cases h; exact List.Subperm.refl _
  | logGo i =>
      obtain ⟨call, -, rfl⟩ := Option.map_eq_some_iff.mp h
      exact (logGo_sublist s i call).subperm
  | logFail i => rw [logFail_spec h]; exact List.Subperm.refl _
  | onEmpty =>
      cases h
      exact (orderActiveList_perm _).subperm.trans (cleanupList_sublist s).subperm
  | removeUnusedProxies => cases h; exact List.filter_sublist.subperm

/-- A listed entry is found under its own address and protocol. -/
theorem findActiveEntry_ne_none {s : Rotator} {e : Ref} (he : e ∈ s.activeList) :
    s.findActiveEntry (s.heap e).ip (s.heap e).port (s.heap e).state.protocolDest ≠ none := by
  intro h
  rw [findActiveEntry, List.find?_eq_none] at h
  exact h e he (by simp)

/-- A succeeded health check: nothing, or a new entry at the end. -/
theorem doSucceeded_cases (s : Rotator) (w : Ref) :
    (s.findActiveEntry (s.heap w).ip (s.heap w).port (s.heap w).state.protocolDest ≠ none ∧
        s.doSucceeded w = s) ∨
      (s.findActiveEntry (s.heap w).ip (s.heap w).port (s.heap w).state.protocolDest = none ∧
        w ∉ s.activeList ∧ (s.doSucceeded w).activeList = s.activeList ++ [w] ∧
        (∀ x, x ≠ w → (s.doSucceeded w).heap x = s.heap x) ∧
        (s.doSucceeded w).clock = s.clock ∧ (s.doSucceeded w).blocked = s.blocked ∧
        (s.doSucceeded w).settled = s.settled) := by
  cases hf : s.findActiveEntry (s.heap w).ip (s.heap w).port (s.heap w).state.protocolDest with
  | some x =>
      left
      simp [doSucceeded, hf]
  | none =>
      right
      have hw : w ∉ s.activeList := fun hw => findActiveEntry_ne_none hw hf
      have heq : s.doSucceeded w =
          { s.modify w (listed s.clock) with activeList := s.activeList ++ [w] } := by
        simp [doSucceeded, hf]
      rw [heq]
      exact ⟨rfl, hw, rfl, fun x hx => modify_heap_of_ne s hx _, rfl, rfl, rfl⟩

end Rotator

end ProxyBroker.Proxy
