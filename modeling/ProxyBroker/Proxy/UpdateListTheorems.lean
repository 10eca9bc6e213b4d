/-
ProxyBroker.Proxy.UpdateListTheorems — what tidying makes of the active
list: whom `cleanupList` drops, and who stands in front behind
`orderActiveList`.

* `drops_iff` — `cleanupList` joins its two thresholds by `&&`, so a pass
  drops the entries it is meant to drop exactly when none of them lies
  below one threshold only;
* `leastRecentlyUsed_of_along` — the key 'update_at' orders nothing, so
  the list is in the order of age only as long as the keys behind it say
  the same as the age (`AgeRespected`). `Chronological` is the invariant
  that carries this through a run.

A sort is stable: entries that tie stay as they were
(`pairwise_insertionSort_of_stable`).
-/
import ProxyBroker.Proxy.ActiveListTheorems
import ProxyBroker.Proxy.ReusePauseTheorems

namespace ProxyBroker.Proxy

open Lib Server

/-! ## Stable sorting -/

section

variable {α : Type} {r : α → α → Prop} [DecidableRel r]

theorem pair_sublist_or {a b : α} {l : List α} (ha : a ∈ l) (hb : b ∈ l) (hne : a ≠ b) :
    [a, b].Sublist l ∨ [b, a].Sublist l := by
  obtain ⟨p, q, rfl⟩ := List.append_of_mem ha
  rcases List.mem_append.mp hb with hb | hb
  · right
    exact (List.singleton_sublist.mpr hb).append
      (List.singleton_sublist.mpr (List.mem_cons_self (l := q)))
  · left
    have hq : b ∈ q := (List.mem_cons.mp hb).resolve_left (fun h => hne h.symm)
    exact ((List.singleton_sublist.mpr hq).cons_cons a).trans (List.sublist_append_right p _)

theorem not_pair_sublist_swap {a b : α} {l : List α} (hl : l.Nodup) (hab : [a, b].Sublist l) :
    ¬ [b, a].Sublist l := by
  intro hba
  induction l with
  | nil => cases hab
  | cons c l ih =>
      obtain ⟨hc, hl⟩ := List.nodup_cons.mp hl
      cases hab with
      | cons _ hab =>
          cases hba with
          | cons _ hba => exact ih hl hab hba
          | cons_cons _ hba => exact hc (hab.subset (by simp))
      | cons_cons _ hab =>
          cases hba with
          | cons _ hba => exact hc (hba.subset (by simp))
          | cons_cons _ hba => exact hc (List.singleton_sublist.mp hab)

/-- A stable sort puts `a` in front of `b` only if they are in that order,
and if they tie, only if `a` stood in front of `b`. -/
theorem pairwise_insertionSort_of_stable [Std.Total r] [IsTrans α r] {R : α → α → Prop}
    {l : List α} (hl : l.Nodup)
    (h : ∀ a ∈ l, ∀ b ∈ l, r a b → (r b a → [a, b].Sublist l) → R a b) :
    (l.insertionSort r).Pairwise R := by
  have hnodup : (l.insertionSort r).Nodup := (List.perm_insertionSort r l).nodup_iff.mpr hl
  refine List.pairwise_iff_forall_sublist.mpr ?_
  intro a b hab
  have ha : a ∈ l := (List.mem_insertionSort r).mp (hab.subset (by simp))
  have hb : b ∈ l := (List.mem_insertionSort r).mp (hab.subset (by simp))
  have hr := List.pairwise_iff_forall_sublist.mp (List.pairwise_insertionSort r l) hab
  refine h a ha b hb hr ?_
  intro htie
  have hne : a ≠ b := by
    rintro rfl
    exact List.nodup_iff_sublist.mp hnodup a hab
  refine (pair_sublist_or ha hb hne).resolve_right ?_
  intro hba
  exact not_pair_sublist_swap hnodup hab (List.pair_sublist_insertionSort htie hba)

end

namespace Rotator

/-! ## Dropping -/

/-- The two classes of entries that are to be dropped. -/
def Failing (r : IpAddr) : Prop :=
  (9 < r.used ∧ r.success * 100 ≤ 15 * r.used) ∨ (99 < r.used ∧ r.success * 100 ≤ 30 * r.used)

instance : DecidablePred Failing := fun _ => inferInstanceAs (Decidable (_ ∨ _))

/-- The steps with a pass of `cleanupList`. -/
def Action.cleansUp : Action → Bool
  | .take _ _ | .onEmpty => true
  | _ => false

/-- The pass of `cleanupList` in `s` leaves no failing entry, and takes
away no other. -/
def Drops (s : Rotator) : Prop :=
  (∀ r ∈ s.cleanupList.activeList, ¬ Failing (s.cleanupList.heap r)) ∧
    ∀ r ∈ s.activeList, r ∉ s.cleanupList.activeList → Failing (s.heap r)

/-- Below one threshold only: used 10 to 99 times with no more than 15 %
successes, or more often with between 15 % and 30 %. -/
def BelowOne (r : IpAddr) : Prop :=
  (9 < r.used ∧ r.used ≤ 99 ∧ r.success * 100 ≤ 15 * r.used) ∨
    (99 < r.used ∧ 15 * r.used < r.success * 100 ∧ r.success * 100 ≤ 30 * r.used)

instance : DecidablePred BelowOne := fun _ => inferInstanceAs (Decidable (_ ∨ _))

theorem mem_cleanupList {s : Rotator} {r : Ref} :
    r ∈ s.cleanupList.activeList ↔ r ∈ s.activeList ∧ unhealthy (s.heap r) = false := by
  simp [cleanupList]

theorem unhealthy_eq_true_iff {r : IpAddr} :
    unhealthy r = true ↔ Failing r ∧ ¬ BelowOne r := by
  simp only [unhealthy, Bool.and_eq_true, decide_eq_true_eq, Failing, BelowOne]
  omega

theorem drops_iff_state (s : Rotator) : Drops s ↔ ∀ r ∈ s.activeList, ¬ BelowOne (s.heap r) := by
  constructor
  · rintro ⟨hleft, -⟩ r hr hbelow
    have hfailing : Failing (s.heap r) := by
      unfold BelowOne at hbelow
      unfold Failing
      omega
    cases hu : unhealthy (s.heap r) with
    | true => exact (unhealthy_eq_true_iff.mp hu).2 hbelow
    | false => exact hleft r (mem_cleanupList.mpr ⟨hr, hu⟩) hfailing
  · intro hnone
    refine ⟨?_, ?_⟩
    · intro r hr hfailing
      obtain ⟨hmem, hu⟩ := mem_cleanupList.mp hr
      have hyes : unhealthy (s.heap r) = true :=
        unhealthy_eq_true_iff.mpr ⟨hfailing, hnone r hmem⟩
      rw [hu] at hyes
      cases hyes
    · intro r hr hgone
      cases hu : unhealthy (s.heap r) with
      | true => exact (unhealthy_eq_true_iff.mp hu).1
      | false => exact absurd (mem_cleanupList.mpr ⟨hr, hu⟩) hgone

/-- **Whom the passes drop.** In every run, all passes of `cleanupList`
drop the failing entries and no others exactly when no pass meets an
entry below one threshold only. -/
theorem drops_iff (options : RotatorOptions) (s₀ : Rotator) (as : List Action) :
    (machine options).Along (fun s a => a.cleansUp = true → Drops s) s₀ as ↔
      (machine options).Along (fun s a => a.cleansUp = true →
        ∀ r ∈ s.activeList, ¬ BelowOne (s.heap r)) s₀ as := by
  simp only [drops_iff_state]

/-- A candidate whose usage record counts ten uses, all failed. -/
def tenFailures : Rotator where
  heap _ := { exampleAddr with
    rotate := some { protocolSrc := .http, addrId := 1, inc := 10, errors := 10 } }

/-- It is checked, listed and not dropped. -/
theorem not_drops_tenFailures :
    ¬ ∀ (options : RotatorOptions) (s₀ : Rotator) (as : List Action), Initial s₀ →
        (machine options).Along (fun s a => a.cleansUp = true → Drops s) s₀ as := by
  intro h
  have hpass := (h {} tenFailures [.doSucceeded 0, .onEmpty] ⟨rfl, rfl⟩).2
    (tenFailures.doSucceeded 0) rfl
  exact (hpass.1 rfl).1 0 (by decide) (by decide)

/-! ## Age -/

/-- No eligible entry was used less recently than the one `take` finds. -/
def LeastRecentlyUsed (s : Rotator) : Prop :=
  ∀ (selector : Object) (e : Ref), s.found selector = some e →
    ∀ x ∈ s.activeList, s.eligible selector x = true →
      (s.heap e).updatedAt ≤ (s.heap x).updatedAt

/-- A sort puts `y` in front of `x`, both rested: more successes, or as
many in less time, or nothing between them and `y` in front already. -/
def PutInFront (s : Rotator) (y x : Ref) : Prop :=
  (s.heap x).success < (s.heap y).success ∨
    (s.heap x).success = (s.heap y).success ∧
      ((s.heap y).durationAvg < (s.heap x).durationAvg ∨
        (s.heap y).durationAvg = (s.heap x).durationAvg ∧ [y, x].Sublist s.activeList)

instance (s : Rotator) (y x : Ref) : Decidable (PutInFront s y x) :=
  inferInstanceAs (Decidable (_ ∨ _))

/-- Of two entries for one destination protocol that are rested once
`pause` has counted them on, the one used less recently is put in front.
The entry `out` does not count. -/
def AgeRespected (pause : IpAddr → IpAddr) (out : Option Ref) (s : Rotator) : Prop :=
  ∀ x ∈ s.activeList, ∀ y ∈ s.activeList, out ≠ some x → out ≠ some y →
    (s.heap x).state.protocolDest = (s.heap y).state.protocolDest →
    (pause (s.heap x)).odd = 0 → (pause (s.heap y)).odd = 0 →
    (s.heap y).updatedAt < (s.heap x).updatedAt → PutInFront s y x

instance (pause : IpAddr → IpAddr) (out : Option Ref) : DecidablePred (AgeRespected pause out) :=
  fun s => inferInstanceAs
    (Decidable (∀ x ∈ s.activeList, ∀ y ∈ s.activeList, _ → _ → _ → _ → _ → _ → _))

/-- The two sorts respect the age. The first eligible entry leaves a
`take` paused, so its place among the others does not matter. -/
def SortRespectsAge (options : RotatorOptions) (s : Rotator) : Action → Prop
  | .take selector _ => AgeRespected (stepOdd options) (s.found selector) s.cleanupList
  | .onEmpty => AgeRespected id none s.cleanupList
  | _ => True

instance (options : RotatorOptions) (s : Rotator) :
    DecidablePred (SortRespectsAge options s) := fun a =>
  match a with
  | .take selector _ =>
      inferInstanceAs (Decidable (AgeRespected (stepOdd options) (s.found selector) s.cleanupList))
  | .onEmpty => inferInstanceAs (Decidable (AgeRespected id none s.cleanupList))
  | .tick _ | .doSucceeded _ | .doLog _ _ | .logGo _ | .logFail _ | .removeUnusedProxies =>
      inferInstanceAs (Decidable True)

/-- Rested entries for one protocol stand in the order of age. -/
def inAge (heap : Ref → IpAddr) (x y : Ref) : Prop :=
  (heap x).state.protocolDest = (heap y).state.protocolDest →
    (heap x).odd = 0 → (heap y).odd = 0 → (heap x).updatedAt ≤ (heap y).updatedAt

/-- **The invariant**: the order of age, and no entry from the future. -/
structure Chronological (s : Rotator) : Prop where
  apart : NoDuplicates s
  ordered : s.activeList.Pairwise (inAge s.heap)
  stamped : ∀ x ∈ s.activeList, (s.heap x).updatedAt ≤ s.clock

theorem Chronological.nodup {s : Rotator} (h : Chronological s) : s.activeList.Nodup :=
  List.Nodup.of_map _ h.apart

theorem eligible_protocolDest {s : Rotator} {selector : Object} {x y : Ref}
    (hx : s.eligible selector x = true) (hy : s.eligible selector y = true) :
    (s.heap x).state.protocolDest = (s.heap y).state.protocolDest := by
  simp only [eligible, selectorMatches, Bool.and_eq_true] at hx hy
  obtain ⟨-, -, hx⟩ := hx
  obtain ⟨-, -, hy⟩ := hy
  split at hx <;> simp_all

theorem eligible_odd {s : Rotator} {selector : Object} {x : Ref}
    (hx : s.eligible selector x = true) : (s.heap x).odd = 0 := by
  simp only [eligible, Bool.and_eq_true, decide_eq_true_eq] at hx
  exact hx.1.1

/-- The first eligible entry of a list in the order of age. -/
theorem Chronological.leastRecentlyUsed {s : Rotator} (h : Chronological s) :
    LeastRecentlyUsed s := by
  intro selector e hfound x hx helig
  obtain ⟨he, p, q, hlist, hp⟩ := List.find?_eq_some_iff_append.mp hfound
  have hordered := h.ordered
  rw [hlist] at hordered hx
  rcases List.mem_append.mp hx with hxp | hxq
  · have hno := hp x hxp
    rw [helig] at hno
    cases hno
  · rcases List.mem_cons.mp hxq with rfl | hxq
    · exact Nat.le_refl _
    · have hpair := (List.pairwise_cons.mp (List.pairwise_append.mp hordered).2.1).1 x hxq
      exact hpair (eligible_protocolDest he helig) (eligible_odd he) (eligible_odd helig)

/-! ## Age in a run -/

theorem before_total (a b : IpAddr) : before a b ∨ before b a := by
  unfold before
  omega

theorem before_trans {a b c : IpAddr} (hab : before a b) (hbc : before b c) : before a c := by
  unfold before at *
  omega

instance (heap : Ref → IpAddr) : Std.Total (fun a b => before (heap a) (heap b)) :=
  ⟨fun a b => before_total (heap a) (heap b)⟩

instance (heap : Ref → IpAddr) : IsTrans Ref (fun a b => before (heap a) (heap b)) :=
  ⟨fun _ _ _ => before_trans⟩

/-- A sort that respects the age leaves the order of age. -/
theorem AgeRespected.sorted {out : Option Ref} {s : Rotator} (h : AgeRespected id out s)
    (hs : s.activeList.Nodup) :
    s.orderActiveList.activeList.Pairwise
      (fun x y => out ≠ some x → out ≠ some y → inAge s.heap x y) := by
  refine pairwise_insertionSort_of_stable hs ?_
  intro a ha b hb hab htie houta houtb hdest hodda hoddb
  by_contra hlt
  have hfront := h a ha b hb houta houtb hdest hodda hoddb (Nat.lt_of_not_le hlt)
  unfold before at hab htie
  rcases hfront with hmore | ⟨hsuccess, hfaster | ⟨havg, hba⟩⟩
  · omega
  · omega
  · exact not_pair_sublist_swap hs (htie (by omega)) hba

/-- Counting on leaves what is compared. -/
theorem stepOdd_keys (options : RotatorOptions) (a : IpAddr) :
    (stepOdd options a).success = a.success ∧ (stepOdd options a).durationAvg = a.durationAvg ∧
      (stepOdd options a).state = a.state ∧ (stepOdd options a).updatedAt = a.updatedAt := by
  unfold stepOdd
  split <;> exact ⟨rfl, rfl, rfl, rfl⟩

/-- The `forEach` of `updateList` over a list without repetition. -/
theorem stepOdds_heap_of_nodup (options : RotatorOptions) {s : Rotator} (hs : s.activeList.Nodup)
    {x : Ref} (hx : x ∈ s.activeList) :
    (stepOdds options s).heap x = stepOdd options (s.heap x) := by
  rw [stepOdds_heap, List.count_eq_one_of_mem hs hx]
  rfl

theorem stepOdds_activeList (options : RotatorOptions) (s : Rotator) :
    (stepOdds options s).activeList = s.activeList := by
  rw [stepOdds_rest]

theorem AgeRespected.counted {options : RotatorOptions} {out : Option Ref} {s : Rotator}
    (h : AgeRespected (stepOdd options) out s) (hs : s.activeList.Nodup) :
    AgeRespected id out (stepOdds options s) := by
  unfold AgeRespected PutInFront
  rw [stepOdds_activeList]
  intro x hx y hy
  rw [stepOdds_heap_of_nodup options hs hx, stepOdds_heap_of_nodup options hs hy]
  obtain ⟨hxs, hxd, hxst, hxu⟩ := stepOdd_keys options (s.heap x)
  obtain ⟨hys, hyd, hyst, hyu⟩ := stepOdd_keys options (s.heap y)
  intro houtx houty hdest hoddx hoddy hlt
  rw [hxst, hyst] at hdest
  rw [hxu, hyu] at hlt
  rw [hxs, hys, hxd, hyd]
  exact h x hx y hy houtx houty hdest hoddx hoddy hlt

/-- What leaves the entries alone, and takes some from the list at most. -/
theorem Chronological.frame {s s' : Rotator} (h : Chronological s) (hapart : NoDuplicates s')
    (hlist : s'.activeList.Sublist s.activeList) (hclock : s.clock ≤ s'.clock)
    (hproxy : ∀ x ∈ s.activeList, SameProxy (s.heap x) (s'.heap x))
    (hrest : ∀ x ∈ s.activeList, SameRest (s.heap x) (s'.heap x)) : Chronological s' := by
  have hordered : s'.activeList.Pairwise (inAge s'.heap) := by
    refine (h.ordered.sublist hlist).imp_of_mem ?_
    intro x y hx hy hxy
    have hx := hlist.subset hx
    have hy := hlist.subset hy
    unfold inAge
    rw [(hproxy x hx).state, (hproxy y hy).state, (hrest x hx).odd, (hrest y hy).odd,
      (hrest x hx).updatedAt, (hrest y hy).updatedAt]
    exact hxy
  refine ⟨hapart, hordered, ?_⟩
  intro x hx
  have hx := hlist.subset hx
  rw [(hrest x hx).updatedAt]
  exact (h.stamped x hx).trans hclock

/-- The entry handed out is paused, so its place does not matter. -/
theorem inAge_useAddr {s : Rotator} {e x y : Ref} (h : x ≠ e → y ≠ e → inAge s.heap x y) :
    inAge (s.useAddr e).heap x y := by
  unfold useAddr
  by_cases hx : x = e
  · intro _ hodd
    subst hx
    simp at hodd
  · by_cases hy : y = e
    · intro _ _ hodd
      subst hy
      simp at hodd
    · unfold inAge
      rw [modify_heap_of_ne s hx, modify_heap_of_ne s hy]
      exact h hx hy

theorem Chronological.cleanupList {s : Rotator} (h : Chronological s) :
    s.cleanupList.activeList.Nodup :=
  h.nodup.sublist (cleanupList_sublist s)

/-- `updateList` and the choice behind it. -/
theorem Chronological.take {options : RotatorOptions} {s : Rotator} (h : Chronological s)
    {selector : Object} (hok : AgeRespected (stepOdd options) (s.found selector) s.cleanupList)
    (elapsed : Nat) (hapart : NoDuplicates (s.take options selector elapsed)) :
    Chronological (s.take options selector elapsed) := by
  have hordered : (s.updateList options).activeList.Pairwise
      (fun x y => s.found selector ≠ some x → s.found selector ≠ some y →
        inAge (s.updateList options).heap x y) := by
    refine (hok.counted h.cleanupList).sorted ?_
    rw [stepOdds_activeList]
    exact h.cleanupList
  have hstamped : ∀ x ∈ (s.updateList options).activeList,
      ((s.updateList options).heap x).updatedAt ≤ s.clock + elapsed := by
    intro x hx
    have hlisted := (cleanupList_sublist s).subset ((updateList_perm options s).mem_iff.mp hx)
    have hone : s.activeList.count x ≤ 1 := Nat.le_of_eq (List.count_eq_one_of_mem h.nodup hlisted)
    rw [updateList_heap_once options hone hx, stepOdd_updatedAt]
    exact (h.stamped x hlisted).trans (Nat.le_add_right _ _)
  cases hf : s.found selector with
  | none =>
      rw [hf] at hordered
      rw [take_of_not_found options hf] at hapart ⊢
      exact ⟨hapart, hordered.imp (fun hxy => hxy nofun nofun), hstamped⟩
  | some e =>
      rw [hf] at hordered
      rw [take_of_found options hf] at hapart ⊢
      refine ⟨hapart, ?_, ?_⟩
      · refine hordered.imp ?_
        intro x y hxy
        refine inAge_useAddr (s := { s.updateList options with clock := s.clock + elapsed }) ?_
        intro hx hy
        exact hxy (fun heq => hx (Option.some.inj heq).symm)
          (fun heq => hy (Option.some.inj heq).symm)
      · intro x hx
        by_cases hxe : x = e
        · subst hxe
          simp [useAddr]
        · unfold useAddr
          rw [modify_heap_of_ne _ hxe]
          exact hstamped x hx

/-- A new entry comes last and is the latest. -/
theorem Chronological.doSucceeded {s : Rotator} (h : Chronological s) (w : Ref)
    (hapart : NoDuplicates (s.doSucceeded w)) : Chronological (s.doSucceeded w) := by
  rcases doSucceeded_cases s w with ⟨-, heq⟩ | ⟨hnone, hw, hlist, hheap, hclock, -⟩
  · rw [heq]
    exact h
  · have hkeep : ∀ x ∈ s.activeList, (s.doSucceeded w).heap x = s.heap x :=
      fun x hx => hheap x (fun heq => hw (heq ▸ hx))
    have hnew : ((s.doSucceeded w).heap w).updatedAt = s.clock := by
      simp [Rotator.doSucceeded, hnone, listed]
    refine ⟨hapart, ?_, ?_⟩
    · rw [hlist, List.pairwise_append]
      refine ⟨h.ordered.imp_of_mem ?_, List.pairwise_singleton _ _, ?_⟩
      · intro x y hx hy hxy
        unfold inAge
        rw [hkeep x hx, hkeep y hy]
        exact hxy
      · intro x hx y hy _ _ _
        rw [List.mem_singleton.mp hy, hnew, hkeep x hx]
        exact h.stamped x hx
    · intro x hx
      rw [hclock]
      rw [hlist] at hx
      rcases List.mem_append.mp hx with hx | hx
      · rw [hkeep x hx]
        exact h.stamped x hx
      · rw [List.mem_singleton.mp hx, hnew]

/-- **Step lemma of the order of age.** -/
theorem Chronological.step {options : RotatorOptions} {s s' : Rotator} {a : Action}
    (h : Chronological s) (hok : SortRespectsAge options s a)
    (hstep : step options s a = some s') : Chronological s' := by
  have hapart := h.apart.step hstep
  have hclock := step_clock hstep
  cases a with
  | take selector elapsed => cases hstep; exact h.take hok elapsed hapart
  | doSucceeded w => cases hstep; exact h.doSucceeded w hapart
  | onEmpty =>
      cases hstep
      refine ⟨hapart, (hok.sorted h.cleanupList).imp (fun hxy => hxy nofun nofun), ?_⟩
      intro x hx
      exact h.stamped x ((cleanupList_sublist s).subset ((orderActiveList_perm _).mem_iff.mp hx))
  | logGo i =>
      obtain ⟨call, -, rfl⟩ := Option.map_eq_some_iff.mp hstep
      exact h.frame hapart (logGo_sublist s i call) hclock (fun x _ => (logGo_heap s i call x).1)
        (fun x _ => (logGo_heap s i call x).2)
  | tick ms =>
      cases hstep
      exact h.frame hapart (List.Sublist.refl _) hclock (fun _ _ => SameProxy.refl _)
        (fun _ _ => SameRest.refl _)
  | doLog ip test =>
      cases hstep
      exact h.frame hapart (List.Sublist.refl _) hclock (fun _ _ => SameProxy.refl _)
        (fun _ _ => SameRest.refl _)
  | logFail i =>
      rw [logFail_spec hstep] at hapart hclock ⊢
      exact h.frame hapart (List.Sublist.refl _) hclock (fun _ _ => SameProxy.refl _)
        (fun _ _ => SameRest.refl _)
  | removeUnusedProxies =>
      cases hstep
      exact h.frame hapart List.filter_sublist hclock (fun _ _ => SameProxy.refl _)
        (fun _ _ => SameRest.refl _)

/-- **Least recently used first**, all along the runs whose sorts respect
the age. -/
theorem leastRecentlyUsed_of_along {options : RotatorOptions} {s₀ : Rotator} {as : List Action}
    (hinit : Initial s₀) (hok : (machine options).Along (SortRespectsAge options) s₀ as) :
    (machine options).Always LeastRecentlyUsed s₀ as := by
  have hs₀ : Chronological s₀ := by
    refine ⟨?_, ?_, ?_⟩
    · unfold NoDuplicates
      rw [hinit.1]
      exact List.nodup_nil
    · rw [hinit.1]
      exact List.Pairwise.nil
    · intro x hx
      rw [hinit.1] at hx
      cases hx
  exact (machine options).always_of_along (fun _ _ _ h hok hstep => h.step hok hstep)
    (fun _ h => h.leastRecentlyUsed) hs₀ hok

/-- Three candidates; the second has three successes on record. -/
def threeCandidates : Rotator where
  heap r := { exampleAddr with
    port := 8080 + r
    rotate := if r = 1 then some { protocolSrc := .http, addrId := 1, successes := 3, inc := 3 }
      else none }

theorem leastRecentlyUsed_newest :
    (machine {}).Always LeastRecentlyUsed threeCandidates
      [.doSucceeded 0, .tick 10, .doSucceeded 2, .onEmpty, .tick 2000, .take [] 1] :=
  leastRecentlyUsed_of_along ⟨rfl, rfl⟩ (by decide)

/-- The entry with more successes is put in front of the one used less
recently. -/
theorem not_leastRecentlyUsed_successes :
    ¬ ∀ (options : RotatorOptions) (s : Rotator), (machine options).Reachable Initial s →
        LeastRecentlyUsed s := by
  intro h
  let as : List Action := [.doSucceeded 0, .tick 10, .doSucceeded 1, .onEmpty, .tick 2000]
  have hreach : (machine {}).Reachable Initial (after {} threeCandidates as) :=
    ⟨threeCandidates, as, ⟨rfl, rfl⟩, rfl⟩
  have hle := h {} (after {} threeCandidates as) hreach [] 1 (by decide) 0 (by decide) (by decide)
  exact absurd hle (by decide)

end Rotator

end ProxyBroker.Proxy
