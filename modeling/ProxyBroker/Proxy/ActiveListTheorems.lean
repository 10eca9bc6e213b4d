/-
ProxyBroker.Proxy.ActiveListTheorems — the list holds one entry for a
proxy and destination protocol.

Health checks of copies of one address may end in any order, with any
other call in between. Behind its await `do` looks for an active entry
and lists its own object in one go, so there is no moment at which two of
them can both find nothing. All other steps only reorder the list or take
entries out of it, and none changes what an entry stands for.
-/
import ProxyBroker.Proxy.ProxyRotatorTheorems

namespace ProxyBroker.Proxy

open Lib Server

namespace Rotator

/-- What `findActiveEntry` compares. -/
def slotOf (a : IpAddr) : Text × Nat × ProtocolType := (a.ip, a.port, a.state.protocolDest)

/-- No two entries share ip, port and destination protocol. -/
def NoDuplicates (s : Rotator) : Prop := (s.activeList.map (fun r => slotOf (s.heap r))).Nodup

instance : DecidablePred NoDuplicates := fun s =>
  inferInstanceAs (Decidable (List.Nodup (s.activeList.map (fun r => slotOf (s.heap r)))))

theorem SameProxy.slot {a b : IpAddr} (h : SameProxy a b) : slotOf b = slotOf a := by
  rw [slotOf, slotOf, h.ip, h.port, h.state]

/-- The slots of a list are what they were before the step. -/
theorem step_slots {options : RotatorOptions} {s s' : Rotator} {a : Action}
    (h : step options s a = some s') (l : List Ref) :
    l.map (fun r => slotOf (s'.heap r)) = l.map (fun r => slotOf (s.heap r)) :=
  List.map_congr_left (fun r _ => (step_identity h r).slot)

/-- A slot `findActiveEntry` does not find is free. -/
theorem slot_free {s : Rotator} {w : Ref}
    (h : s.findActiveEntry (s.heap w).ip (s.heap w).port (s.heap w).state.protocolDest = none) :
    slotOf (s.heap w) ∉ s.activeList.map (fun r => slotOf (s.heap r)) := by
  intro hmem
  obtain ⟨x, hx, heq⟩ := List.mem_map.mp hmem
  simp only [slotOf, Prod.mk.injEq] at heq
  rw [findActiveEntry, List.find?_eq_none] at h
  exact h x hx (by simp [heq])

theorem nodup_map_of_subperm {α β : Type} (f : α → β) {l l' : List α} (h : l.Subperm l')
    (hl' : (l'.map f).Nodup) : (l.map f).Nodup := by
  obtain ⟨m, hperm, hsub⟩ := h
  exact (hperm.map f).nodup_iff.mp (hl'.sublist (hsub.map f))

/-- **Step lemma**: every step keeps the slots apart. -/
theorem NoDuplicates.step {options : RotatorOptions} {s s' : Rotator} {a : Action}
    (hs : NoDuplicates s) (h : step options s a = some s') : NoDuplicates s' := by
  unfold NoDuplicates
  rw [step_slots h]
  by_cases ha : ∃ w, a = .doSucceeded w
  · obtain ⟨w, rfl⟩ := ha
    cases h
    rcases doSucceeded_cases s w with ⟨-, heq⟩ | ⟨hnone, -, hlist, -⟩
    · rw [heq]
      exact hs
    · rw [hlist, List.map_append, List.nodup_append]
      refine ⟨hs, List.nodup_singleton _, ?_⟩
      intro x hx y hy heq
      rw [List.map_singleton, List.mem_singleton] at hy
      rw [heq, hy] at hx
      exact slot_free hnone hx
  · exact nodup_map_of_subperm _ (step_listed h (fun w hw => ha ⟨w, hw⟩)) hs

/-- **No duplicates**, in every state reachable from an empty list; and
reordering keeps all entries. -/
theorem noDuplicates_of_reachable {options : RotatorOptions} {s : Rotator}
    (h : (machine options).Reachable Initial s) :
    NoDuplicates s ∧ s.orderActiveList.activeList.Perm s.activeList := by
  refine ⟨?_, orderActiveList_perm s⟩
  obtain ⟨s₀, as, ⟨hempty, -⟩, hrun⟩ := h
  have hs₀ : NoDuplicates s₀ := by
    unfold NoDuplicates
    rw [hempty]
    exact List.nodup_nil
  exact (machine options).run_invariant (fun _ _ _ hs hstep => hs.step hstep) hs₀ hrun

/-- Two copies of an address and the address for the other protocol. -/
def copies : Rotator where
  heap r := { exampleAddr with
    state := { exampleAddr.state with protocolDest := if r = 2 then .https else .http } }

/-- The health checks of all three end, then someone takes an entry. -/
def checkCopies : List Action :=
  [.doSucceeded 0, .doSucceeded 1, .doSucceeded 2, .tick 2000, .take [] 1]

theorem noDuplicates_copies :
    NoDuplicates (after {} copies checkCopies) ∧
      (after {} copies checkCopies).orderActiveList.activeList.Perm
        (after {} copies checkCopies).activeList :=
  noDuplicates_of_reachable ⟨copies, checkCopies, ⟨rfl, rfl⟩, rfl⟩

end Rotator

end ProxyBroker.Proxy
