/-
ProxyBroker.Proxy.ReusePauseTheorems — the reuse pause of a listed
entry.

`take` sets `odd` to 1 on the entry it hands out, and every execution of
`take` counts it on (`stepOdd`) until `odd % reuse` is 0 and it starts
from 0 again. `Resting` is the invariant: `odd` counts the executions
since the entry was handed out, as long as they are fewer than `reuse`.

`reusePause_of_count` needs the entry to be listed at most once at the
start: an object listed twice is counted on twice by each execution
(`not_reusePause_twice`). Health checks never list an object twice
(`step_count`).
-/
import ProxyBroker.Proxy.ProxyRotatorTheorems

namespace ProxyBroker.Proxy

open Lib Server

namespace Rotator

/-! ## The reuse pause -/

def Action.isTake : Action → Bool
  | .take _ _ => true
  | _ => false

theorem step_clock {options : RotatorOptions} {s s' : Rotator} {a : Action}
    (h : step options s a = some s') : s.clock ≤ s'.clock := by
  cases a with
  | tick ms => cases h; exact Nat.le_add_right _ _
  | take selector elapsed =>
      cases h
      rw [take_clock]
      exact Nat.le_add_right _ _
  | doSucceeded w =>
      cases h
      rcases doSucceeded_cases s w with ⟨-, heq⟩ | ⟨-, -, -, -, hclock, -⟩
      · rw [heq]
      · rw [hclock]
  | doLog ip test => cases h; exact Nat.le_refl _
  | logGo i =>
      obtain ⟨call, -, rfl⟩ := Option.map_eq_some_iff.mp h
      exact Nat.le_of_eq (logGo_clock s i call).symm
  | logFail i => rw [logFail_spec h]; exact Nat.le_refl _
  | onEmpty => cases h; exact Nat.le_refl _
  | removeUnusedProxies => cases h; exact Nat.le_refl _

/-- An entry that is listed once is never listed twice: a health check
lists an object only when its address is not listed. -/
theorem step_count {options : RotatorOptions} {s s' : Rotator} {a : Action}
    (h : step options s a = some s') {e : Ref} (he : s.activeList.count e ≤ 1) :
    s'.activeList.count e ≤ 1 := by
  by_cases ha : ∃ w, a = .doSucceeded w
  · obtain ⟨w, rfl⟩ := ha
    cases h
    rcases doSucceeded_cases s w with ⟨-, heq⟩ | ⟨-, hw, hlist, -⟩
    · rw [heq]
      exact he
    · rw [hlist, List.count_append]
      by_cases hwe : w = e
      · subst hwe
        rw [List.count_eq_zero_of_not_mem hw, List.count_singleton_self]
      · rw [List.count_singleton, if_neg (by simpa using hwe)]
        exact he
  · exact ((step_listed h (fun w hw => ha ⟨w, hw⟩)).count_le e).trans he

/-- Between two takes the pause of a listed entry stands still. -/
theorem step_sameRest {options : RotatorOptions} {s s' : Rotator} {a : Action}
    (h : step options s a = some s') (ha : a.isTake = false) {e : Ref}
    (he : e ∈ s.activeList) : SameRest (s.heap e) (s'.heap e) := by
  cases a with
  | tick ms => cases h; exact SameRest.refl _
  | take selector elapsed => cases ha
  | doSucceeded w =>
      cases h
      rcases doSucceeded_cases s w with ⟨-, heq⟩ | ⟨-, hw, -, hheap, -⟩
      · rw [heq]
        exact SameRest.refl _
      · rw [hheap e (fun heq => hw (heq ▸ he))]
        exact SameRest.refl _
  | doLog ip test => cases h; exact SameRest.refl _
  | logGo i =>
      obtain ⟨call, -, rfl⟩ := Option.map_eq_some_iff.mp h
      exact (logGo_heap s i call e).2
  | logFail i => rw [logFail_spec h]; exact SameRest.refl _
  | onEmpty => cases h; exact SameRest.refl _
  | removeUnusedProxies => cases h; exact SameRest.refl _

/-- Entry `e` was handed out at clock `t`, and `take` has been executed
`k` times since. Until the pause is over `odd` counts them. -/
structure Resting (options : RotatorOptions) (e : Ref) (t k : Nat) (s : Rotator) : Prop where
  once : s.activeList.count e ≤ 1
  clock : t ≤ s.clock
  handedOut : t ≤ (s.heap e).updatedAt
  pause : options.reuse ≤ k ∨ (s.heap e).odd = k + 1 ∧ 0 < (s.heap e).used

/-- `updateList` counts a listed entry on once. -/
theorem updateList_heap_once (options : RotatorOptions) {s : Rotator} {e : Ref}
    (hcount : s.activeList.count e ≤ 1) (he : e ∈ (s.updateList options).activeList) :
    (s.updateList options).heap e = stepOdd options (s.heap e) := by
  have hle := (cleanupList_sublist s).count_le e
  have hmem : e ∈ s.cleanupList.activeList := (updateList_perm options s).mem_iff.mp he
  have hpos := List.count_pos_iff.mpr hmem
  have hone : s.cleanupList.activeList.count e = 1 := by omega
  rw [updateList_heap, hone]
  rfl

/-- Counting on: below `reuse` the counter does not wrap. -/
theorem stepOdd_pause {options : RotatorOptions} {a : IpAddr} {k : Nat}
    (h : options.reuse ≤ k ∨ a.odd = k + 1 ∧ 0 < a.used) :
    options.reuse ≤ k + 1 ∨ (stepOdd options a).odd = k + 1 + 1 ∧ 0 < (stepOdd options a).used := by
  rcases h with h | ⟨hodd, hused⟩
  · exact .inl (by omega)
  · by_cases hk : options.reuse ≤ k + 1
    · exact .inl hk
    · right
      have hmod : a.odd % options.reuse ≠ 0 := by
        rw [hodd, Nat.mod_eq_of_lt (by omega)]
        omega
      rw [stepOdd_used]
      refine ⟨?_, hused⟩
      rw [stepOdd, if_pos ⟨hmod, hused⟩, hodd]

/-- **Step lemma of the pause.** -/
theorem Resting.step {options : RotatorOptions} {e : Ref} {t k : Nat} {s s' : Rotator}
    {a : Action} (hr : Resting options e t k s) (he : e ∈ s.activeList)
    (he' : e ∈ s'.activeList) (h : step options s a = some s') :
    Resting options e t (k + if a.isTake then 1 else 0) s' := by
  have honce := step_count h hr.once
  have hclock := hr.clock.trans (step_clock h)
  cases ha : a.isTake with
  | false =>
      have hsame := step_sameRest h ha he
      refine ⟨honce, hclock, ?_, ?_⟩
      · rw [hsame.updatedAt]
        exact hr.handedOut
      · rw [hsame.odd, hsame.used]
        exact hr.pause
  | true =>
      cases a with
      | take selector elapsed =>
          cases h
          rw [take_activeList] at he'
          have hheap := updateList_heap_once options hr.once he'
          cases hf : s.found selector with
          | none =>
              rw [take_of_not_found options hf] at honce hclock ⊢
              refine ⟨honce, hclock, ?_, ?_⟩
              · show t ≤ ((s.updateList options).heap e).updatedAt
                rw [hheap, stepOdd_updatedAt]
                exact hr.handedOut
              · show _ ∨ ((s.updateList options).heap e).odd = _ ∧
                  0 < ((s.updateList options).heap e).used
                rw [hheap]
                exact stepOdd_pause hr.pause
          | some x =>
              rw [take_of_found options hf] at honce hclock ⊢
              by_cases hx : x = e
              · -- handed out again: it is rested, so the pause was over
                subst hx
                have hodd := (found_spec hf).2.1
                have hk : options.reuse ≤ k := by
                  rcases hr.pause with hk | ⟨hk, -⟩
                  · exact hk
                  · omega
                refine ⟨honce, hclock, ?_, .inl ?_⟩
                · simpa [useAddr] using hclock
                · simp only [if_true]
                  omega
              · have hne : e ≠ x := fun heq => hx heq.symm
                have hkeep : ((useAddr { s.updateList options with clock := s.clock + elapsed }
                    x).heap e) = stepOdd options (s.heap e) := by
                  rw [useAddr, modify_heap_of_ne _ hne]
                  exact hheap
                refine ⟨honce, hclock, ?_, ?_⟩
                · rw [hkeep, stepOdd_updatedAt]
                  exact hr.handedOut
                · rw [hkeep]
                  exact stepOdd_pause hr.pause
      | _ => cases ha

/-- Run lemma of the pause. -/
theorem Resting.run {options : RotatorOptions} {e : Ref} {t k : Nat} {s s' : Rotator}
    {as : List Action} (hr : Resting options e t k s)
    (hlisted : (machine options).Always (fun s => e ∈ s.activeList) s as)
    (h : (machine options).run s as = some s') :
    Resting options e t (k + as.countP Action.isTake) s' := by
  have hboth : (machine options).Along
      (fun s a => ∀ s' ∈ Rotator.step options s a, e ∈ s.activeList ∧ e ∈ s'.activeList) s as := by
    refine (machine options).along_of_always ?_ h hlisted
    intro s a s1 he he1 h1 s2 h2
    have hsame : Rotator.step options s a = some s1 := h1
    rw [hsame] at h2
    cases h2
    exact ⟨he, he1⟩
  refine (machine options).run_counted ?_ hboth hr h
  intro n s a s1 hr hok h1
  obtain ⟨he, he1⟩ := hok s1 h1
  have hnext := hr.step he he1 h1
  cases htake : a.isTake <;> simpa [htake] using hnext

theorem run_count {options : RotatorOptions} {s s' : Rotator} {as : List Action} {e : Ref}
    (hs : s.activeList.count e ≤ 1) (h : (machine options).run s as = some s') :
    s'.activeList.count e ≤ 1 :=
  (machine options).run_invariant (fun _ _ _ hc hstep => step_count hstep hc) hs h

/-- The reuse pause of entry `e`, in every run from `s₀`: when `take`
hands out `e`, and later again, and `e` stayed listed in between, then
`take` was executed `reuse` times in between and two seconds of its
clock have passed. -/
def ReusePause (options : RotatorOptions) (s₀ : Rotator) (e : Ref) : Prop :=
  ∀ (pre : List Action) (s : Rotator) (selector : Object) (elapsed : Nat) (s₁ : Rotator)
    (mid : List Action) (s₂ : Rotator) (selector' : Object),
    (machine options).run s₀ pre = some s →
    s.found selector = some e →
    step options s (.take selector elapsed) = some s₁ →
    (machine options).run s₁ mid = some s₂ →
    (machine options).Always (fun s => e ∈ s.activeList) s₁ mid →
    s₂.found selector' = some e →
    options.reuse ≤ mid.countP Action.isTake ∧ s.clock + 2000 ≤ s₂.clock

/-- **Reuse pause.** For an entry the initial list holds at most once. -/
theorem reusePause_of_count (options : RotatorOptions) (s₀ : Rotator) (e : Ref)
    (hcount : s₀.activeList.count e ≤ 1) : ReusePause options s₀ e := by
  intro pre s selector elapsed s₁ mid s₂ selector' hpre hfound htake hmid hlisted hfound'
  have hs := run_count hcount hpre
  have hs₁ := step_count htake hs
  have hclock₁ := step_clock htake
  have hstart : Resting options e s.clock 0 s₁ := by
    cases htake
    rw [take_of_found options hfound] at hs₁ hclock₁ ⊢
    exact ⟨hs₁, hclock₁, by simp [useAddr], .inr (by simp [useAddr])⟩
  have hend := hstart.run hlisted hmid
  obtain ⟨-, hodd, hold⟩ := found_spec hfound'
  rw [Nat.zero_add] at hend
  refine ⟨?_, ?_⟩
  · rcases hend.pause with hk | ⟨hk, -⟩
    · exact hk
    · omega
  · have := hend.handedOut
    omega

/-- A rotator with a given list, at clock 5000. -/
def listing (activeList : List Ref) : Rotator where
  heap := fun _ => exampleAddr
  activeList := activeList
  clock := 5000

def threeTakes : List Action := [.tick 2000, .take [] 0, .take [] 0, .take [] 0]

theorem reusePause_single :
    3 ≤ threeTakes.countP Action.isTake ∧ 5000 + 2000 ≤ 7000 :=
  reusePause_of_count { reuse := 3 } (listing [0]) 0 (by decide) [] (listing [0]) [] 0
    ((listing [0]).take { reuse := 3 } [] 0) threeTakes
    (after { reuse := 3 } ((listing [0]).take { reuse := 3 } [] 0) threeTakes) []
    rfl (by decide) rfl rfl (by decide) (by decide)

/-- The same object listed twice is counted on twice: two executions
later it is handed out again. -/
theorem not_reusePause_twice : ¬ ReusePause { reuse := 3 } (listing [0, 0]) 0 := by
  intro h
  have hpause := h [] (listing [0, 0]) [] 0 ((listing [0, 0]).take { reuse := 3 } [] 0)
    [.tick 2000, .take [] 0, .take [] 0]
    (after { reuse := 3 } ((listing [0, 0]).take { reuse := 3 } [] 0)
      [.tick 2000, .take [] 0, .take [] 0]) []
    rfl (by decide) rfl rfl (by decide) (by decide)
  exact absurd hpause.1 (by decide)

end Rotator

end ProxyBroker.Proxy
