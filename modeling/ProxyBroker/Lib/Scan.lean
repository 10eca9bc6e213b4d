/-
ProxyBroker.Lib.Scan — flags and their count, set by a test with a state
of its own.

Items with a flag are tested one after the other; a test that succeeds
sets the flag, and the flags that are set are counted. The test has a
state, so what it says of an item may depend on the items before it.

`scan_agrees` is what can be relied on all the same. If the test never
succeeds without reason, is complete in its idle states, and stays idle
as long as it fails, then the count is 0 exactly as long as there is no
reason for any flag.

`scan_flags_iff` is what every single flag says: the flags of fresh
items are right exactly if each item is tested in a state in which the
test answers for it (`Reliable`). The count is always the number of flags
(`scan_count`).
-/
import Mathlib.Data.List.Basic

namespace Lib

variable {σ β : Type} (test : σ → β → Bool × σ)

/-- The flags, the state of the test and the count behind a list of
items. -/
def scan : σ → Nat → List (Bool × β) → List Bool × σ × Nat
  | s, n, [] => ([], s, n)
  | s, n, (flag, b) :: items =>
      let (found, s) := test s b
      let flag := flag || found
      let (flags, rest) := scan s (n + flag.toNat) items
      (flag :: flags, rest)

theorem le_scan (s : σ) (n : Nat) (items : List (Bool × β)) : n ≤ (scan test s n items).2.2 := by
  induction items generalizing s n with
  | nil => exact Nat.le_refl n
  | cons item items ih => exact Nat.le_trans (Nat.le_add_right n _) (ih _ _)

/-- The count and the state of the test, when `reason` says whether there
is a reason for a flag. -/
structure Agrees (idle : σ → Prop) (reason : Prop) (s : σ) (n : Nat) : Prop where
  counted : 0 < n → reason
  idle : n = 0 → idle s

theorem Agrees.mono {idle : σ → Prop} {reason reason' : Prop} {s : σ} {n : Nat}
    (h : Agrees idle reason s n) (himp : reason → reason') : Agrees idle reason' s n :=
  ⟨fun hn => himp (h.counted hn), h.idle⟩

/-- **A scan with a test that is right as long as it fails.** -/
theorem scan_agrees {found : β → Prop} {idle : σ → Prop}
    (hsound : ∀ s b, (test s b).1 = true → found b)
    (hcomplete : ∀ s b, idle s → found b → (test s b).1 = true)
    (hidle : ∀ s b, idle s → (test s b).1 = false → idle (test s b).2)
    {reason : Prop} {s : σ} {n : Nat} (h : Agrees idle reason s n) {items : List (Bool × β)}
    (hitems : ∀ p ∈ items, p.1 = true ∨ found p.2 → reason) :
    Agrees idle reason (scan test s n items).2.1 (scan test s n items).2.2 ∧
      ((scan test s n items).2.2 = 0 → ∀ p ∈ items, ¬ found p.2) ∧
      (∀ flag ∈ (scan test s n items).1, flag = true → reason) := by
  induction items generalizing s n with
  | nil =>
      refine ⟨h, ?_, ?_⟩
      · intro _ p hp
        cases hp
      · intro flag hflag
        cases hflag
  | cons item items ih =>
      obtain ⟨flag, b⟩ := item
      have hreason : (flag || (test s b).1) = true → reason := by
        intro hset
        refine hitems (flag, b) List.mem_cons_self ?_
        rcases Bool.or_eq_true _ _ |>.mp hset with hflag | htest
        · exact .inl hflag
        · exact .inr (hsound s b htest)
      have hnext : Agrees idle reason (test s b).2 (n + (flag || (test s b).1).toNat) := by
        refine ⟨?_, ?_⟩
        · intro hpos
          cases hset : (flag || (test s b).1) with
          | true => exact hreason hset
          | false =>
              rw [hset] at hpos
              exact h.counted (by simpa using hpos)
        · intro hzero
          have hset : (flag || (test s b).1) = false := by
            cases hset : (flag || (test s b).1) with
            | false => rfl
            | true =>
                rw [hset] at hzero
                simp at hzero
          rw [hset] at hzero
          exact hidle s b (h.idle (by simpa using hzero)) (Bool.or_eq_false_iff.mp hset).2
      obtain ⟨hagrees, hnone, hflags⟩ :=
        ih hnext (fun p hp => hitems p (List.mem_cons_of_mem _ hp))
      refine ⟨hagrees, ?_, ?_⟩
      · intro hzero p hp
        have hle := le_scan test (test s b).2 (n + (flag || (test s b).1).toNat) items
        have hz : n + (flag || (test s b).1).toNat = 0 := Nat.le_zero.mp (hzero ▸ hle)
        rcases List.mem_cons.mp hp with rfl | hp
        · -- the item was tested in an idle state
          intro hfound
          have htest := hcomplete s b (h.idle (by omega)) hfound
          rw [htest, Bool.or_true] at hz
          simp at hz
        · exact hnone hzero p hp
      · intro f hf
        rcases List.mem_cons.mp hf with rfl | hf
        · exact hreason
        · exact hflags f hf

theorem scan_count (s : σ) (n : Nat) (items : List (Bool × β)) :
    (scan test s n items).2.2 = n + (scan test s n items).1.count true := by
  induction items generalizing s n with
  | nil => rfl
  | cons item items ih =>
      obtain ⟨flag, b⟩ := item
      have hrest := ih (test s b).2 (n + (flag || (test s b).1).toNat)
      rw [scan, hrest, List.count_cons, Nat.add_assoc]
      cases flag || (test s b).1 <;> simp [Nat.add_comm]

/-- Every item is met in a state in which the test is right about it. -/
def Reliable (found : β → Prop) : σ → List β → Prop
  | _, [] => True
  | s, b :: bs => ((test s b).1 = true ↔ found b) ∧ Reliable found (test s b).2 bs

/-- **The flags of fresh items.** -/
theorem scan_flags_iff {found : β → Prop} [DecidablePred found] (s : σ) (n : Nat) (bs : List β) :
    (scan test s n (bs.map (fun b => (false, b)))).1 = bs.map (fun b => decide (found b)) ↔
      Reliable test found s bs := by
  induction bs generalizing s n with
  | nil => exact iff_of_true rfl trivial
  | cons b bs ih =>
      have hhead : (test s b).1 = decide (found b) ↔ ((test s b).1 = true ↔ found b) := by
        rw [Bool.eq_iff_iff, decide_eq_true_iff]
      rw [List.map_cons, List.map_cons, scan, List.cons.injEq, Bool.false_or, ih, hhead]
      exact Iff.rfl

end Lib
