/-
ProxyBroker.Lib.FirstSeen — lists that take what is new to them, at their
end.

`pushNew` takes one element and `pushAll` one after another. `pushAll_eq`
says what is there then: the list as it was, and behind it everything new,
each once and in the order of its first occurrence.
-/
import Mathlib.Data.List.Basic

namespace Lib

variable {α : Type} [DecidableEq α]

def pushNew (l : List α) (a : α) : List α := if a ∈ l then l else l ++ [a]

def pushAll (l as : List α) : List α := as.foldl pushNew l

@[simp] theorem pushAll_nil (l : List α) : pushAll l [] = l := rfl

@[simp] theorem pushAll_cons (l : List α) (a : α) (as : List α) :
    pushAll l (a :: as) = pushAll (pushNew l a) as := rfl

theorem pushAll_append (l as bs : List α) :
    pushAll l (as ++ bs) = pushAll (pushAll l as) bs := List.foldl_append

/-- **What is there in the end.** -/
theorem pushAll_eq (l as : List α) : pushAll l as = l ++ (as.removeAll l).eraseDups := by
  induction as generalizing l with
  | nil => simp [List.removeAll]
  | cons a as ih =>
      rw [pushAll_cons, ih, pushNew]
      by_cases ha : a ∈ l
      · have hskip : (a :: as).removeAll l = as.removeAll l := by simp [List.removeAll, ha]
        rw [if_pos ha, hskip]
      · have htake : (a :: as).removeAll l = a :: as.removeAll l := by simp [List.removeAll, ha]
        have hrest : as.removeAll (l ++ [a]) = (as.removeAll l).filter (fun b => !b == a) := by
          simp only [List.removeAll, List.filter_filter]
          congr 1
          funext b
          rw [Bool.eq_iff_iff]
          simp [and_comm]
        rw [if_neg ha, htake, hrest, List.eraseDups_cons]
        simp

theorem mem_pushNew {l : List α} {a b : α} : b ∈ pushNew l a ↔ b ∈ l ∨ b = a := by
  unfold pushNew
  split
  · rename_i ha
    exact ⟨Or.inl, fun h => h.elim id (fun hb => hb ▸ ha)⟩
  · simp

theorem mem_pushAll {l as : List α} {b : α} : b ∈ pushAll l as ↔ b ∈ l ∨ b ∈ as := by
  induction as generalizing l with
  | nil => simp
  | cons a as ih => rw [pushAll_cons, ih, mem_pushNew, List.mem_cons, or_assoc]

/-- The length shows whether something was new. -/
theorem length_pushAll_eq_iff {l as : List α} :
    l.length = (pushAll l as).length ↔ ∀ a ∈ as, a ∈ l := by
  constructor
  · intro hlength a ha
    rw [pushAll_eq, List.length_append, Nat.left_eq_add, List.length_eq_zero_iff] at hlength
    have hall : a ∈ pushAll l as := mem_pushAll.mpr (.inr ha)
    rwa [pushAll_eq, hlength, List.append_nil] at hall
  · intro hold
    have hnone : as.removeAll l = [] := by
      rw [List.removeAll, List.filter_eq_nil_iff]
      simpa using hold
    rw [pushAll_eq, hnone]
    simp

end Lib
