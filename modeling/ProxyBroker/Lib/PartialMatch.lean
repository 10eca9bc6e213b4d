/-
ProxyBroker.Lib.PartialMatch — looking an object up by a part of its
properties, the first that has them all.

* `covers_iff` — an object covers a pattern exactly if it has every
  property of the pattern, with a value that agrees;
* `getD_find?_eq_self_iff` — an object looked up in a list by all of its
  own properties is found exactly if it is not `Shadowed` there: if no
  other object that covers it stands before it;
* `filter_eq_filter_iff`, for what two filters leave of one list.
-/
import Mathlib.Data.List.AList

namespace Lib

/-! ## Partial matching -/

section Covers

variable {κ ν : Type} [DecidableEq κ]

/-- Every property of `q` is one of `o`, with a value that agrees. -/
def covers (agree : ν → ν → Bool) (o q : AList (fun _ : κ => ν)) : Bool :=
  q.entries.all fun e => (o.lookup e.1).any (agree · e.2)

theorem covers_iff {agree : ν → ν → Bool} {o q : AList (fun _ : κ => ν)} :
    covers agree o q = true ↔
      ∀ k w, q.lookup k = some w → ∃ v, o.lookup k = some v ∧ agree v w = true := by
  rw [covers, List.all_eq_true]
  constructor
  · intro h k w hk
    have hmem := h ⟨k, w⟩ (AList.mem_lookup_iff.mp hk)
    exact (Option.any_eq_true _ _).mp hmem
  · intro h e he
    exact (Option.any_eq_true _ _).mpr (h e.1 e.2 (AList.mem_lookup_iff.mpr he))

theorem covers_self {agree : ν → ν → Bool} (hrefl : ∀ v, agree v v = true)
    (o : AList (fun _ : κ => ν)) : covers agree o o = true :=
  covers_iff.mpr fun _ w hw => ⟨w, hw, hrefl w⟩

end Covers

/-! ## The first that matches -/

section Shadowed

variable {α : Type}

/-- Something else that `r` takes for `a` stands in `l`, and before any
`a`. -/
def Shadowed (r : α → α → Bool) (l : List α) (a : α) : Prop :=
  ∃ l₁ d l₂, l = l₁ ++ d :: l₂ ∧ a ∉ l₁ ∧ d ≠ a ∧ r d a = true

theorem not_shadowed_nil {r : α → α → Bool} {a : α} : ¬ Shadowed r [] a := by
  rintro ⟨l₁, d, l₂, h, -⟩
  simp at h

/-- **A look up of `a` by itself.** -/
theorem getD_find?_eq_self_iff {r : α → α → Bool} {l : List α} {a : α} (hrefl : r a a = true) :
    (l.find? (r · a)).getD a = a ↔ ¬ Shadowed r l a := by
  cases hfind : l.find? (r · a) with
  | none =>
      rw [List.find?_eq_none] at hfind
      refine iff_of_true rfl ?_
      rintro ⟨l₁, d, l₂, rfl, -, -, hd⟩
      exact hfind d (by simp) hd
  | some e =>
      obtain ⟨he, l₁, l₂, rfl, hbefore⟩ := List.find?_eq_some_iff_append.mp hfind
      have hfirst : a ∉ l₁ := fun ha => by simpa [hrefl] using hbefore a ha
      rw [Option.getD_some]
      constructor
      · rintro rfl ⟨m₁, d, m₂, hsplit, hm, hne, hd⟩
        -- the other one would stand before the first that matches
        rcases List.append_eq_append_iff.mp hsplit with ⟨s, rfl, hs⟩ | ⟨s, rfl, hs⟩
        · cases s with
          | nil => exact hne (List.cons.inj hs).1.symm
          | cons x s => exact hm (by simp [(List.cons.inj hs).1])
        · cases s with
          | nil => exact hne (List.cons.inj hs).1
          | cons x s =>
              have hx : x = d := (List.cons.inj hs).1.symm
              simpa [hx, hd] using hbefore x (by simp)
      · intro hnot
        by_contra hne
        exact hnot ⟨l₁, e, l₂, rfl, hfirst, hne, he⟩

theorem filter_eq_filter_iff {p q : α → Bool} (himp : ∀ a, q a = true → p a = true) {l : List α} :
    l.filter p = l.filter q ↔ ∀ a ∈ l, p a = true → q a = true := by
  constructor
  · intro h a ha hp
    have hmem : a ∈ l.filter q := h ▸ List.mem_filter.mpr ⟨ha, hp⟩
    exact (List.mem_filter.mp hmem).2
  · intro h
    refine List.filter_congr fun a ha => ?_
    exact Bool.eq_iff_iff.mpr ⟨h a ha, himp a⟩

end Shadowed

end Lib
