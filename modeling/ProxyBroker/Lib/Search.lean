/-
ProxyBroker.Lib.Search — first occurrence of a sequence in a list, and
splitting a list at every occurrence of a sequence.

`indexOf?` is the search every byte buffer and string API offers:
the offset of the leftmost occurrence, `none` when there is none.
`indexOf?_eq_some_iff` is its whole specification (an occurrence, and
no earlier one) and the rest of the module is read off it: an
occurrence survives appending (`indexOf?_append`), so a search that
succeeds on the first packet of a stream succeeds at the same offset
on the stream.

`splitSeq` cuts a list at the occurrences of a separator, scanning left
to right. It recurses on the list itself and carries the number of
elements still to skip, so it evaluates in the kernel. What it does is
said by `splitSeq_of_none` and `splitSeq_of_some`. The pieces joined are
the list (`intercalate_splitSeq`); pieces that were joined are read back
(`splitSeq_intercalate`), if the separator's first element does not come
again in it: then no separator can begin in a piece and end in the
separator behind it.
-/
import Mathlib.Data.List.Infix

namespace Lib

variable {α : Type} [DecidableEq α]

/-! ## First occurrence -/

/-- Offset of the leftmost occurrence of `pat`. -/
def indexOf? (pat : List α) : List α → Option Nat
  | [] => if pat.isEmpty then some 0 else none
  | a :: l => if pat.isPrefixOf (a :: l) then some 0 else (indexOf? pat l).map (· + 1)

omit [DecidableEq α] in
theorem prefix_drop_length {pat l : List α} {i : Nat} (hne : pat ≠ [])
    (h : pat <+: l.drop i) : i + pat.length ≤ l.length := by
  have hlen := h.length_le
  have hpos := List.length_pos_iff.mpr hne
  rw [List.length_drop] at hlen
  omega

/-- **Specification of `indexOf?`**: an occurrence, and none before it. -/
theorem indexOf?_eq_some_iff {pat : List α} (hne : pat ≠ []) :
    ∀ {l : List α} {i : Nat},
      indexOf? pat l = some i ↔ pat <+: l.drop i ∧ ∀ j < i, ¬ pat <+: l.drop j
  | [], i => by
      have hemp : pat.isEmpty = false := by simpa using hne
      simp [indexOf?, hemp, hne]
  | a :: l, i => by
      rw [indexOf?]
      by_cases hp : pat <+: a :: l
      · rw [if_pos (List.isPrefixOf_iff_prefix.mpr hp)]
        constructor
        · intro h
          cases h
          exact ⟨hp, fun j hj => absurd hj (Nat.not_lt_zero j)⟩
        · rintro ⟨_, hmin⟩
          rcases Nat.eq_zero_or_pos i with h0 | hpos
          · rw [h0]
          · exact absurd hp (hmin 0 hpos)
      · rw [if_neg (fun h => hp (List.isPrefixOf_iff_prefix.mp h))]
        cases i with
        | zero => simp [hp]
        | succ i =>
            rw [Option.map_eq_some_iff]
            simp only [Nat.add_right_cancel_iff, exists_eq_right]
            rw [indexOf?_eq_some_iff hne, List.drop_succ_cons]
            constructor
            · rintro ⟨hocc, hmin⟩
              refine ⟨hocc, fun j hj => ?_⟩
              cases j with
              | zero => exact hp
              | succ j => exact hmin j (by omega)
            · rintro ⟨hocc, hmin⟩
              exact ⟨hocc, fun j hj => hmin (j + 1) (by omega)⟩

/-- No occurrence at all. -/
theorem indexOf?_eq_none_iff {pat : List α} (hne : pat ≠ []) {l : List α} :
    indexOf? pat l = none ↔ ∀ i, ¬ pat <+: l.drop i := by
  constructor
  · intro h i
    induction i using Nat.strongRecOn with
    | ind i ih =>
        intro hocc
        have := (indexOf?_eq_some_iff hne).mpr ⟨hocc, ih⟩
        rw [h] at this
        cases this
  · intro h
    cases hidx : indexOf? pat l with
    | none => rfl
    | some i => exact absurd ((indexOf?_eq_some_iff hne).mp hidx).1 (h i)

/-- An occurrence at some offset bounds the first one. -/
theorem indexOf?_le_of_prefix {pat l : List α} (hne : pat ≠ []) {k : Nat}
    (h : pat <+: l.drop k) : ∃ i ≤ k, indexOf? pat l = some i := by
  cases hidx : indexOf? pat l with
  | none => exact absurd h ((indexOf?_eq_none_iff hne).mp hidx k)
  | some i =>
      refine ⟨i, ?_, rfl⟩
      by_contra hlt
      exact ((indexOf?_eq_some_iff hne).mp hidx).2 k (by omega) h

theorem indexOf?_length_le {pat l : List α} (hne : pat ≠ []) {i : Nat}
    (h : indexOf? pat l = some i) : i + pat.length ≤ l.length :=
  prefix_drop_length hne ((indexOf?_eq_some_iff hne).mp h).1

/-- Appending does not move a first occurrence. -/
theorem indexOf?_append {pat l : List α} (hne : pat ≠ []) {i : Nat}
    (h : indexOf? pat l = some i) (r : List α) : indexOf? pat (l ++ r) = some i := by
  obtain ⟨hocc, hmin⟩ := (indexOf?_eq_some_iff hne).mp h
  have hlen := prefix_drop_length hne hocc
  refine (indexOf?_eq_some_iff hne).mpr ⟨?_, fun j hj hpre => hmin j hj ?_⟩
  · rw [List.drop_append_of_le_length (by omega)]
    exact hocc.trans (List.prefix_append _ _)
  · rw [List.drop_append_of_le_length (by omega)] at hpre
    refine List.prefix_of_prefix_length_le hpre (List.prefix_append _ _) ?_
    rw [List.length_drop]
    omega

/-- A longer pattern occurs no earlier than a prefix of it. -/
theorem indexOf?_of_prefix {pat pat' l : List α} (hne : pat ≠ []) (hne' : pat' ≠ [])
    (hpre : pat <+: pat') {k : Nat} (h : indexOf? pat' l = some k) :
    ∃ i ≤ k, indexOf? pat l = some i :=
  indexOf?_le_of_prefix hne (hpre.trans ((indexOf?_eq_some_iff hne').mp h).1)

/-- A part of a list has no occurrence the list does not have. -/
theorem indexOf?_eq_none_of_isInfix {pat l m : List α} (hne : pat ≠ []) (h : m <:+: l)
    (hl : indexOf? pat l = none) : indexOf? pat m = none := by
  obtain ⟨s, t, rfl⟩ := h
  rw [indexOf?_eq_none_iff hne] at hl ⊢
  intro i hi
  by_cases hle : i ≤ m.length
  · apply hl (s.length + i)
    rw [List.append_assoc, ← List.drop_drop, List.drop_left, List.drop_append_of_le_length hle]
    exact hi.trans (List.prefix_append _ _)
  · rw [List.drop_of_length_le (by omega)] at hi
    exact hne (List.prefix_nil.mp hi)

/-- An element that is not in the pattern keeps what stands on its left
from what stands on its right. -/
theorem indexOf?_append_cons_of_not_mem {pat p q : List α} {c : α} (hne : pat ≠ [])
    (hc : c ∉ pat) (hp : indexOf? pat p = none) (hq : indexOf? pat q = none) :
    indexOf? pat (p ++ c :: q) = none := by
  rw [indexOf?_eq_none_iff hne] at hp hq ⊢
  intro i hi
  rcases Nat.lt_or_ge p.length i with hlt | hle
  · obtain ⟨k, rfl⟩ := Nat.exists_eq_add_of_lt hlt
    rw [Nat.add_assoc, ← List.drop_drop, List.drop_left, List.drop_succ_cons] at hi
    exact hq k hi
  · rw [List.drop_append_of_le_length hle] at hi
    rcases Nat.lt_or_ge (p.drop i).length pat.length with hlt | hge
    · have hpre : p.drop i ++ [c] <+: p.drop i ++ c :: q :=
        (List.prefix_append_right_inj _).mpr (List.prefix_append [c] q)
      have hmem := List.prefix_of_prefix_length_le hpre hi (by
        rw [List.length_append]
        exact hlt)
      exact hc (hmem.subset (by simp))
    · exact hp i (List.prefix_of_prefix_length_le hi (List.prefix_append _ _) hge)

/-! ## Splitting -/

/-- The pieces of a list between the occurrences of `sep`; the first
argument counts the elements of a separator still to be dropped. -/
def splitSeqFrom (sep : List α) : Nat → List α → List (List α)
  | _, [] => [[]]
  | k + 1, _ :: l => splitSeqFrom sep k l
  | 0, a :: l =>
      if sep.isPrefixOf (a :: l) then [] :: splitSeqFrom sep (sep.length - 1) l
      else (splitSeqFrom sep 0 l).modifyHead (a :: ·)

def splitSeq (sep l : List α) : List (List α) := splitSeqFrom sep 0 l

theorem splitSeqFrom_drop (sep : List α) (k : Nat) (l : List α) :
    splitSeqFrom sep k l = splitSeq sep (l.drop k) := by
  induction l generalizing k with
  | nil => cases k <;> rfl
  | cons a l ih =>
      cases k with
      | zero => rfl
      | succ k => rw [splitSeqFrom, ih, List.drop_succ_cons]

/-- Without an occurrence there is one piece. -/
theorem splitSeq_of_none {sep l : List α} (h : indexOf? sep l = none) : splitSeq sep l = [l] := by
  induction l with
  | nil => rfl
  | cons a l ih =>
      rw [indexOf?] at h
      split at h
      · cases h
      · rename_i hno
        rw [splitSeq, splitSeqFrom, if_neg hno]
        show (splitSeq sep l).modifyHead _ = _
        rw [ih (Option.map_eq_none_iff.mp h), List.modifyHead_cons]

/-- The first piece ends at the first occurrence. -/
theorem splitSeq_of_some {sep l : List α} (hne : sep ≠ []) {i : Nat}
    (h : indexOf? sep l = some i) :
    splitSeq sep l = l.take i :: splitSeq sep (l.drop (i + sep.length)) := by
  have hpos := List.length_pos_iff.mpr hne
  induction l generalizing i with
  | nil =>
      rw [indexOf?, if_neg (by simpa using hne)] at h
      cases h
  | cons a l ih =>
      rw [indexOf?] at h
      split at h
      · rename_i hyes
        cases h
        rw [splitSeq, splitSeqFrom, if_pos hyes, splitSeqFrom_drop, Nat.zero_add, List.take_zero,
          ← List.drop_succ_cons (a := a) (i := sep.length - 1), Nat.sub_add_cancel hpos]
      · rename_i hno
        obtain ⟨j, hj, rfl⟩ := Option.map_eq_some_iff.mp h
        rw [splitSeq, splitSeqFrom, if_neg hno]
        show (splitSeq sep l).modifyHead _ = _
        rw [ih hj, List.modifyHead_cons, List.take_succ_cons, Nat.add_right_comm,
          List.drop_succ_cons]

/-- A separator whose first element does not come again does not begin
in what stands before it. -/
theorem indexOf?_append_sep {x : α} {t p : List α} (hx : x ∉ t)
    (hp : indexOf? (x :: t) p = none) (r : List α) :
    indexOf? (x :: t) (p ++ (x :: t ++ r)) = some p.length := by
  refine (indexOf?_eq_some_iff (by simp)).mpr ⟨?_, ?_⟩
  · rw [List.drop_left]
    exact List.prefix_append _ _
  · intro j hj hpre
    rw [List.drop_append_of_le_length (by omega)] at hpre
    have hlen : (p.drop j).length = p.length - j := List.length_drop
    by_cases hfit : (x :: t).length ≤ (p.drop j).length
    · -- it fits in front of the separator
      exact (indexOf?_eq_none_iff (by simp)).mp hp j
        (List.prefix_of_prefix_length_le hpre (List.prefix_append _ _) hfit)
    · -- it reaches into the separator, so the first element comes again
      obtain ⟨y, q, hq⟩ := List.exists_cons_of_ne_nil
        (show p.drop j ≠ [] by
          intro hnil
          rw [hnil, List.length_nil] at hlen
          omega)
      rw [hq] at hpre hfit
      obtain ⟨u, hu⟩ := hpre
      rw [List.cons_append, List.cons_append, List.cons.injEq] at hu
      have hget : (t ++ u)[q.length]? = some x := by
        rw [hu.2, List.getElem?_append_right (Nat.le_refl _), Nat.sub_self]
        rfl
      have hlt : q.length < t.length := by
        simp only [List.length_cons] at hfit
        omega
      rw [List.getElem?_append_left hlt] at hget
      exact hx (List.mem_of_getElem? hget)

/-- Where the first element does not occur, no occurrence begins. -/
theorem indexOf?_append_of_not_mem {x : α} {t p : List α} (hp : x ∉ p) (l : List α) :
    indexOf? (x :: t) (p ++ l) = (indexOf? (x :: t) l).map (· + p.length) := by
  induction p with
  | nil => simp
  | cons a p ih =>
      have hne : ¬ (x :: t).isPrefixOf (a :: (p ++ l)) = true := by
        intro hpre
        obtain ⟨r, hr⟩ := List.isPrefixOf_iff_prefix.mp hpre
        exact hp (List.mem_cons.mpr (.inl (List.cons.inj hr).1))
      rw [List.cons_append, indexOf?, if_neg hne, ih (fun h => hp (List.mem_cons_of_mem _ h)),
        Option.map_map]
      rfl

/-- A separator with more behind it: found at the first separator if that
is followed by the rest of the pattern. -/
theorem indexOf?_sep_append_here {x : α} {t p pat r : List α} (hx : x ∉ t)
    (hp : indexOf? (x :: t) p = none) (hr : pat <+: r) :
    indexOf? (x :: t ++ pat) (p ++ (x :: t ++ r)) = some p.length := by
  obtain ⟨-, hmin⟩ := (indexOf?_eq_some_iff (by simp)).mp (indexOf?_append_sep hx hp r)
  refine (indexOf?_eq_some_iff (by simp)).mpr ⟨?_, ?_⟩
  · rw [List.drop_left]
    exact (List.prefix_append_right_inj _).mpr hr
  · intro j hj hpre
    exact hmin j hj ((List.prefix_append _ _).trans hpre)

/-- And otherwise no earlier than behind that separator. -/
theorem indexOf?_sep_append_later {x : α} {t p pat r : List α} (hx : x ∉ t)
    (hp : indexOf? (x :: t) p = none) (hr : ¬ pat <+: r) {k : Nat}
    (hk : indexOf? (x :: t ++ pat) r = some k) :
    indexOf? (x :: t ++ pat) (p ++ (x :: t ++ r)) = some (p.length + (x :: t).length + k) := by
  obtain ⟨-, hfirst⟩ := (indexOf?_eq_some_iff (by simp)).mp (indexOf?_append_sep hx hp r)
  obtain ⟨hocc, hmin⟩ := (indexOf?_eq_some_iff (by simp)).mp hk
  have hdrop : ∀ i, (p ++ (x :: t ++ r)).drop (p.length + (x :: t).length + i) = r.drop i := by
    intro i
    rw [← List.drop_drop, ← List.drop_drop, List.drop_left, List.drop_left]
  refine (indexOf?_eq_some_iff (by simp)).mpr ⟨?_, ?_⟩
  · rw [hdrop]
    exact hocc
  · intro j hj hpre
    have hsep : x :: t <+: (p ++ (x :: t ++ r)).drop j := (List.prefix_append _ _).trans hpre
    have hge : p.length ≤ j := by
      by_contra hlt
      exact hfirst j (by omega) hsep
    rcases Nat.lt_or_ge j (p.length + (x :: t).length) with hlt | hge'
    · obtain ⟨i, rfl⟩ := Nat.exists_eq_add_of_le hge
      rw [← List.drop_drop, List.drop_left] at hpre hsep
      cases i with
      | zero => exact hr ((List.prefix_append_right_inj _).mp hpre)
      | succ i =>
          -- inside the separator, whose first element does not come again
          have hi : i < t.length := by
            simp only [List.length_cons] at hlt
            omega
          rw [List.cons_append, List.drop_succ_cons,
            List.drop_append_of_le_length (Nat.le_of_lt hi), List.drop_eq_getElem_cons hi] at hsep
          obtain ⟨u, hu⟩ := hsep
          exact hx ((List.cons.inj hu).1 ▸ List.getElem_mem hi)
    · obtain ⟨i, rfl⟩ := Nat.exists_eq_add_of_le hge'
      rw [hdrop] at hpre
      exact hmin i (by omega) hpre

/-- The first separator cuts a list in one way. -/
theorem append_sep_inj {x : α} {t p q r s : List α} (hx : x ∉ t)
    (hp : indexOf? (x :: t) p = none) (hq : indexOf? (x :: t) q = none)
    (h : p ++ (x :: t ++ r) = q ++ (x :: t ++ s)) : p = q ∧ r = s := by
  have hlen := indexOf?_append_sep hx hp r
  rw [h, indexOf?_append_sep hx hq s, Option.some.injEq] at hlen
  obtain ⟨rfl, hrest⟩ := List.append_inj h hlen.symm
  exact ⟨rfl, List.append_cancel_left hrest⟩

/-- A pattern of two elements that is in neither part of a list lies
across the cut. -/
theorem exists_of_indexOf?_append {x y : α} {p q : List α} (hp : indexOf? [x, y] p = none)
    (hq : indexOf? [x, y] q = none) (h : indexOf? [x, y] (p ++ q) ≠ none) :
    ∃ p' q', p = p' ++ [x] ∧ q = y :: q' := by
  obtain ⟨i, hi⟩ := Option.ne_none_iff_exists'.mp h
  have hocc := ((indexOf?_eq_some_iff (by simp)).mp hi).1
  rw [indexOf?_eq_none_iff (by simp)] at hp hq
  rcases Nat.lt_or_ge i p.length with hlt | hge
  · rw [List.drop_append_of_le_length (Nat.le_of_lt hlt)] at hocc
    cases hd : p.drop i with
    | nil =>
        rw [List.drop_eq_nil_iff] at hd
        omega
    | cons a d =>
        rw [hd] at hocc
        obtain ⟨r, hr⟩ := hocc
        obtain ⟨rfl, hrest⟩ := List.cons.inj hr
        cases d with
        | nil =>
            refine ⟨p.take i, r, ?_, hrest.symm⟩
            rw [← hd, List.take_append_drop]
        | cons b d =>
            refine absurd ?_ (hp i)
            obtain ⟨rfl, -⟩ := List.cons.inj hrest
            exact ⟨d, hd.symm⟩
  · obtain ⟨k, rfl⟩ := Nat.exists_eq_add_of_le hge
    rw [← List.drop_drop, List.drop_left] at hocc
    exact absurd hocc (hq k)

omit [DecidableEq α] in
/-- What a list carries from its end to its front is turned round. -/
theorem append_conj {p x y : List α} (h : p ++ x = y ++ p) :
    ∃ a b, y = a ++ b ∧ x = b ++ a := by
  induction hn : p.length using Nat.strongRecOn generalizing p with
  | ind n ih =>
      cases y with
      | nil =>
          have hx : x = [] := by simpa using h
          exact ⟨[], [], rfl, hx⟩
      | cons z y =>
          rcases List.append_eq_append_iff.mp h with ⟨b, hy, hx⟩ | ⟨p', hp, hrest⟩
          · exact ⟨p, b, hy, hx⟩
          · refine ih p'.length ?_ (p := p') ?_ rfl
            · rw [← hn, hp, List.length_append, List.length_cons]
              omega
            · rw [← hp, ← hrest]

theorem splitSeq_append_sep {x : α} {t p : List α} (hx : x ∉ t)
    (hp : indexOf? (x :: t) p = none) (r : List α) :
    splitSeq (x :: t) (p ++ (x :: t ++ r)) = p :: splitSeq (x :: t) r := by
  rw [splitSeq_of_some (by simp) (indexOf?_append_sep hx hp r), List.take_left,
    ← List.drop_drop, List.drop_left, List.drop_left]

/-- **Joining and splitting**: pieces without a separator are read back. -/
theorem splitSeq_intercalate {x : α} {t : List α} (hx : x ∉ t) {ps : List (List α)}
    (hne : ps ≠ []) (hps : ∀ p ∈ ps, indexOf? (x :: t) p = none) :
    splitSeq (x :: t) ((x :: t).intercalate ps) = ps := by
  induction ps with
  | nil => exact absurd rfl hne
  | cons p ps ih =>
      have hp := hps p List.mem_cons_self
      cases ps with
      | nil => rw [List.intercalate_singleton, splitSeq_of_none hp]
      | cons q ps =>
          rw [List.intercalate_cons_cons, List.append_assoc, splitSeq_append_sep hx hp,
            ih (by simp) (fun p' hp' => hps p' (List.mem_cons_of_mem _ hp'))]

/-- No piece has the separator in it. -/
theorem not_sep_of_mem_splitSeq {sep : List α} (hne : sep ≠ []) {l p : List α}
    (hp : p ∈ splitSeq sep l) : indexOf? sep p = none := by
  induction hn : l.length using Nat.strongRecOn generalizing l with
  | ind n ih =>
      cases h : indexOf? sep l with
      | none =>
          rw [splitSeq_of_none h, List.mem_singleton] at hp
          rw [hp, h]
      | some i =>
          have hlen := indexOf?_length_le hne h
          have hpos := List.length_pos_iff.mpr hne
          rw [splitSeq_of_some hne h] at hp
          rcases List.mem_cons.mp hp with rfl | hp
          · cases htake : indexOf? sep (l.take i) with
            | none => rfl
            | some j =>
                have hj := indexOf?_append hne htake (l.drop i)
                rw [List.take_append_drop, h, Option.some.injEq] at hj
                have hle := indexOf?_length_le hne htake
                rw [List.length_take] at hle
                omega
          · exact ih (l.drop (i + sep.length)).length (by rw [List.length_drop]; omega) hp rfl

/-- What stands in front of the first occurrence, and what behind. -/
theorem exists_of_indexOf?_some {sep l : List α} (hne : sep ≠ []) {i : Nat}
    (h : indexOf? sep l = some i) : ∃ a b, l = a ++ (sep ++ b) ∧ indexOf? sep a = none := by
  obtain ⟨⟨b, hb⟩, -⟩ := (indexOf?_eq_some_iff hne).mp h
  refine ⟨l.take i, b, by rw [hb, List.take_append_drop], ?_⟩
  refine not_sep_of_mem_splitSeq (l := l) hne ?_
  rw [splitSeq_of_some hne h]
  exact List.mem_cons_self

theorem splitSeq_ne_nil {sep : List α} (hne : sep ≠ []) (l : List α) : splitSeq sep l ≠ [] := by
  cases h : indexOf? sep l with
  | none => simp [splitSeq_of_none h]
  | some i => simp [splitSeq_of_some hne h]

/-- The pieces, joined, are the list. -/
theorem intercalate_splitSeq {sep : List α} (hne : sep ≠ []) (l : List α) :
    sep.intercalate (splitSeq sep l) = l := by
  induction hn : l.length using Nat.strongRecOn generalizing l with
  | ind n ih =>
      cases h : indexOf? sep l with
      | none => rw [splitSeq_of_none h, List.intercalate_singleton]
      | some i =>
          have hlen := indexOf?_length_le hne h
          have hpos := List.length_pos_iff.mpr hne
          have hrest := ih (l.drop (i + sep.length)).length (by rw [List.length_drop]; omega) _ rfl
          obtain ⟨r, hr⟩ := ((indexOf?_eq_some_iff hne).mp h).1
          have hdrop : l.drop (i + sep.length) = r := by
            rw [← List.drop_drop, ← hr, List.drop_left]
          obtain ⟨q, qs, hq⟩ := List.exists_cons_of_ne_nil
            (splitSeq_ne_nil hne (l.drop (i + sep.length)))
          rw [splitSeq_of_some hne h, hq, List.intercalate_cons_cons, ← hq, hrest, hdrop,
            List.append_assoc, hr, List.take_append_drop]

/-- The pieces of a beginning of joined pieces: each begins a piece and
its separator. -/
theorem prefix_of_mem_splitSeq {x : α} {t : List α} (hx : x ∉ t) {ps : List (List α)}
    (hps : ∀ p ∈ ps, indexOf? (x :: t) p = none) {l p : List α}
    (hl : l <+: (x :: t).intercalate ps) (hp : p ∈ splitSeq (x :: t) l) :
    p = [] ∨ ∃ q ∈ ps, p <+: q ++ (x :: t) := by
  induction ps generalizing l with
  | nil =>
      have hnil : l = [] := List.prefix_nil.mp hl
      rw [hnil] at hp
      exact .inl (List.mem_singleton.mp hp)
  | cons q ps ih =>
      have hq := hps q List.mem_cons_self
      cases ps with
      | nil =>
          rw [List.intercalate_singleton] at hl
          rw [splitSeq_of_none (indexOf?_eq_none_of_isInfix (by simp) hl.isInfix hq),
            List.mem_singleton] at hp
          rw [hp]
          exact .inr ⟨q, List.mem_cons_self, hl.trans (List.prefix_append _ _)⟩
      | cons q' ps =>
          rw [List.intercalate_cons_cons, List.append_assoc] at hl
          have hfirst := indexOf?_append_sep hx hq ((x :: t).intercalate (q' :: ps))
          rcases Nat.lt_or_ge l.length (q ++ (x :: t)).length with hlt | hge
          · -- the first separator is not complete
            have hnone : indexOf? (x :: t) l = none := by
              cases h : indexOf? (x :: t) l with
              | none => rfl
              | some j =>
                  obtain ⟨r, hr⟩ := hl
                  have hj := indexOf?_append (by simp) h r
                  rw [hr, hfirst, Option.some.injEq] at hj
                  have hle := indexOf?_length_le (by simp) h
                  rw [List.length_append] at hlt
                  omega
            rw [splitSeq_of_none hnone, List.mem_singleton] at hp
            rw [hp]
            refine .inr ⟨q, List.mem_cons_self, ?_⟩
            rw [← List.append_assoc] at hl
            exact List.prefix_of_prefix_length_le hl (List.prefix_append _ _) (Nat.le_of_lt hlt)
          · rw [← List.append_assoc] at hl
            obtain ⟨l', rfl⟩ := List.prefix_of_prefix_length_le (List.prefix_append _ _) hl hge
            rw [List.prefix_append_right_inj] at hl
            rw [List.append_assoc, splitSeq_append_sep hx hq] at hp
            rcases List.mem_cons.mp hp with rfl | hp
            · exact .inr ⟨p, List.mem_cons_self, List.prefix_append _ _⟩
            · rcases ih (fun p hp => hps p (List.mem_cons_of_mem _ hp)) hl hp with h | ⟨k, hk, h⟩
              · exact .inl h
              · exact .inr ⟨k, List.mem_cons_of_mem _ hk, h⟩

end Lib
