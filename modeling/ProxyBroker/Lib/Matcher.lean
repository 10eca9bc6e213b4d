/-
ProxyBroker.Lib.Matcher — backtracking as a list of ways: a `Matcher`
answers every way to match at the start of a text, with its result and
the text behind it, in the order a backtracking search tries them. The
match of a regular expression is the first way (`first`).

* `mem_andThen`, `mem_many`, … say which ways there are; they are simp
  lemmas, so that membership in the ways of a composed matcher unfolds to
  the text it matches;
* `first_andThen_many` says what a greedy repetition comes to first: the
  longest run behind which the rest still matches. Nothing else is said
  of the order.
-/
import Mathlib.Data.List.Basic

namespace Lib

/-- The ways to match at the start of a text, preferred ways first. -/
abbrev Matcher (α : Type) := List Char → List (α × List Char)

namespace Matcher

variable {α β : Type}

/-- The way a search comes to first. -/
def first (m : Matcher α) (s : List Char) : Option α := (m s).head?.map (·.1)

/-! ## Matchers -/

def done (a : α) : Matcher α := fun s => [(a, s)]

/-- One behind the other. -/
def andThen (m : Matcher α) (k : α → Matcher β) : Matcher β :=
  fun s => (m s).flatMap (fun p => k p.1 p.2)

/-- `$` -/
def stop : Matcher Unit := fun s => if s = [] then [((), s)] else []

def lit (t : List Char) : Matcher (List Char) :=
  fun s => if t.isPrefixOf s then [(t, s.drop t.length)] else []

/-- `m|m'` -/
def orElse (m m' : Matcher α) : Matcher α := fun s => m s ++ m' s

/-- `(m)?`, greedy. -/
def opt (m : Matcher α) : Matcher (Option α) :=
  fun s => (m s).map (fun p => (some p.1, p.2)) ++ [(none, s)]

/-- `p{0,n}`, greedy, for a class of characters. -/
def many (p : Char → Bool) : Nat → Matcher (List Char)
  | 0, s => [([], s)]
  | _ + 1, [] => [([], [])]
  | n + 1, c :: s =>
      if p c then (many p n s).map (fun q => (c :: q.1, q.2)) ++ [([], c :: s)]
      else [([], c :: s)]

/-- `p{1,n + 1}`, greedy. -/
def some1 (p : Char → Bool) (n : Nat) : Matcher (List Char)
  | [] => []
  | c :: s => if p c then (many p n s).map (fun q => (c :: q.1, q.2)) else []

/-! ## Which ways there are -/

@[simp] theorem mem_done {a b : α} {s r : List Char} : (b, r) ∈ done a s ↔ b = a ∧ r = s := by
  simp [done]

@[simp] theorem mem_andThen {m : Matcher α} {k : α → Matcher β} {s r : List Char} {b : β} :
    (b, r) ∈ andThen m k s ↔ ∃ a t, (a, t) ∈ m s ∧ (b, r) ∈ k a t := by
  simp [andThen]

@[simp] theorem mem_stop {u : Unit} {s r : List Char} : (u, r) ∈ stop s ↔ s = [] ∧ r = [] := by
  unfold stop
  split
  · simp_all
  · simp_all

@[simp] theorem mem_lit {t u s r : List Char} : (u, r) ∈ lit t s ↔ u = t ∧ s = t ++ r := by
  unfold lit
  split
  · rename_i h
    obtain ⟨q, rfl⟩ := List.isPrefixOf_iff_prefix.mp h
    simp [eq_comm]
  · rename_i h
    rw [List.isPrefixOf_iff_prefix] at h
    refine iff_of_false (List.not_mem_nil) ?_
    rintro ⟨-, rfl⟩
    exact h (List.prefix_append t r)

@[simp] theorem mem_orElse {m m' : Matcher α} {s r : List Char} {a : α} :
    (a, r) ∈ orElse m m' s ↔ (a, r) ∈ m s ∨ (a, r) ∈ m' s := by
  simp [orElse]

@[simp] theorem mem_opt {m : Matcher α} {s r : List Char} {a : Option α} :
    (a, r) ∈ opt m s ↔ (∃ b, a = some b ∧ (b, r) ∈ m s) ∨ a = none ∧ r = s := by
  simp only [opt, List.mem_append, List.mem_map, List.mem_singleton, Prod.mk.injEq,
    Prod.exists]
  constructor
  · rintro (⟨b, q, h, rfl, rfl⟩ | h)
    · exact .inl ⟨b, rfl, h⟩
    · exact .inr h
  · rintro (⟨b, rfl, h⟩ | h)
    · exact .inl ⟨b, r, h, rfl, rfl⟩
    · exact .inr h

/-- The ways with a first character, and the one without. -/
theorem mem_many_cons {p : Char → Bool} {n : Nat} {c : Char} {s t r : List Char} :
    (t, r) ∈ many p (n + 1) (c :: s) ↔
      (p c = true ∧ ∃ t', t = c :: t' ∧ (t', r) ∈ many p n s) ∨ t = [] ∧ r = c :: s := by
  rw [many]
  split
  · rename_i hc
    simp only [hc, true_and, List.mem_append, List.mem_map, List.mem_singleton, Prod.mk.injEq,
      Prod.exists]
    constructor
    · rintro (⟨t', r', h, rfl, rfl⟩ | h)
      · exact .inl ⟨t', rfl, h⟩
      · exact .inr h
    · rintro (⟨t', rfl, h⟩ | h)
      · exact .inl ⟨t', r, h, rfl, rfl⟩
      · exact .inr h
  · rename_i hc
    simp [hc]

@[simp] theorem mem_many {p : Char → Bool} {n : Nat} {s t r : List Char} :
    (t, r) ∈ many p n s ↔ s = t ++ r ∧ t.length ≤ n ∧ ∀ c ∈ t, p c = true := by
  have hempty (s t : List Char) : (t, r) = ([], s) ↔ s = t ++ r ∧ t = [] := by
    constructor
    · intro h
      cases h
      exact ⟨rfl, rfl⟩
    · rintro ⟨rfl, rfl⟩
      rfl
  induction n generalizing s t with
  | zero =>
      rw [many, List.mem_singleton, hempty]
      simp only [Nat.le_zero, List.length_eq_zero_iff]
      exact and_congr_right fun _ => ⟨fun h => ⟨h, by simp [h]⟩, fun h => h.1⟩
  | succ n ih =>
      cases s with
      | nil =>
          rw [many, List.mem_singleton, hempty]
          constructor
          · rintro ⟨h, rfl⟩
            exact ⟨h, by simp, by simp⟩
          · rintro ⟨h, -, -⟩
            exact ⟨h, (List.append_eq_nil_iff.mp h.symm).1⟩
      | cons c s =>
          rw [mem_many_cons]
          constructor
          · rintro (⟨hc, t', rfl, h⟩ | ⟨rfl, rfl⟩)
            · obtain ⟨rfl, hlength, hall⟩ := ih.mp h
              exact ⟨rfl, Nat.succ_le_succ hlength, List.forall_mem_cons.mpr ⟨hc, hall⟩⟩
            · simp
          · rintro ⟨h, hlength, hall⟩
            cases t with
            | nil => exact .inr ⟨rfl, h.symm⟩
            | cons d t =>
                obtain ⟨rfl, rfl⟩ := List.cons.inj h
                obtain ⟨hc, hall⟩ := List.forall_mem_cons.mp hall
                exact .inl ⟨hc, t, rfl, ih.mpr ⟨rfl, Nat.le_of_succ_le_succ hlength, hall⟩⟩

@[simp] theorem mem_some1 {p : Char → Bool} {n : Nat} {s t r : List Char} :
    (t, r) ∈ some1 p n s ↔
      s = t ++ r ∧ t ≠ [] ∧ t.length ≤ n + 1 ∧ ∀ c ∈ t, p c = true := by
  cases s with
  | nil =>
      refine iff_of_false List.not_mem_nil ?_
      rintro ⟨h, hne, -⟩
      exact hne (List.append_eq_nil_iff.mp h.symm).1
  | cons c s =>
      rw [some1]
      split
      · rename_i hc
        simp only [List.mem_map, Prod.mk.injEq, Prod.exists, mem_many]
        constructor
        · rintro ⟨t', r', ⟨rfl, hlength, hall⟩, rfl, rfl⟩
          exact ⟨rfl, by simp, Nat.succ_le_succ hlength, List.forall_mem_cons.mpr ⟨hc, hall⟩⟩
        · rintro ⟨h, hne, hlength, hall⟩
          obtain ⟨d, t', rfl⟩ := List.exists_cons_of_ne_nil hne
          obtain ⟨rfl, rfl⟩ := List.cons.inj h
          exact ⟨t', r, ⟨rfl, Nat.le_of_succ_le_succ hlength,
            (List.forall_mem_cons.mp hall).2⟩, rfl, rfl⟩
      · rename_i hc
        refine iff_of_false List.not_mem_nil ?_
        rintro ⟨h, hne, -, hall⟩
        obtain ⟨d, t', rfl⟩ := List.exists_cons_of_ne_nil hne
        exact hc ((List.cons.inj h).1 ▸ hall d List.mem_cons_self)

/-! ## Which way is first -/

theorem first_eq_none_iff {m : Matcher α} {s : List Char} : first m s = none ↔ m s = [] := by
  simp [first]

theorem mem_of_first {m : Matcher α} {s : List Char} {a : α} (h : first m s = some a) :
    ∃ r, (a, r) ∈ m s := by
  obtain ⟨⟨b, r⟩, hhead, rfl⟩ := Option.map_eq_some_iff.mp h
  exact ⟨r, List.mem_of_head? hhead⟩

/-- The first way through both goes through the first way of the one
behind which the other matches. -/
theorem first_andThen {m : Matcher α} {k : α → Matcher β} {s : List Char} {b : β}
    (h : first (andThen m k) s = some b) :
    ∃ before a r after, m s = before ++ (a, r) :: after ∧ first (k a) r = some b ∧
      ∀ q ∈ before, k q.1 q.2 = [] := by
  obtain ⟨⟨b', u⟩, hhead, rfl⟩ := Option.map_eq_some_iff.mp h
  rw [andThen, List.head?_flatMap, List.findSome?_eq_some_iff] at hhead
  obtain ⟨before, ⟨a, r⟩, after, hsplit, hfirst, hbefore⟩ := hhead
  refine ⟨before, a, r, after, hsplit, ?_, fun q hq => List.head?_eq_none_iff.mp (hbefore q hq)⟩
  rw [first, hfirst, Option.map_some]

/-- A greedy repetition takes back one character at a time. -/
theorem pairwise_many (p : Char → Bool) (n : Nat) (s : List Char) :
    (many p n s).Pairwise (fun q q' => q'.1.length < q.1.length) := by
  induction n generalizing s with
  | zero => exact List.pairwise_singleton _ _
  | succ n ih =>
      cases s with
      | nil => exact List.pairwise_singleton _ _
      | cons c s =>
          rw [many]
          split
          · rw [List.pairwise_append, List.pairwise_map]
            refine ⟨(ih s).imp (fun h => Nat.succ_lt_succ h), List.pairwise_singleton _ _, ?_⟩
            intro q hq q' hq'
            obtain ⟨q₀, -, rfl⟩ := List.mem_map.mp hq
            rw [List.mem_singleton.mp hq']
            exact Nat.succ_pos _
          · exact List.pairwise_singleton _ _

theorem pairwise_some1 (p : Char → Bool) (n : Nat) (s : List Char) :
    (some1 p n s).Pairwise (fun q q' => q'.1.length < q.1.length) := by
  cases s with
  | nil => exact List.Pairwise.nil
  | cons c s =>
      rw [some1]
      split
      · rw [List.pairwise_map]
        exact (pairwise_many p n s).imp (fun h => Nat.succ_lt_succ h)
      · exact List.Pairwise.nil

/-- **Greedy**: behind a longer run than the one taken nothing matches. -/
theorem first_andThen_some1 {p : Char → Bool} {n : Nat} {k : List Char → Matcher β}
    {s : List Char} {b : β} (h : first (andThen (some1 p n) k) s = some b) :
    ∃ t r, (t, r) ∈ some1 p n s ∧ first (k t) r = some b ∧
      ∀ t' r', (t', r') ∈ some1 p n s → t.length < t'.length → k t' r' = [] := by
  obtain ⟨before, t, r, after, hsplit, hfirst, hbefore⟩ := first_andThen h
  refine ⟨t, r, by rw [hsplit]; simp, hfirst, ?_⟩
  intro t' r' hmem hlonger
  have hsorted := pairwise_some1 p n s
  rw [hsplit] at hmem hsorted
  rcases List.mem_append.mp hmem with hearlier | hlater
  · exact hbefore (t', r') hearlier
  · rcases List.mem_cons.mp hlater with heq | hlater
    · cases heq
      exact absurd hlonger (Nat.lt_irrefl _)
    · have hshorter := (List.pairwise_cons.mp (List.pairwise_append.mp hsorted).2.1).1 _ hlater
      exact absurd hshorter (Nat.lt_asymm hlonger)

end Matcher

end Lib
