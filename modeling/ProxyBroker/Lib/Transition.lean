/-
ProxyBroker.Lib.Transition — machines with a partial step function, their
runs, and the induction rules for run properties.

A `Machine` takes a labelled step or refuses it (`none`: the action is
not enabled in that state). `run` folds a list of actions; every
scheduling choice is an action, so "for every interleaving" is "for
every list of actions".

These rules do the inductions:

* `run_invariant` — what every step keeps, every run keeps
  (`run_invariant_on`: every step of a kind, every run of the kind);
* `run_guarded` — the same when the steps are known to meet a side
  condition on the state before the step (`Along`), and `run_counted` for
  what is kept with a number that counts the steps of a kind;
* `always_of_along` and `along_of_always` — from the condition on the
  steps to a property of all states of the run, and back. Together, when
  a step keeps the property exactly if it meets the condition, they are
  `always_iff_along`;
* `end_iff_along` — the same for the last state, where what is lost stays
  lost;
* `run_rank` — a bound on the steps of a kind, from a rank that pays for
  them;
* `Refines.run` and `Refines.along` — a run of one machine is a run of
  another.

`run_append` splits a run at any point, which is how a property of two
moments of one run is stated.
-/
import Mathlib.Data.List.Basic

namespace Lib

/-- A transition system whose nondeterminism is in its actions. -/
structure Machine (σ α : Type) where
  step : σ → α → Option σ

namespace Machine

variable {σ α : Type} (m : Machine σ α)

/-! ## Runs -/

def run : σ → List α → Option σ
  | s, [] => some s
  | s, a :: as => (m.step s a).bind (fun s' => run s' as)

@[simp] theorem run_nil (s : σ) : m.run s [] = some s := rfl

theorem run_cons (s : σ) (a : α) (as : List α) :
    m.run s (a :: as) = (m.step s a).bind (fun s' => m.run s' as) := rfl

theorem run_cons_eq_some {s t : σ} {a : α} {as : List α} :
    m.run s (a :: as) = some t ↔ ∃ s', m.step s a = some s' ∧ m.run s' as = some t := by
  rw [run_cons, Option.bind_eq_some_iff]

@[simp] theorem run_singleton (s : σ) (a : α) : m.run s [a] = m.step s a := by
  cases h : m.step s a <;> simp [run_cons, h]

theorem run_append (s : σ) (as bs : List α) :
    m.run s (as ++ bs) = (m.run s as).bind (fun s' => m.run s' bs) := by
  induction as generalizing s with
  | nil => rfl
  | cons a as ih =>
      rw [List.cons_append, run_cons, run_cons, Option.bind_assoc]
      congr 1
      funext s'
      exact ih s'

/-- Reached from a state of `init` by some run. -/
def Reachable (init : σ → Prop) (t : σ) : Prop :=
  ∃ s as, init s ∧ m.run s as = some t

/-! ## Invariants -/

/-- **Invariant rule** for runs whose actions are all of a kind: what one
step keeps, every run keeps. -/
theorem run_invariant_on {inv : σ → Prop} {good : α → Prop}
    (hstep : ∀ s a s', inv s → good a → m.step s a = some s' → inv s')
    {s t : σ} {as : List α} (hs : inv s) (hgood : ∀ a ∈ as, good a)
    (h : m.run s as = some t) : inv t := by
  induction as generalizing s with
  | nil => cases h; exact hs
  | cons a as ih =>
      obtain ⟨s', h1, h2⟩ := (m.run_cons_eq_some).mp h
      exact ih (hstep s a s' hs (hgood a List.mem_cons_self) h1)
        (fun b hb => hgood b (List.mem_cons_of_mem _ hb)) h2

/-- The same for all actions. -/
theorem run_invariant {inv : σ → Prop}
    (hstep : ∀ s a s', inv s → m.step s a = some s' → inv s')
    {s t : σ} {as : List α} (hs : inv s) (h : m.run s as = some t) : inv t :=
  m.run_invariant_on (fun s a s' hs (_ : True) h1 => hstep s a s' hs h1) hs
    (fun _ _ => trivial) h

/-- Every step of the run meets `ok` in the state it is taken from. -/
def Along (ok : σ → α → Prop) : σ → List α → Prop
  | _, [] => True
  | s, a :: as => ok s a ∧ ∀ s' ∈ m.step s a, Along ok s' as

def decidableAlong (ok : σ → α → Prop) [∀ s a, Decidable (ok s a)] :
    ∀ s as, Decidable (m.Along ok s as)
  | _, [] => inferInstanceAs (Decidable True)
  | s, a :: as =>
      haveI : ∀ s', Decidable (m.Along ok s' as) := fun s' => decidableAlong ok s' as
      inferInstanceAs (Decidable (ok s a ∧ ∀ s' ∈ m.step s a, m.Along ok s' as))

instance (ok : σ → α → Prop) [∀ s a, Decidable (ok s a)] (s : σ) (as : List α) :
    Decidable (m.Along ok s as) := m.decidableAlong ok s as

theorem along_true {s : σ} {as : List α} : m.Along (fun _ _ => True) s as := by
  induction as generalizing s with
  | nil => trivial
  | cons a as ih => exact ⟨trivial, fun _ _ => ih⟩

theorem along_of_forall_mem {good : α → Prop} {s : σ} {as : List α} (h : ∀ a ∈ as, good a) :
    m.Along (fun _ a => good a) s as := by
  induction as generalizing s with
  | nil => trivial
  | cons a as ih =>
      exact ⟨h a List.mem_cons_self, fun _ _ => ih fun b hb => h b (List.mem_cons_of_mem _ hb)⟩

theorem along_append {ok : σ → α → Prop} {s : σ} {as bs : List α} :
    m.Along ok s (as ++ bs) ↔ m.Along ok s as ∧ ∀ t ∈ m.run s as, m.Along ok t bs := by
  induction as generalizing s with
  | nil => simp [Along]
  | cons a as ih =>
      cases h : m.step s a with
      | none => simp [Along, run_cons, h]
      | some s' => simp [Along, run_cons, h, ih, and_assoc]

theorem along_and {ok ok' : σ → α → Prop} {s : σ} {as : List α} :
    m.Along (fun s a => ok s a ∧ ok' s a) s as ↔ m.Along ok s as ∧ m.Along ok' s as := by
  induction as generalizing s with
  | nil => simp [Along]
  | cons a as ih => simp only [Along, ih]; grind

/-- **Guarded invariant rule**: what every step that meets `ok` keeps,
every run whose steps meet `ok` keeps. -/
theorem run_guarded {ok : σ → α → Prop} {inv : σ → Prop}
    (hstep : ∀ s a s', inv s → ok s a → m.step s a = some s' → inv s')
    {s t : σ} {as : List α} (hok : m.Along ok s as) (hs : inv s)
    (h : m.run s as = some t) : inv t := by
  induction as generalizing s with
  | nil => cases h; exact hs
  | cons a as ih =>
      obtain ⟨s', h1, h2⟩ := (m.run_cons_eq_some).mp h
      exact ih (hok.2 s' h1) (hstep s a s' hs hok.1 h1) h2

theorem countP_cons_add {counts : α → Bool} (n : Nat) (a : α) (as : List α) :
    n + (counts a).toNat + as.countP counts = n + (a :: as).countP counts := by
  rw [List.countP_cons]
  cases counts a <;> simp [Nat.add_assoc, Nat.add_comm 1]

/-- **Counting rule**: a number to which every step that counts adds one,
kept along the runs whose steps meet `ok`. -/
theorem run_counted {ok : σ → α → Prop} {inv : Nat → σ → Prop} {counts : α → Bool}
    (hstep : ∀ n s a s', inv n s → ok s a → m.step s a = some s' →
      inv (n + (counts a).toNat) s')
    {n : Nat} {s t : σ} {as : List α} (hok : m.Along ok s as) (hs : inv n s)
    (h : m.run s as = some t) : inv (n + as.countP counts) t := by
  induction as generalizing n s with
  | nil =>
      cases h
      exact hs
  | cons a as ih =>
      obtain ⟨s', h1, h2⟩ := (m.run_cons_eq_some).mp h
      rw [← countP_cons_add]
      exact ih (hok.2 s' h1) (hstep n s a s' hs hok.1 h1) h2

/-- **Ranking rule**: if every step that counts is paid for by the rank of
the state, no run has more of them than the rank it starts with. -/
theorem run_rank {inv : σ → Prop} {rank : σ → Nat} {counts : α → Bool}
    (hstep : ∀ s a s', inv s → m.step s a = some s' →
      inv s' ∧ rank s' + (counts a).toNat ≤ rank s)
    {s t : σ} {as : List α} (hs : inv s) (h : m.run s as = some t) :
    rank t + as.countP counts ≤ rank s := by
  induction as generalizing s with
  | nil =>
      cases h
      exact Nat.le_refl _
  | cons a as ih =>
      obtain ⟨s', h1, h2⟩ := (m.run_cons_eq_some).mp h
      obtain ⟨hs', hpaid⟩ := hstep s a s' hs h1
      have hrest := ih hs' h2
      rw [List.countP_cons]
      cases ha : counts a <;> simp [ha] at hpaid ⊢ <;> omega

/-- `P` holds in every state of the run. -/
def Always (P : σ → Prop) : σ → List α → Prop
  | s, [] => P s
  | s, a :: as => P s ∧ ∀ s' ∈ m.step s a, Always P s' as

def decidableAlways (P : σ → Prop) [DecidablePred P] : ∀ s as, Decidable (m.Always P s as)
  | s, [] => inferInstanceAs (Decidable (P s))
  | s, a :: as =>
      haveI : ∀ s', Decidable (m.Always P s' as) := fun s' => decidableAlways P s' as
      inferInstanceAs (Decidable (P s ∧ ∀ s' ∈ m.step s a, m.Always P s' as))

instance (P : σ → Prop) [DecidablePred P] (s : σ) (as : List α) : Decidable (m.Always P s as) :=
  m.decidableAlways P s as

theorem Always.head {P : σ → Prop} {s : σ} {as : List α} (h : m.Always P s as) : P s := by
  cases as with
  | nil => exact h
  | cons a as => exact h.1

theorem Always.of_run {P : σ → Prop} {s t : σ} {as : List α} (hall : m.Always P s as)
    (h : m.run s as = some t) : P t := by
  induction as generalizing s with
  | nil =>
      cases h
      exact hall
  | cons a as ih =>
      obtain ⟨s', h1, h2⟩ := (m.run_cons_eq_some).mp h
      exact ih (hall.2 s' h1) h2

theorem Always.and {P Q : σ → Prop} {s : σ} {as : List α} (hP : m.Always P s as)
    (hQ : m.Always Q s as) : m.Always (fun s => P s ∧ Q s) s as := by
  induction as generalizing s with
  | nil => exact ⟨hP, hQ⟩
  | cons a as ih => exact ⟨⟨hP.1, hQ.1⟩, fun s' h1 => ih (hP.2 s' h1) (hQ.2 s' h1)⟩

/-- What implies `P` and is kept by the steps that meet `ok` holds all
along the runs whose steps meet `ok`. -/
theorem always_of_along {inv P : σ → Prop} {ok : σ → α → Prop}
    (hstep : ∀ s a s', inv s → ok s a → m.step s a = some s' → inv s')
    (hinv : ∀ s, inv s → P s) {s : σ} {as : List α} (hs : inv s) (h : m.Along ok s as) :
    m.Always P s as := by
  induction as generalizing s with
  | nil => exact hinv s hs
  | cons a as ih =>
      refine ⟨hinv s hs, ?_⟩
      intro s' h1
      exact ih (hstep s a s' hs h.1 h1) (h.2 s' h1)

/-- If a step from `P` to `P` meets `ok`, then so does every step of a
run that always satisfies `P`. -/
theorem along_of_always {P : σ → Prop} {ok : σ → α → Prop}
    (hstep : ∀ s a s', P s → P s' → m.step s a = some s' → ok s a)
    {s t : σ} {as : List α} (h : m.run s as = some t) (hall : m.Always P s as) :
    m.Along ok s as := by
  induction as generalizing s with
  | nil => trivial
  | cons a as ih =>
      obtain ⟨s', h1, h2⟩ := (m.run_cons_eq_some).mp h
      refine ⟨hstep s a s' hall.1 (hall.2 s' h1).head h1, ?_⟩
      intro s'' h3
      rw [h1] at h3
      cases h3
      exact ih h2 (hall.2 s' h1)

/-- **Exact guard rule**, under an invariant: if a step that meets `ok`
keeps the invariant, and one that leads to a state with `P` has met `ok`,
then the runs that always satisfy `P` are those whose steps all meet
`ok`. The steps may be known to be `good`. -/
theorem always_iff_along_of_inv {inv P : σ → Prop} {good ok : σ → α → Prop}
    (hkeep : ∀ s a s', inv s → good s a → ok s a → m.step s a = some s' → inv s')
    (hinv : ∀ s, inv s → P s)
    (hbreak : ∀ s a s', inv s → good s a → m.step s a = some s' → P s' → ok s a)
    {s t : σ} {as : List α} (hs : inv s) (hgood : m.Along good s as) (h : m.run s as = some t) :
    m.Always P s as ↔ m.Along ok s as := by
  induction as generalizing s with
  | nil => exact ⟨fun _ => trivial, fun _ => hinv s hs⟩
  | cons a as ih =>
      obtain ⟨s', h1, h2⟩ := (m.run_cons_eq_some).mp h
      have halways : m.Always P s (a :: as) ↔ P s ∧ m.Always P s' as := by simp [Always, h1]
      have halong : m.Along ok s (a :: as) ↔ ok s a ∧ m.Along ok s' as := by simp [Along, h1]
      rw [halways, halong]
      constructor
      · rintro ⟨-, hall⟩
        have hok := hbreak s a s' hs hgood.1 h1 hall.head
        exact ⟨hok, (ih (hkeep s a s' hs hgood.1 hok h1) (hgood.2 s' h1) h2).mp hall⟩
      · rintro ⟨hok, hall⟩
        exact ⟨hinv s hs, (ih (hkeep s a s' hs hgood.1 hok h1) (hgood.2 s' h1) h2).mpr hall⟩

/-- The same without an invariant of its own: the steps that keep `P` are
those that meet `ok`. -/
theorem always_iff_along {P : σ → Prop} {ok : σ → α → Prop}
    (hexact : ∀ s a s', P s → m.step s a = some s' → (P s' ↔ ok s a))
    {s t : σ} {as : List α} (hs : P s) (h : m.run s as = some t) :
    m.Always P s as ↔ m.Along ok s as :=
  m.always_iff_along_of_inv (fun s a s' hp _ hok h1 => (hexact s a s' hp h1).mpr hok)
    (fun _ hp => hp) (fun s a s' hp _ h1 hp' => (hexact s a s' hp h1).mp hp') hs m.along_true h

/-- **Absorbing rule**: if a state without `P` is never left for one with
`P`, and the steps that keep `P` are those that meet `ok`, then `P` holds
at the end exactly of the runs whose steps all meet `ok`. -/
theorem end_iff_along {inv P : σ → Prop} {good : α → Prop} {ok : σ → α → Prop}
    (hkeep : ∀ s a s', inv s → good a → m.step s a = some s' → inv s')
    (hexact : ∀ s a s', inv s → good a → P s → m.step s a = some s' → (P s' ↔ ok s a))
    (habsorb : ∀ s a s', inv s → good a → m.step s a = some s' → P s' → P s)
    {s t : σ} {as : List α} (hs : inv s) (hP : P s) (hgood : ∀ a ∈ as, good a)
    (h : m.run s as = some t) : P t ↔ m.Along ok s as := by
  induction as generalizing s with
  | nil =>
      cases h
      exact iff_of_true hP trivial
  | cons a as ih =>
      obtain ⟨s', h1, h2⟩ := (m.run_cons_eq_some).mp h
      have ha := hgood a List.mem_cons_self
      have hrest : ∀ b ∈ as, good b := fun b hb => hgood b (List.mem_cons_of_mem _ hb)
      have hs' := hkeep s a s' hs ha h1
      have halong : m.Along ok s (a :: as) ↔ ok s a ∧ m.Along ok s' as := by simp [Along, h1]
      rw [halong, ← hexact s a s' hs ha hP h1]
      by_cases hP' : P s'
      · simpa [hP'] using ih hs' hP' hrest h2
      · have hlost : inv t ∧ ¬ P t := by
          have hstep : ∀ u b u', inv u ∧ ¬ P u → good b → m.step u b = some u' →
              inv u' ∧ ¬ P u' := by
            intro u b u' hu hb h3
            exact ⟨hkeep u b u' hu.1 hb h3, fun hu' => hu.2 (habsorb u b u' hu.1 hb h3 hu')⟩
          exact m.run_invariant_on hstep ⟨hs', hP'⟩ hrest h2
        exact iff_of_false hlost.2 (fun hok => hP' hok.1)

/-! ## Refinement -/

variable {τ β : Type} (n : Machine τ β)

/-- What a run of `m` is for another machine: `act` says what a step is
there, if it is anything. -/
def trace (act : σ → α → Option β) : σ → List α → List β
  | _, [] => []
  | s, a :: as =>
      (act s a).toList ++ ((m.step s a).map (fun s' => trace act s' as)).getD []

theorem trace_cons {act : σ → α → Option β} {s s' : σ} {a : α} {as : List α}
    (h : m.step s a = some s') :
    m.trace act s (a :: as) = (act s a).toList ++ m.trace act s' as := by
  rw [trace, h, Option.map_some, Option.getD_some]

/-- `m` refines `n` along the abstraction `abs`, for actions that are
`good`, in states that satisfy `inv`. -/
structure Refines (abs : σ → τ) (act : σ → α → Option β) (inv : σ → Prop) (good : α → Prop) :
    Prop where
  keeps : ∀ s a s', inv s → good a → m.step s a = some s' → inv s'
  simulates : ∀ s a s', inv s → good a → m.step s a = some s' →
    n.run (abs s) (act s a).toList = some (abs s')

variable {m n} {abs : σ → τ} {act : σ → α → Option β} {inv : σ → Prop} {good : α → Prop}

/-- **Refinement rule**: a run of `m` is a run of `n`. -/
theorem Refines.run (hr : m.Refines n abs act inv good) {s t : σ} {as : List α} (hs : inv s)
    (hgood : ∀ a ∈ as, good a) (h : m.run s as = some t) :
    n.run (abs s) (m.trace act s as) = some (abs t) := by
  induction as generalizing s with
  | nil =>
      cases h
      rfl
  | cons a as ih =>
      obtain ⟨s', h1, h2⟩ := m.run_cons_eq_some.mp h
      have ha := hgood a List.mem_cons_self
      rw [m.trace_cons h1, run_append, hr.simulates s a s' hs ha h1, Option.bind_some]
      exact ih (hr.keeps s a s' hs ha h1) (fun b hb => hgood b (List.mem_cons_of_mem _ hb)) h2

/-- A side condition of `n` is one of `m`. -/
theorem Refines.along (hr : m.Refines n abs act inv good) {ok : σ → α → Prop} {ok' : τ → β → Prop}
    (hok : ∀ s a, inv s → good a → (ok s a ↔ ∀ b ∈ act s a, ok' (abs s) b)) {s t : σ}
    {as : List α} (hs : inv s) (hgood : ∀ a ∈ as, good a) (h : m.run s as = some t) :
    m.Along ok s as ↔ n.Along ok' (abs s) (m.trace act s as) := by
  induction as generalizing s with
  | nil => exact Iff.rfl
  | cons a as ih =>
      obtain ⟨s', h1, h2⟩ := m.run_cons_eq_some.mp h
      have ha := hgood a List.mem_cons_self
      have hsim := hr.simulates s a s' hs ha h1
      have hrest := ih (hr.keeps s a s' hs ha h1)
        (fun b hb => hgood b (List.mem_cons_of_mem _ hb)) h2
      have hcons : m.Along ok s (a :: as) ↔ ok s a ∧ m.Along ok s' as := by
        simp [Along, h1]
      rw [hcons, hok s a hs ha, hrest, m.trace_cons h1]
      cases hb : act s a with
      | none =>
          rw [hb] at hsim
          have heq : abs s = abs s' := Option.some.inj hsim
          simp [heq]
      | some b =>
          rw [hb, Option.toList_some, run_cons_eq_some] at hsim
          obtain ⟨u, hu, heq⟩ := hsim
          cases heq
          simp [Along, hu]

theorem countP_trace {p : α → Bool} {q : β → Bool}
    (hcount : ∀ s a, (act s a).toList.countP q = (p a).toNat) {s t : σ} {as : List α}
    (h : m.run s as = some t) : (m.trace act s as).countP q = as.countP p := by
  induction as generalizing s with
  | nil => rfl
  | cons a as ih =>
      obtain ⟨s', h1, h2⟩ := m.run_cons_eq_some.mp h
      rw [m.trace_cons h1, List.countP_append, hcount, ih h2, List.countP_cons, Nat.add_comm]
      cases p a <;> rfl

end Machine

end Lib
