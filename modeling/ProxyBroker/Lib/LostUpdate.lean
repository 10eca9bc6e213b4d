/-
ProxyBroker.Lib.LostUpdate — clients that update one cell without a lock.

A client reads the cell and writes back what an update function makes of
the value it has read. Between the two anything may happen. A write may
be rejected, but only if the cell is not what the client has read, and a
client may give up before its write.

The question is what becomes of the updates. It is asked of counters: a
number in the value that grows by one with the updates it counts.

* `total_of_undisturbed` — if no client writes while another one is
  between its read and its write, and none gives up, no counter has
  missed an update when all are done;
* `total_iff_undisturbed` — for a counter that counts every update this
  is the only way: as soon as one client writes while another has read,
  one update is missing for good.

Behind the second one is a bound: what a counter would come to if all
clients that are not done wrote with no further reads never exceeds the
number of updates asked for, and once it is below, it stays below.
-/
import Mathlib.Data.List.Perm.Basic
import ProxyBroker.Lib.Transition

namespace Lib

inductive Phase (ν : Type) where
  | waiting
  | read (v : ν)
  | written
  deriving DecidableEq, Repr

structure Client (κ ν : Type) where
  update : κ
  phase : Phase ν := .waiting
  deriving DecidableEq, Repr

structure Cell (κ ν : Type) where
  value : ν
  clients : List (Client κ ν) := []
  deriving DecidableEq, Repr

inductive CellAction (κ : Type) where
  | start (k : κ)
  | read (i : Nat)
  | write (i : Nat)
  /-- the write is rejected: the cell has changed -/
  | reject (i : Nat)
  /-- the client gives up before its write -/
  | drop (i : Nat)
  /-- a client that has written is gone -/
  | leave (i : Nat)
  deriving DecidableEq, Repr

namespace Cell

variable {κ ν : Type}

/-- `f k v` is what a client with the update `k` makes of `v`. -/
def step [DecidableEq ν] (f : κ → ν → ν) (s : Cell κ ν) : CellAction κ → Option (Cell κ ν)
  | .start k => some { s with clients := s.clients ++ [{ update := k }] }
  | .read i =>
      match s.clients[i]? with
      | some ⟨k, .waiting⟩ => some { s with clients := s.clients.set i ⟨k, .read s.value⟩ }
      | _ => none
  | .write i =>
      match s.clients[i]? with
      | some ⟨k, .read v⟩ => some { value := f k v, clients := s.clients.set i ⟨k, .written⟩ }
      | _ => none
  | .reject i =>
      match s.clients[i]? with
      | some ⟨_, .read v⟩ =>
          if v = s.value then none else some { s with clients := s.clients.eraseIdx i }
      | _ => none
  | .drop i =>
      match s.clients[i]? with
      | some ⟨_, .written⟩ | none => none
      | some _ => some { s with clients := s.clients.eraseIdx i }
  | .leave i =>
      match s.clients[i]? with
      | some ⟨_, .written⟩ => some { s with clients := s.clients.eraseIdx i }
      | _ => none

def machine [DecidableEq ν] (f : κ → ν → ν) : Machine (Cell κ ν) (CellAction κ) where
  step := step f

section

variable [DecidableEq ν] {f : κ → ν → ν} {s : Cell κ ν} {i : Nat} {k : κ} {v : ν}

theorem step_read (h : s.clients[i]? = some ⟨k, .waiting⟩) :
    step f s (.read i) = some { s with clients := s.clients.set i ⟨k, .read s.value⟩ } := by
  simp [step, h]

theorem step_write (h : s.clients[i]? = some ⟨k, .read v⟩) :
    step f s (.write i) = some ⟨f k v, s.clients.set i ⟨k, .written⟩⟩ := by
  simp [step, h]

theorem step_reject (h : s.clients[i]? = some ⟨k, .read v⟩) (hne : v ≠ s.value) :
    step f s (.reject i) = some { s with clients := s.clients.eraseIdx i } := by
  simp [step, h, hne]

theorem step_drop {c : Client κ ν} (h : s.clients[i]? = some c) (hc : c.phase ≠ .written) :
    step f s (.drop i) = some { s with clients := s.clients.eraseIdx i } := by
  obtain ⟨k, phase⟩ := c
  cases phase with
  | written => exact absurd rfl hc
  | waiting => simp [step, h]
  | read v => simp [step, h]

theorem step_leave (h : s.clients[i]? = some ⟨k, .written⟩) :
    step f s (.leave i) = some { s with clients := s.clients.eraseIdx i } := by
  simp [step, h]

end

/-! ## What a step does

The order of the clients does not matter, so each step is given by the
client it moves and the others. -/

def hasRead (c : Client κ ν) : Bool :=
  match c.phase with
  | .read _ => true
  | _ => false

/-- The client has not written yet. -/
def isPending (c : Client κ ν) : Bool :=
  match c.phase with
  | .written => false
  | _ => true

theorem perm_of_getElem? {α : Type} {l : List α} {i : Nat} {c : α} (h : l[i]? = some c) :
    l.Perm (c :: l.eraseIdx i) := by
  obtain ⟨hi, rfl⟩ := List.getElem?_eq_some_iff.mp h
  exact (List.getElem_cons_eraseIdx_perm hi).symm

theorem set_perm_of_getElem? {α : Type} {l : List α} {i : Nat} {c : α} (h : l[i]? = some c)
    (d : α) : (l.set i d).Perm (d :: l.eraseIdx i) := by
  obtain ⟨hi, -⟩ := List.getElem?_eq_some_iff.mp h
  exact List.set_perm_cons_eraseIdx hi d

/-- A step moves client `c`, if there is one, to `d`, if it stays; the
value is `v'` then. -/
inductive Moves (f : κ → ν → ν) (v : ν) : CellAction κ → Option (Client κ ν) →
    Option (Client κ ν) → ν → Prop where
  | start (k : κ) : Moves f v (.start k) none (some ⟨k, .waiting⟩) v
  | read (i : Nat) (k : κ) : Moves f v (.read i) (some ⟨k, .waiting⟩) (some ⟨k, .read v⟩) v
  | write (i : Nat) (k : κ) (w : ν) :
      Moves f v (.write i) (some ⟨k, .read w⟩) (some ⟨k, .written⟩) (f k w)
  | reject (i : Nat) (k : κ) (w : ν) (h : w ≠ v) :
      Moves f v (.reject i) (some ⟨k, .read w⟩) none v
  | drop (i : Nat) (c : Client κ ν) (h : isPending c = true) : Moves f v (.drop i) (some c) none v
  | leave (i : Nat) (k : κ) : Moves f v (.leave i) (some ⟨k, .written⟩) none v

/-- The clients a step does not move. -/
def others (s : Cell κ ν) : CellAction κ → List (Client κ ν)
  | .start _ => s.clients
  | .read i | .write i | .reject i | .drop i | .leave i => s.clients.eraseIdx i

theorem step_moves [DecidableEq ν] {f : κ → ν → ν} {s s' : Cell κ ν} {a : CellAction κ}
    (h : step f s a = some s') :
    ∃ c d, Moves f s.value a c d s'.value ∧ s.clients.Perm (c.toList ++ s.others a) ∧
      s'.clients.Perm (d.toList ++ s.others a) := by
  cases a with
  | start k =>
      cases h
      exact ⟨none, some ⟨k, .waiting⟩, .start k, .refl _, List.perm_append_singleton _ _⟩
  | read i =>
      simp only [step] at h
      split at h
      · cases h
        exact ⟨_, _, .read i _, perm_of_getElem? ‹_›, set_perm_of_getElem? ‹_› _⟩
      · cases h
  | write i =>
      simp only [step] at h
      split at h
      · cases h
        exact ⟨_, _, .write i _ _, perm_of_getElem? ‹_›, set_perm_of_getElem? ‹_› _⟩
      · cases h
  | reject i =>
      simp only [step] at h
      split at h
      · split at h
        · cases h
        · cases h
          exact ⟨_, _, .reject i _ _ ‹_›, perm_of_getElem? ‹_›, .refl _⟩
      · cases h
  | drop i =>
      simp only [step] at h
      split at h
      · cases h
      · cases h
      · rename_i c hwritten hc
        cases h
        refine ⟨_, _, .drop i c ?_, perm_of_getElem? hc, .refl _⟩
        obtain ⟨k, phase⟩ := c
        cases phase with
        | written => exact absurd rfl (hwritten k)
        | waiting => rfl
        | read v => rfl
  | leave i =>
      simp only [step] at h
      split at h
      · cases h
        exact ⟨_, _, .leave i _, perm_of_getElem? ‹_›, .refl _⟩
      · cases h

/-! ## Counters -/

/-- A number in the value that counts some of the updates. -/
structure Counter (f : κ → ν → ν) where
  value : ν → Nat
  counts : κ → Bool
  value_update : ∀ k v, value (f k v) = value v + (counts k).toNat

namespace Counter

variable {f : κ → ν → ν} (C : Counter f)

/-- The updates it counts that are not written yet. -/
def pending (clients : List (Client κ ν)) : Nat :=
  clients.countP (fun c => isPending c && C.counts c.update)

/-- An update it counts is asked for. -/
def starts : CellAction κ → Bool
  | .start k => C.counts k
  | _ => false

theorem pending_perm {l l' : List (Client κ ν)} (h : l.Perm l') : C.pending l = C.pending l' :=
  h.countP_eq _

@[simp] theorem pending_nil : C.pending [] = 0 := rfl

@[simp] theorem pending_cons (c : Client κ ν) (l : List (Client κ ν)) :
    C.pending (c :: l) = C.pending l + (isPending c && C.counts c.update).toNat := by
  rw [pending, List.countP_cons, pending]
  cases isPending c && C.counts c.update <;> rfl

/-- Nothing is missed so far: `T` updates were asked for, and everyone
who has read knows the current value. -/
structure Exact (T : Nat) (s : Cell κ ν) : Prop where
  current : ∀ c ∈ s.clients, ∀ v, c.phase = .read v → v = s.value
  total : C.value s.value + C.pending s.clients = T

end Counter

/-- The side condition: nobody tries to write while another client has
read, and nobody gives up. -/
def Undisturbed (s : Cell κ ν) (a : CellAction κ) : Prop :=
  match a with
  | .write _ | .reject _ => ∀ c ∈ s.others a, hasRead c = false
  | .drop _ => False
  | _ => True

namespace Counter

variable {f : κ → ν → ν} (C : Counter f)

theorem exact_perm {T : Nat} {v : ν} {l l' : List (Client κ ν)} (h : l.Perm l') :
    C.Exact T ⟨v, l⟩ ↔ C.Exact T ⟨v, l'⟩ := by
  have hiff : (∀ c ∈ l, ∀ w, c.phase = .read w → w = v) ↔
      ∀ c ∈ l', ∀ w, c.phase = .read w → w = v :=
    forall_congr' (fun c => by rw [h.mem_iff])
  constructor
  · intro hs
    exact ⟨hiff.mp hs.current, by rw [← C.pending_perm h]; exact hs.total⟩
  · intro hs
    exact ⟨hiff.mpr hs.current, by rw [C.pending_perm h]; exact hs.total⟩

/-- **Step lemma**: undisturbed steps miss nothing. -/
theorem Exact.step [DecidableEq ν] {T : Nat} {s s' : Cell κ ν} {a : CellAction κ}
    (hs : C.Exact T s) (hok : Undisturbed s a) (h : Cell.step f s a = some s') :
    C.Exact (T + (C.starts a).toNat) s' := by
  obtain ⟨c, d, hmoves, hfrom, hto⟩ := step_moves h
  obtain ⟨v, clients⟩ := s
  obtain ⟨v', clients'⟩ := s'
  rw [C.exact_perm hto]
  rw [C.exact_perm hfrom] at hs
  obtain ⟨hcurrent, htotal⟩ := hs
  cases hmoves with
  | start k =>
      refine ⟨?_, ?_⟩
      · simpa using hcurrent
      · simp [isPending, starts] at htotal ⊢
        omega
  | read i k =>
      refine ⟨?_, ?_⟩
      · simpa using hcurrent
      · simpa [isPending, starts] using htotal
  | write i k w =>
      have hw : w = v := hcurrent _ List.mem_cons_self w rfl
      refine ⟨?_, ?_⟩
      · intro c hc x hx
        rcases List.mem_cons.mp hc with rfl | hc
        · cases hx
        · have := hok c hc
          simp [hasRead, hx] at this
      · simp [isPending, starts, C.value_update, hw] at htotal ⊢
        omega
  | reject i k w hne => exact absurd (hcurrent _ List.mem_cons_self w rfl) hne
  | drop i c hc => exact absurd hok id
  | leave i k =>
      refine ⟨?_, ?_⟩
      · exact fun c hc => hcurrent c (List.mem_cons_of_mem _ hc)
      · simpa [isPending, starts] using htotal

/-- **Run lemma**: what `Exact.step` keeps. -/
theorem Exact.run [DecidableEq ν] {as : List (CellAction κ)} {T : Nat} {s t : Cell κ ν}
    (hs : C.Exact T s) (hok : (machine f).Along Undisturbed s as)
    (h : (machine f).run s as = some t) : C.Exact (T + as.countP C.starts) t :=
  (machine f).run_counted (fun _ _ _ _ hs hok h1 => Exact.step C hs hok h1) hok hs h

/-! ## A missed update stays missed -/

/-- Some client, or the cell itself, knows the value `w`. -/
def Holds (s : Cell κ ν) (w : ν) : Prop :=
  w = s.value ∨ ∃ c ∈ s.clients, c.phase = .read w

/-- No known value comes to more than the `T` updates asked for. -/
def Bounded (T : Nat) (s : Cell κ ν) : Prop :=
  ∀ w, Holds s w → C.value w + C.pending s.clients ≤ T

/-- An update is missed, or will be when some client writes what it has
read. -/
def Short (T : Nat) (s : Cell κ ν) : Prop :=
  (∀ w, Holds s w → C.value w + C.pending s.clients < T) ∨
    ∃ c ∈ s.clients, ∃ w, c.phase = .read w ∧ C.value w + C.pending s.clients < T

theorem holds_perm {v w : ν} {l l' : List (Client κ ν)} (h : l.Perm l') :
    Holds ⟨v, l⟩ w ↔ Holds ⟨v, l'⟩ w := by
  simp only [Holds, h.mem_iff]

@[simp] theorem holds_cons {v w : ν} {c : Client κ ν} {l : List (Client κ ν)} :
    Holds ⟨v, c :: l⟩ w ↔ c.phase = .read w ∨ Holds ⟨v, l⟩ w := by
  simp [Holds, or_left_comm]

/-- What is known does not depend on the value the cell has, but for it. -/
theorem Holds.of_value {v v' w : ν} {l : List (Client κ ν)} (h : Holds ⟨v', l⟩ w) :
    w = v' ∨ Holds ⟨v, l⟩ w := by
  rcases h with h | h
  · exact .inl h
  · exact .inr (.inr h)

theorem bounded_perm {T : Nat} {v : ν} {l l' : List (Client κ ν)} (h : l.Perm l') :
    C.Bounded T ⟨v, l⟩ ↔ C.Bounded T ⟨v, l'⟩ := by
  simp only [Bounded, holds_perm h, C.pending_perm h]

theorem short_perm {T : Nat} {v : ν} {l l' : List (Client κ ν)} (h : l.Perm l') :
    C.Short T ⟨v, l⟩ ↔ C.Short T ⟨v, l'⟩ := by
  simp only [Short, holds_perm h, C.pending_perm h, h.mem_iff]

theorem Exact.bounded {T : Nat} {s : Cell κ ν} (h : C.Exact T s) : C.Bounded T s := by
  rintro w (rfl | ⟨c, hc, hw⟩)
  · exact Nat.le_of_eq h.total
  · rw [h.current c hc w hw]
    exact Nat.le_of_eq h.total

/-- **Step lemma** of the bound, for a counter of all updates. -/
theorem Bounded.step [DecidableEq ν] (hall : ∀ k, C.counts k = true) {T : Nat} {s s' : Cell κ ν}
    {a : CellAction κ} (hs : C.Bounded T s) (h : Cell.step f s a = some s') :
    C.Bounded (T + (C.starts a).toNat) s' := by
  obtain ⟨c, d, hmoves, hfrom, hto⟩ := step_moves h
  obtain ⟨v, clients⟩ := s
  obtain ⟨v', clients'⟩ := s'
  rw [C.bounded_perm hto]
  rw [C.bounded_perm hfrom] at hs
  intro w hw
  cases hmoves with
  | start k =>
      have := hs w (by simpa using hw)
      simp [isPending, starts, hall] at this ⊢
      omega
  | read i k =>
      have hw' : Holds ⟨v, ⟨k, .waiting⟩ :: Cell.others ⟨v, clients⟩ (.read i)⟩ w := by
        simp only [Option.toList_some, List.singleton_append, holds_cons, Phase.read.injEq] at hw
        rcases hw with rfl | hw
        · exact .inl rfl
        · simpa using hw
      simpa [isPending, starts] using hs w hw'
  | write i k x =>
      simp only [Option.toList_some, List.singleton_append, holds_cons, reduceCtorEq,
        false_or] at hw
      rcases hw.of_value (v := v) with rfl | hw
      · have := hs x (by simp)
        simp [isPending, starts, hall, C.value_update] at this ⊢
        omega
      · have := hs w (by simp [hw])
        simp [isPending, starts, hall] at this ⊢
        omega
  | reject i k x hne =>
      have := hs w (by simp at hw; simp [hw])
      simp [isPending, starts, hall] at this ⊢
      omega
  | drop i c hc =>
      have := hs w (by simp at hw; simp [hw])
      simp [hc, starts, hall] at this ⊢
      omega
  | leave i k =>
      have := hs w (by simp at hw; simp [hw])
      simpa [isPending, starts] using this

/-- A client that goes without having written takes its update with it. -/
theorem short_of_gone (hall : ∀ k, C.counts k = true) {T : Nat} {v : ν} {c : Client κ ν}
    {l : List (Client κ ν)} (hc : isPending c = true) (hs : C.Bounded T ⟨v, c :: l⟩) :
    C.Short T ⟨v, l⟩ := by
  refine .inl ?_
  intro w hw
  have : C.value w + C.pending (c :: l) ≤ T := hs w (by simp [hw])
  simp [hc, hall] at this
  exact this

/-- A client that has missed an update writes it over. -/
theorem short_of_written (hall : ∀ k, C.counts k = true) {T : Nat} {v x : ν} {k : κ}
    {l : List (Client κ ν)} (hb : C.Bounded T ⟨v, ⟨k, .read x⟩ :: l⟩)
    (hx : C.value x + C.pending (⟨k, .read x⟩ :: l) < T) :
    C.Short T ⟨f k x, ⟨k, .written⟩ :: l⟩ := by
  refine .inl ?_
  intro w hw
  simp only [holds_cons, reduceCtorEq, false_or] at hw
  simp [isPending, hall] at hx
  rcases hw.of_value (v := v) with rfl | hw
  · simp [isPending, C.value_update, hall]
    omega
  · have : C.value w + C.pending (⟨k, .read x⟩ :: l) ≤ T := hb w (by simp [hw])
    simp [isPending, hall] at this ⊢
    omega

/-- **Step lemma**: what is missed stays missed. -/
theorem Short.step [DecidableEq ν] (hall : ∀ k, C.counts k = true) {T : Nat} {s s' : Cell κ ν}
    {a : CellAction κ} (hs : C.Short T s) (hb : C.Bounded T s) (h : Cell.step f s a = some s') :
    C.Short (T + (C.starts a).toNat) s' := by
  obtain ⟨c, d, hmoves, hfrom, hto⟩ := step_moves h
  obtain ⟨v, clients⟩ := s
  obtain ⟨v', clients'⟩ := s'
  rw [C.short_perm hto]
  rw [C.short_perm hfrom] at hs
  rw [C.bounded_perm hfrom] at hb
  cases hmoves with
  | start k =>
      rcases hs with hs | ⟨c, hc, w, hw, hlt⟩
      · refine .inl ?_
        intro w hw
        have := hs w (by simpa using hw)
        simp [isPending, starts, hall] at this ⊢
        omega
      · refine .inr ⟨c, List.mem_cons_of_mem _ hc, w, hw, ?_⟩
        simp [isPending, starts, hall] at hlt ⊢
        omega
  | read i k =>
      rcases hs with hs | ⟨c, hc, w, hw, hlt⟩
      · refine .inl ?_
        intro w hw
        simp only [Option.toList_some, List.singleton_append, holds_cons, Phase.read.injEq] at hw
        have hw' : Holds ⟨v, ⟨k, .waiting⟩ :: Cell.others ⟨v, clients⟩ (.read i)⟩ w := by
          rcases hw with rfl | hw
          · exact .inl rfl
          · simpa using hw
        simpa [isPending, starts] using hs w hw'
      · rcases List.mem_cons.mp hc with rfl | hc
        · cases hw
        · refine .inr ⟨c, List.mem_cons_of_mem _ hc, w, hw, ?_⟩
          simpa [isPending, starts] using hlt
  | write i k x =>
      rcases hs with hs | ⟨c, hc, w, hw, hlt⟩
      · exact short_of_written C hall hb (hs x (by simp))
      · rcases List.mem_cons.mp hc with rfl | hc
        · cases hw
          exact short_of_written C hall hb hlt
        · refine .inr ⟨c, List.mem_cons_of_mem _ hc, w, hw, ?_⟩
          simp [isPending, starts, hall] at hlt ⊢
          omega
  | reject i k x hne => exact short_of_gone C hall rfl hb
  | drop i c hc => exact short_of_gone C hall hc hb
  | leave i k =>
      rcases hs with hs | ⟨c, hc, w, hw, hlt⟩
      · refine .inl ?_
        intro w hw
        have := hs w (by simpa using hw)
        simpa [isPending, starts] using this
      · rcases List.mem_cons.mp hc with rfl | hc
        · cases hw
        · exact .inr ⟨c, hc, w, hw, by simpa [isPending, starts] using hlt⟩

/-- A disturbed step misses an update. -/
theorem short_of_disturbed [DecidableEq ν] (hall : ∀ k, C.counts k = true) {T : Nat}
    {s s' : Cell κ ν} {a : CellAction κ} (hs : C.Exact T s) (hok : ¬ Undisturbed s a)
    (h : Cell.step f s a = some s') : C.Short (T + (C.starts a).toNat) s' := by
  obtain ⟨c, d, hmoves, hfrom, hto⟩ := step_moves h
  obtain ⟨v, clients⟩ := s
  obtain ⟨v', clients'⟩ := s'
  rw [C.short_perm hto]
  rw [C.exact_perm hfrom] at hs
  cases hmoves with
  | write i k x =>
      obtain ⟨c, hc, hread⟩ : ∃ c ∈ Cell.others ⟨v, clients⟩ (.write i), hasRead c = true := by
        simpa [Undisturbed] using hok
      obtain ⟨w, hw⟩ : ∃ w, c.phase = .read w := by
        unfold hasRead at hread
        split at hread
        · exact ⟨_, ‹_›⟩
        · cases hread
      have hwv := hs.current c (List.mem_cons_of_mem _ hc) w hw
      have htotal := hs.total
      refine .inr ⟨c, List.mem_cons_of_mem _ hc, w, hw, ?_⟩
      simp [isPending, starts, hall, hwv] at htotal ⊢
      omega
  | reject i k x hne => exact absurd (hs.current _ List.mem_cons_self x rfl) hne
  | drop i c hc => exact short_of_gone C hall hc hs.bounded
  | _ => exact absurd trivial hok

/-- **Run lemma**: what `Short.step` keeps. -/
theorem Short.run [DecidableEq ν] (hall : ∀ k, C.counts k = true) {as : List (CellAction κ)}
    {T : Nat} {s t : Cell κ ν} (hs : C.Short T s) (hb : C.Bounded T s)
    (h : (machine f).run s as = some t) : C.Short (T + as.countP C.starts) t := by
  have hstep : ∀ (n : Nat) (s : Cell κ ν) (a : CellAction κ) (s' : Cell κ ν),
      C.Short n s ∧ C.Bounded n s → True → (machine f).step s a = some s' →
      C.Short (n + (C.starts a).toNat) s' ∧ C.Bounded (n + (C.starts a).toNat) s' :=
    fun _ _ _ _ hi _ h1 => ⟨Short.step C hall hi.1 hi.2 h1, Bounded.step C hall hi.2 h1⟩
  exact ((machine f).run_counted hstep (machine f).along_true ⟨hs, hb⟩ h).1

theorem short_of_not_along [DecidableEq ν] (hall : ∀ k, C.counts k = true)
    {as : List (CellAction κ)} {T : Nat} {s t : Cell κ ν} (hs : C.Exact T s)
    (hok : ¬ (machine f).Along Undisturbed s as) (h : (machine f).run s as = some t) :
    C.Short (T + as.countP C.starts) t := by
  induction as generalizing T s with
  | nil => exact absurd trivial hok
  | cons a as ih =>
      obtain ⟨s', h1, h2⟩ := (machine f).run_cons_eq_some.mp h
      have hrest : C.Short (T + (C.starts a).toNat + as.countP C.starts) t := by
        by_cases ha : Undisturbed s a
        · refine ih (Exact.step C hs ha h1) ?_ h2
          intro hrest
          refine hok ⟨ha, ?_⟩
          intro s'' h3
          rw [h1] at h3
          cases h3
          exact hrest
        · exact Short.run C hall (short_of_disturbed C hall hs ha h1)
            (Bounded.step C hall hs.bounded h1) h2
      rwa [Machine.countP_cons_add] at hrest

/-! ## Whole runs -/

theorem exact_of_idle {v : ν} : C.Exact (C.value v) ⟨v, []⟩ := ⟨by simp, by simp⟩

theorem total_of_undisturbed [DecidableEq ν] {as : List (CellAction κ)} {v w : ν}
    (hok : (machine f).Along Undisturbed ⟨v, []⟩ as)
    (h : (machine f).run ⟨v, []⟩ as = some ⟨w, []⟩) :
    C.value w = C.value v + as.countP C.starts := by
  simpa using (Exact.run C (exact_of_idle C) hok h).total

theorem total_iff_undisturbed [DecidableEq ν] (hall : ∀ k, C.counts k = true)
    {as : List (CellAction κ)} {v w : ν} (h : (machine f).run ⟨v, []⟩ as = some ⟨w, []⟩) :
    C.value w = C.value v + as.countP C.starts ↔ (machine f).Along Undisturbed ⟨v, []⟩ as := by
  refine ⟨?_, fun hok => total_of_undisturbed C hok h⟩
  intro htotal
  by_contra hok
  rcases short_of_not_along C hall (exact_of_idle C) hok h with hlt | ⟨c, hc, -⟩
  · have := hlt w (.inl rfl)
    simp [htotal] at this
  · cases hc

end Counter

end Cell

end Lib
