/-
ProxyBroker.Lib.Slot — one field for the handle in use.

Handles are opened into a field, closed through it, and the field is
cleared. Nothing else refers to a handle, so one that is open and no
longer in the field can never be closed (`Lost.apply`).

`Held` says that nothing is lost and nothing is closed twice.
`held_apply_iff` is its exact guard: what an operation has to find for
`Held` to be kept.
-/
import Mathlib.Data.List.Basic

namespace Lib

/-- A field that holds a handle by its number, and the number of closes
of every handle there was. -/
structure Slot where
  closes : List Nat := []
  current : Option Nat := none
  deriving DecidableEq, Repr

inductive SlotOp where
  | fill
  | close
  | clear
  deriving DecidableEq, Repr

namespace Slot

/-- A new handle comes into the field. -/
def fill (s : Slot) : Slot where
  closes := s.closes ++ [0]
  current := some s.closes.length

/-- The handle in the field is closed, and stays there. -/
def close (s : Slot) : Slot :=
  match s.current with
  | some c => { s with closes := s.closes.modify c (· + 1) }
  | none => s

def clear (s : Slot) : Slot := { s with current := none }

def apply (s : Slot) : SlotOp → Slot
  | .fill => s.fill
  | .close => s.close
  | .clear => s.clear

/-- The handle was opened and never closed. -/
def IsOpen (s : Slot) (c : Nat) : Prop := s.closes[c]? = some 0

instance (s : Slot) (c : Nat) : Decidable (s.IsOpen c) :=
  inferInstanceAs (Decidable (_ = _))

/-- The field holds a handle that exists. -/
def Filed (s : Slot) : Prop := ∀ c ∈ s.current, c < s.closes.length

/-- **Nothing is leaked**: one handle is open at most, none was closed
twice, and one that is open is in the field. -/
structure Held (s : Slot) : Prop where
  one : ∀ c d, s.IsOpen c → s.IsOpen d → c = d
  once : ∀ n ∈ s.closes, n ≤ 1
  kept : ∀ c, s.IsOpen c → s.current = some c

/-- Open, and nobody knows it. -/
def Lost (s : Slot) (c : Nat) : Prop := s.IsOpen c ∧ s.current ≠ some c

def AllClosed (s : Slot) : Prop := ∀ n ∈ s.closes, n = 1

instance (s : Slot) : Decidable s.AllClosed := inferInstanceAs (Decidable (∀ n ∈ s.closes, n = 1))

/-- What an operation has to find. -/
def Careful (s : Slot) : SlotOp → Prop
  | .fill => 0 ∉ s.closes
  | .close => ∀ c ∈ s.current, s.IsOpen c
  | .clear => ∀ c ∈ s.current, ¬ s.IsOpen c

instance (s : Slot) : (op : SlotOp) → Decidable (s.Careful op)
  | .fill => inferInstanceAs (Decidable (0 ∉ s.closes))
  | .close => inferInstanceAs (Decidable (∀ c ∈ s.current, s.IsOpen c))
  | .clear => inferInstanceAs (Decidable (∀ c ∈ s.current, ¬ s.IsOpen c))

/-! ## The operations, handle by handle -/

theorem isOpen_lt {s : Slot} {c : Nat} (h : s.IsOpen c) : c < s.closes.length :=
  (List.getElem?_eq_some_iff.mp h).1

theorem exists_isOpen_iff {s : Slot} : (∃ c, s.IsOpen c) ↔ 0 ∈ s.closes :=
  List.mem_iff_getElem?.symm

theorem isOpen_fill {s : Slot} {c : Nat} :
    s.fill.IsOpen c ↔ s.IsOpen c ∨ c = s.closes.length := by
  unfold IsOpen fill
  rcases Nat.lt_trichotomy c s.closes.length with hlt | heq | hgt
  · rw [List.getElem?_append_left hlt]
    simp [Nat.ne_of_lt hlt]
  · simp [heq]
  · have hend : (s.closes ++ [0]).length ≤ c := by
      rw [List.length_append]
      exact hgt
    simp [Nat.le_of_lt hgt, Nat.ne_of_gt hgt, List.getElem?_eq_none hend]

theorem isOpen_close {s : Slot} {c : Nat} :
    s.close.IsOpen c ↔ s.IsOpen c ∧ s.current ≠ some c := by
  unfold IsOpen close
  split
  · rename_i d hd
    by_cases hdc : d = c
    · subst hdc
      simp [hd, List.getElem?_modify_eq, Option.map_eq_some_iff]
    · simp [hd, hdc]
  · rename_i hd
    simp [hd]

theorem Filed.apply {s : Slot} (h : s.Filed) (op : SlotOp) : (s.apply op).Filed := by
  intro c hc
  cases op with
  | fill =>
      cases hc
      simp [Slot.apply, fill]
  | close =>
      cases hd : s.current with
      | none =>
          simp [Slot.apply, close, hd] at hc
      | some d =>
          simp only [Slot.apply, close, hd, Option.mem_def, Option.some.injEq] at hc
          subst hc
          simpa [Slot.apply, close, hd] using h d hd
  | clear => cases hc

/-- What is lost stays lost. -/
theorem Lost.apply {s : Slot} {c : Nat} (h : s.Lost c) (op : SlotOp) : (s.apply op).Lost c := by
  obtain ⟨hopen, hcur⟩ := h
  cases op with
  | fill =>
      refine ⟨isOpen_fill.mpr (.inl hopen), ?_⟩
      intro heq
      exact Nat.ne_of_gt (isOpen_lt hopen) (Option.some.inj heq)
  | close =>
      refine ⟨isOpen_close.mpr ⟨hopen, hcur⟩, ?_⟩
      simp only [Slot.apply, close]
      split <;> exact hcur
  | clear => exact ⟨hopen, fun heq => by cases heq⟩

/-! ## The exact guard -/

/-- With every open handle in the field, one handle is open at most. -/
theorem Held.of_kept {s : Slot} (honce : ∀ n ∈ s.closes, n ≤ 1)
    (hkept : ∀ c, s.IsOpen c → s.current = some c) : s.Held where
  one := fun c d hc hd => Option.some.inj ((hkept c hc).symm.trans (hkept d hd))
  once := honce
  kept := hkept

theorem held_fill_iff {s : Slot} (h : s.Held) : s.fill.Held ↔ 0 ∉ s.closes := by
  constructor
  · intro hfill hmem
    obtain ⟨c, hc⟩ := exists_isOpen_iff.mpr hmem
    have hlen : s.closes.length = c :=
      Option.some.inj (hfill.kept c (isOpen_fill.mpr (.inl hc)))
    exact Nat.ne_of_gt (isOpen_lt hc) hlen
  · intro hnone
    apply Held.of_kept
    · intro n hn
      rcases List.mem_append.mp hn with hn | hn
      · exact h.once n hn
      · rw [List.mem_singleton.mp hn]
        exact Nat.zero_le 1
    · intro c hc
      rcases isOpen_fill.mp hc with hc | rfl
      · exact absurd (exists_isOpen_iff.mp ⟨c, hc⟩) hnone
      · rfl

/-- Closing what is not open closes it a second time. -/
theorem held_close_iff {s : Slot} (hfiled : s.Filed) (h : s.Held) :
    s.close.Held ↔ ∀ c ∈ s.current, s.IsOpen c := by
  cases hcur : s.current with
  | none =>
      have hsame : s.close = s := by simp [close, hcur]
      simp [hsame, h]
  | some c =>
      have hlt : c < s.closes.length := hfiled c hcur
      have hcloses : s.close.closes = s.closes.modify c (· + 1) := by simp [close, hcur]
      have hcurrent : s.close.current = some c := by simp [close, hcur]
      constructor
      · intro hclose d hd
        cases hd
        have hmem : s.closes[c] + 1 ∈ s.close.closes := by
          rw [hcloses]
          exact List.mem_iff_getElem.mpr ⟨c, by simpa using hlt, by simp⟩
        have hzero : s.closes[c] = 0 := Nat.le_zero.mp (Nat.le_of_succ_le_succ (hclose.once _ hmem))
        rw [IsOpen, List.getElem?_eq_getElem hlt, hzero]
      · intro hopen
        have hc := hopen c rfl
        apply Held.of_kept
        · intro n hn
          rw [hcloses] at hn
          obtain ⟨i, hi⟩ := List.mem_iff_getElem?.mp hn
          rw [List.getElem?_modify] at hi
          obtain ⟨m, hm, rfl⟩ := Option.map_eq_some_iff.mp hi
          by_cases hci : c = i
          · subst hci
            rw [hc] at hm
            cases hm
            simp
          · simpa [hci] using h.once m (List.mem_of_getElem? hm)
        · intro d hd
          rw [hcurrent, ← hcur]
          exact h.kept d (isOpen_close.mp hd).1

theorem held_clear_iff {s : Slot} (h : s.Held) :
    s.clear.Held ↔ ∀ c ∈ s.current, ¬ s.IsOpen c := by
  constructor
  · intro hclear c _ hopen
    cases hclear.kept c hopen
  · intro hclosed
    exact Held.of_kept h.once (fun c hc => absurd hc (hclosed c (h.kept c hc)))

/-- **The exact guard** of `Held`. -/
theorem held_apply_iff {s : Slot} (hfiled : s.Filed) (h : s.Held) (op : SlotOp) :
    (s.apply op).Held ↔ s.Careful op := by
  cases op with
  | fill => exact held_fill_iff h
  | close => exact held_close_iff hfiled h
  | clear => exact held_clear_iff h

/-- A close of a held handle leaves none open. -/
theorem Held.allClosed_close {s : Slot} (h : s.Held) (hclose : s.close.Held) :
    s.close.AllClosed := by
  intro n hn
  have hle := hclose.once n hn
  have hne : n ≠ 0 := by
    rintro rfl
    obtain ⟨c, hc⟩ := exists_isOpen_iff.mpr hn
    obtain ⟨hopen, hcur⟩ := isOpen_close.mp hc
    exact hcur (h.kept c hopen)
  omega

end Slot

end Lib
