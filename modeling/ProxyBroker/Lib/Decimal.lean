/-
ProxyBroker.Lib.Decimal — texts of decimal digits as numbers.

`value` is the number, and `parseInt_digits` says that `parseInt` reads it.
`digits_cut` is how two runs of digits with something else behind them are
told apart.
-/
import ProxyBroker.Lib.JsValue

namespace Lib.Decimal

/-- Digits only, the empty text included. -/
def Digits (s : List Char) : Prop := ∀ c ∈ s, c.isDigit = true

instance (s : List Char) : Decidable (Digits s) :=
  inferInstanceAs (Decidable (∀ c ∈ s, c.isDigit = true))

@[simp] theorem digits_nil : Digits [] := by simp [Digits]

@[simp] theorem digits_cons {c : Char} {s : List Char} :
    Digits (c :: s) ↔ c.isDigit = true ∧ Digits s := by simp [Digits]

@[simp] theorem digits_append {s t : List Char} : Digits (s ++ t) ↔ Digits s ∧ Digits t := by
  simp [Digits, or_imp, forall_and]

theorem digits_iff_all {s : List Char} : Digits s ↔ s.all Char.isDigit = true := by
  simp [Digits]

/-- What stands behind a run of digits shows where it ends. -/
theorem digits_cut {a a' x y : List Char} {u u' : Char} (ha : Digits a) (ha' : Digits a')
    (hu : u.isDigit = false) (hu' : u'.isDigit = false) (h : a ++ u :: x = a' ++ u' :: y) :
    a = a' ∧ u = u' ∧ x = y := by
  have htake := congrArg (List.takeWhile Char.isDigit) h
  rw [List.takeWhile_append_of_pos ha, List.takeWhile_append_of_pos ha',
    List.takeWhile_cons_of_neg (by simp [hu]), List.takeWhile_cons_of_neg (by simp [hu']),
    List.append_nil, List.append_nil] at htake
  subst htake
  obtain ⟨rfl, rfl⟩ := List.cons.inj (List.append_cancel_left h)
  exact ⟨rfl, rfl, rfl⟩

def digit (c : Char) : Nat := c.toNat - 48

def value (s : List Char) : Nat := s.foldl (fun n c => n * 10 + digit c) 0

theorem toNat_of_isDigit {c : Char} (h : c.isDigit = true) : 48 ≤ c.toNat ∧ c.toNat ≤ 57 := by
  rw [Char.isDigit, Bool.and_eq_true, decide_eq_true_iff, decide_eq_true_iff] at h
  exact h

theorem digit_lt {c : Char} (h : c.isDigit = true) : digit c < 10 := by
  have := toNat_of_isDigit h
  unfold digit
  omega

theorem isSpace_of_isDigit {c : Char} (h : c.isDigit = true) : JsText.isSpace c = false := by
  have hc := toNat_of_isDigit h
  have hall : ∀ n < 58, 48 ≤ n → JsText.isSpace (Char.ofNat n) = false := by decide
  have hn := hall c.toNat (by omega) hc.1
  rwa [Char.ofNat_toNat] at hn

theorem ne_of_isDigit {c d : Char} (h : c.isDigit = true) (hd : d.isDigit = false) : c ≠ d := by
  rintro rfl
  rw [h] at hd
  cases hd

theorem digitValue_of_isDigit {c : Char} (h : c.isDigit = true) :
    JsValue.digitValue 10 c = some (digit c) := by
  have hlt := digit_lt h
  unfold digit at hlt
  simp [JsValue.digitValue, h, digit, hlt]

theorem leadingNumber_digits {s : List Char} (hne : s ≠ []) (h : Digits s) :
    JsValue.leadingNumber 10 s = some (value s) := by
  have htake : s.takeWhile (fun c => (JsValue.digitValue 10 c).isSome) = s := by
    rw [List.takeWhile_eq_self_iff]
    intro c hc
    simp [digitValue_of_isDigit (h c hc)]
  have hmap : s.filterMap (JsValue.digitValue 10) = s.map digit := by
    rw [← List.filterMap_eq_map]
    exact List.filterMap_congr (fun c hc => digitValue_of_isDigit (h c hc))
  obtain ⟨c, t, rfl⟩ := List.exists_cons_of_ne_nil hne
  rw [JsValue.leadingNumber, htake, hmap]
  simp [value, List.foldl_map]

/-- **`parseInt`** of a text of digits. -/
theorem parseInt_digits {s : List Char} (hne : s ≠ []) (h : Digits s) :
    JsValue.parseInt s = .num (value s) := by
  have hlead := leadingNumber_digits hne h
  obtain ⟨c, t, rfl⟩ := List.exists_cons_of_ne_nil hne
  obtain ⟨hc, ht⟩ := digits_cons.mp h
  have htrim : JsText.trimStart (c :: t) = c :: t := by
    simp [JsText.trimStart, isSpace_of_isDigit hc]
  have hminus : c ≠ '-' := ne_of_isDigit hc (by decide)
  have hplus : c ≠ '+' := ne_of_isDigit hc (by decide)
  have hx : ∀ u, t ≠ 'x' :: u := by
    rintro u rfl
    exact absurd (digits_cons.mp ht).1 (by decide)
  have hX : ∀ u, t ≠ 'X' :: u := by
    rintro u rfl
    exact absurd (digits_cons.mp ht).1 (by decide)
  rw [JsValue.parseInt, htrim]
  simp only [List.head?_cons, Option.some.injEq, hminus, hplus, or_self, if_false]
  split
  · rename_i n hn
    split at hn
    · rename_i u hu
      exact absurd (List.cons.inj hu).2 (hx u)
    · rename_i u hu
      exact absurd (List.cons.inj hu).2 (hX u)
    · rw [hlead] at hn
      simp [Option.some_inj.mp hn]
  · rename_i hn
    split at hn
    · rename_i u hu
      exact absurd (List.cons.inj hu).2 (hx u)
    · rename_i u hu
      exact absurd (List.cons.inj hu).2 (hX u)
    · rw [hlead] at hn
      cases hn

end Lib.Decimal
