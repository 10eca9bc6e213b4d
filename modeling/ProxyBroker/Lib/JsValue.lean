/-
ProxyBroker.Lib.JsValue — JavaScript values and plain objects, as far as
option maps need them.

`JsValue` has the values a header or an option can hold. `truthy` and
`le` (the relational operator `n <= v` with an integer on the left) are
the conversions the language makes; `parseInt` is the global function
with no radix given.

An `Object` is its own enumerable properties in insertion order. `get`
answers `undefined` for a missing property, `set` writes in place or
appends.
-/
import ProxyBroker.Lib.JsText
import ProxyBroker.Lib.Search

namespace Lib

inductive JsValue where
  | undefined
  | bool (b : Bool)
  | num (n : Int)
  | nan
  | str (s : List Char)
  deriving DecidableEq, Repr

namespace JsValue

/-- The value in a condition. -/
def truthy : JsValue → Bool
  | undefined | nan => false
  | bool b => b
  | num n => n ≠ 0
  | str s => !s.isEmpty

/-! ## Numbers out of texts -/

def digitValue (base : Nat) (c : Char) : Option Nat :=
  let n := c.toNat
  let v :=
    if c.isDigit then n - 48
    else if 97 ≤ n ∧ n ≤ 122 then n - 87
    else if 65 ≤ n ∧ n ≤ 90 then n - 55
    else base
  if v < base then some v else none

/-- The digits a text starts with, as a number; `none` without any. -/
def leadingNumber (base : Nat) (s : List Char) : Option Nat :=
  match (s.takeWhile (fun c => (digitValue base c).isSome)).filterMap (digitValue base) with
  | [] => none
  | ds => some (ds.foldl (fun n d => n * base + d) 0)

/-- `parseInt(s)`. -/
def parseInt (s : List Char) : JsValue :=
  let s := JsText.trimStart s
  let negative := s.head? = some '-'
  let s := if s.head? = some '-' ∨ s.head? = some '+' then s.tail else s
  let value :=
    match s with
    | '0' :: 'x' :: t | '0' :: 'X' :: t => leadingNumber 16 t
    | _ => leadingNumber 10 s
  match value with
  | some n => if negative then num (-n) else num n
  | none => nan

theorem parseInt_num_or_nan (s : List Char) : (∃ m, parseInt s = num m) ∨ parseInt s = nan := by
  unfold parseInt
  extract_lets _ negative _ value
  clear_value value
  cases value with
  | none => exact .inr rfl
  | some n =>
      simp only
      split
      · exact .inl ⟨-n, rfl⟩
      · exact .inl ⟨n, rfl⟩

/-- `n <= s` for a text. Signs, fractions and other bases are left out:
the only texts that get here have no digit at all. -/
def leText (n : Int) (s : List Char) : Bool :=
  let s := JsText.trim s
  if s = [] then n ≤ 0
  else if s.all Char.isDigit then
    match leadingNumber 10 s with
    | some m => n ≤ m
    | none => false
  else s = "Infinity".toList || s = "+Infinity".toList

/-- `n <= v`. -/
def le (n : Int) : JsValue → Bool
  | undefined | nan => false
  | bool b => n ≤ (if b then 1 else 0)
  | num m => n ≤ m
  | str s => leText n s

/-- The texts `n <= s` holds of for every integer. -/
def isInfinity (s : List Char) : Bool :=
  JsText.trim s = "Infinity".toList || JsText.trim s = "+Infinity".toList

theorem leText_of_isInfinity {s : List Char} (h : isInfinity s = true) (n : Int) :
    leText n s = true := by
  simp only [isInfinity, Bool.or_eq_true, decide_eq_true_eq] at h
  unfold leText
  rcases h with h | h
  · rw [h, if_neg (by decide), if_neg (by decide)]
    rfl
  · rw [h, if_neg (by decide), if_neg (by decide)]
    rfl

/-- A number no value lets pass but the two infinities. -/
def beyond : JsValue → Nat
  | num m => (m + 1).toNat
  | bool _ => 2
  | str _ => 1
  | undefined | nan => 0

theorem not_le_beyond_num (m : Int) : le (beyond (num m)) (num m) = false := by
  have hlt : ¬ ((m + 1).toNat : Int) ≤ m := by omega
  exact decide_eq_false hlt

theorem not_le_beyond_bool (b : Bool) : le (beyond (bool b)) (bool b) = false := by
  cases b <;> rfl

/-- A text without a digit lets 1 pass only if it is infinite. -/
theorem leText_one_iff {s : List Char} (hdigits : s.any Char.isDigit = false) :
    leText 1 s = true ↔ isInfinity s = true := by
  refine ⟨?_, fun h => leText_of_isInfinity h 1⟩
  intro h
  unfold leText at h
  by_cases hnil : JsText.trim s = []
  · rw [if_pos hnil] at h
    exact absurd h (by decide)
  · have hall : ¬ (JsText.trim s).all Char.isDigit = true := by
      obtain ⟨c, hc⟩ := List.exists_mem_of_ne_nil _ hnil
      intro hall
      rw [List.any_eq_false] at hdigits
      exact hdigits c ((JsText.trim_isInfix s).subset hc) (List.all_eq_true.mp hall c hc)
    rwa [if_neg hnil, if_neg hall] at h

end JsValue

/-! ## Objects -/

abbrev Object := List (List Char × JsValue)

namespace Object

def keys (o : Object) : List (List Char) := o.map Prod.fst

def get (o : Object) (k : List Char) : JsValue := (o.lookup k).getD .undefined

/-- `o[k] = v` -/
def set : Object → List Char → JsValue → Object
  | [], k, v => [(k, v)]
  | (k', v') :: o, k, v => if k' = k then (k, v) :: o else (k', v') :: set o k v

theorem get_of_not_mem {o : Object} {k : List Char} (h : k ∉ o.keys) : o.get k = .undefined := by
  have hnone : o.lookup k = none := by
    rw [List.lookup_eq_none_iff]
    intro p hp
    have hne : p.1 ≠ k := by
      intro heq
      exact h (heq ▸ List.mem_map_of_mem hp)
    simpa using hne.symm
  rw [get, hnone]
  rfl

theorem set_of_not_mem {o : Object} {k : List Char} (h : k ∉ o.keys) (v : JsValue) :
    o.set k v = o ++ [(k, v)] := by
  induction o with
  | nil => rfl
  | cons p o ih =>
      simp only [keys, List.map_cons, List.mem_cons, not_or] at h
      rw [set, if_neg (fun heq => h.1 heq.symm), ih h.2, List.cons_append]

theorem get_set_self (o : Object) (k : List Char) (v : JsValue) : (o.set k v).get k = v := by
  induction o with
  | nil => simp [set, get]
  | cons p o ih =>
      unfold set
      split
      · simp [get]
      · rename_i hne
        have hbeq : (k == p.1) = false := by simpa using fun h => hne h.symm
        simp only [get, List.lookup_cons, hbeq] at ih ⊢
        exact ih

theorem keys_set_subset (o : Object) (k : List Char) (v : JsValue) :
    ∀ x ∈ (o.set k v).keys, x = k ∨ x ∈ o.keys := by
  induction o with
  | nil =>
      intro x hx
      exact .inl (by simpa [set, keys] using hx)
  | cons p o ih =>
      intro x hx
      unfold set at hx
      split at hx
      · simp only [keys, List.map_cons, List.mem_cons] at hx ⊢
        rcases hx with hx | hx
        · exact .inl hx
        · exact .inr (.inr hx)
      · simp only [keys, List.map_cons, List.mem_cons] at hx ih ⊢
        rcases hx with hx | hx
        · exact .inr (.inl hx)
        · rcases ih x hx with h | h
          · exact .inl h
          · exact .inr (.inr h)

end Object

end Lib
