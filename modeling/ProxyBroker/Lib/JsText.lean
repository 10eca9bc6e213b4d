/-
ProxyBroker.Lib.JsText — the JavaScript string operations header parsing
uses, on texts as character lists.

`trim` strips the characters of `isSpace` (ECMAScript WhiteSpace and
LineTerminator, the class `\s` of a regular expression) from both ends.
`splitLimit` is `String.prototype.split` with a one-character separator
and a limit: the limit TRUNCATES the list of pieces, it does not stop
splitting, so what follows the second separator is lost.
`splitLimit_two` says this in the form the header parser meets it.
-/
import Mathlib.Data.List.DropRight

namespace Lib.JsText

/-! ## White space -/

/-- WhiteSpace and LineTerminator of ECMAScript. -/
def isSpace (c : Char) : Bool :=
  c.val ∈ [0x9, 0xA, 0xB, 0xC, 0xD, 0x20, 0xA0, 0x1680, 0x2028, 0x2029, 0x202F, 0x205F,
    0x3000, 0xFEFF] || (0x2000 ≤ c.val && c.val ≤ 0x200A)

def trimStart (s : List Char) : List Char := s.dropWhile isSpace

def trimEnd (s : List Char) : List Char := s.rdropWhile isSpace

def trim (s : List Char) : List Char := trimEnd (trimStart s)

theorem trimStart_append_cons (p q : List Char) {c : Char} (hc : isSpace c = false) :
    trimStart (p ++ c :: q) = trimStart p ++ c :: q := by
  induction p with
  | nil => simp [trimStart, hc]
  | cons a p ih =>
      simp only [trimStart, List.cons_append, List.dropWhile_cons] at ih ⊢
      split
      · exact ih
      · rfl

theorem trimEnd_append_cons (p q : List Char) {c : Char} (hc : isSpace c = false) :
    trimEnd (p ++ c :: q) = p ++ c :: trimEnd q := by
  have h := trimStart_append_cons q.reverse p.reverse hc
  simp only [trimStart] at h
  simp only [trimEnd, List.rdropWhile, List.reverse_append, List.reverse_cons,
    List.append_assoc, List.cons_append, List.nil_append, h, List.reverse_reverse]

/-- A character that is no space separates what is trimmed on its left
from what is trimmed on its right. -/
theorem trim_append_cons (p q : List Char) {c : Char} (hc : isSpace c = false) :
    trim (p ++ c :: q) = trimStart p ++ c :: trimEnd q := by
  rw [trim, trimStart_append_cons p q hc, trimEnd_append_cons _ _ hc]

theorem trimEnd_of_isSpace {w : List Char} (h : ∀ c ∈ w, isSpace c = true) : trimEnd w = [] :=
  List.rdropWhile_eq_nil_iff.mpr h

/-- A text between characters that are no spaces is what is left of it
with spaces behind. -/
theorem trim_append_of_isSpace {c e : Char} {q u w : List Char} (hc : isSpace c = false)
    (he : isSpace e = false) (heq : c :: q = u ++ [e]) (hw : ∀ x ∈ w, isSpace x = true) :
    trim (c :: q ++ w) = c :: q := by
  have hstart : trimStart (c :: q ++ w) = c :: q ++ w := by simp [trimStart, hc]
  rw [trim, hstart, heq, List.append_assoc, List.singleton_append, trimEnd_append_cons u w he,
    trimEnd_of_isSpace hw]

theorem trim_of_nonspace {s : List Char} (h : ∀ c ∈ s, isSpace c = false) : trim s = s := by
  cases hs : s with
  | nil => rfl
  | cons c q =>
      have hne : c :: q ≠ [] := List.cons_ne_nil c q
      have hlast := trim_append_of_isSpace (w := []) (h c (by simp [hs]))
        (h ((c :: q).getLast hne) (hs ▸ List.getLast_mem hne))
        (List.dropLast_append_getLast hne).symm (fun x hx => by cases hx)
      rwa [List.append_nil] at hlast

theorem trim_prefix_trimStart (p : List Char) : trim p <+: trimStart p :=
  List.rdropWhile_prefix _ _

theorem trimStart_prefix {s t : List Char} (h : t <+: trimStart s) : trimStart t = t := by
  cases t with
  | nil => rfl
  | cons c t =>
      obtain ⟨r, hr⟩ := h
      have hc : isSpace c = false := by
        have hdrop : s.dropWhile isSpace = c :: t ++ r := hr.symm
        have hhead := List.head?_dropWhile_not isSpace s
        rwa [hdrop] at hhead
      simp [trimStart, hc]

/-- What is trimmed has nothing left to trim. -/
theorem trim_trim (s : List Char) : trim (trim s) = trim s := by
  have hstart : trimStart (trim s) = trim s := trimStart_prefix (trim_prefix_trimStart s)
  rw [trim, hstart]
  exact List.rdropWhile_idempotent isSpace (trimStart s)

/-- Trimming takes nothing but spaces away. -/
theorem mem_trim {c : Char} {s : List Char} (h : c ∈ s) (hc : isSpace c = false) : c ∈ trim s := by
  obtain ⟨p, q, rfl⟩ := List.append_of_mem h
  rw [trim_append_cons p q hc]
  exact List.mem_append_right _ List.mem_cons_self

theorem trim_isInfix (s : List Char) : trim s <:+: s :=
  (trim_prefix_trimStart s).isInfix.trans (List.dropWhile_suffix isSpace).isInfix

/-- A text that begins with no space is, but for spaces behind, its
trimmed self, which ends with no space. -/
theorem trim_concat {c : Char} (hc : isSpace c = false) (t : List Char) :
    ∃ q d s, c :: t = q ++ d :: s ∧ isSpace d = false ∧
      (∀ x ∈ s, isSpace x = true) ∧ trim (c :: t) = q ++ [d] := by
  have hstart : trimStart (c :: t) = c :: t := by simp [trimStart, hc]
  have hne : trimEnd (c :: t) ≠ [] := by
    intro hnil
    rw [List.rdropWhile_eq_nil_iff.mp hnil c List.mem_cons_self] at hc
    cases hc
  have hsplit : trimEnd (c :: t) ++ (c :: t).rtakeWhile isSpace = c :: t :=
    List.rdropWhile_append_rtakeWhile
  have hlast : isSpace ((trimEnd (c :: t)).getLast hne) = false := by
    simpa [trimEnd] using List.rdropWhile_last_not isSpace (c :: t) hne
  have hconcat := List.dropLast_append_getLast hne
  refine ⟨(trimEnd (c :: t)).dropLast, _, (c :: t).rtakeWhile isSpace, ?_, hlast,
    fun x hx => List.mem_rtakeWhile_imp hx, ?_⟩
  · rw [List.append_cons, hconcat]
    exact hsplit.symm
  · rw [hconcat, trim, hstart]

/-- What ends with spaces has a space for its last character. -/
theorem isSpace_of_concat {q y w : List Char} {d : Char} (h : q ++ [d] = y ++ w)
    (hw : ∀ x ∈ w, isSpace x = true) (hne : w ≠ []) : isSpace d = true := by
  have hlast := congrArg List.getLast? h
  rw [List.getLast?_append, List.getLast?_append, List.getLast?_singleton, Option.some_or,
    List.getLast?_eq_some_getLast hne, Option.some_or, Option.some.injEq] at hlast
  rw [hlast]
  exact hw _ (List.getLast_mem hne)

/-- What stands behind a character that is no space stays. -/
theorem trimStart_append {p : List Char} {c : Char} (hmem : c ∈ p) (hc : isSpace c = false)
    (q : List Char) : trimStart (p ++ q) = trimStart p ++ q := by
  obtain ⟨a, b, rfl⟩ := List.append_of_mem hmem
  rw [List.append_assoc, List.cons_append, trimStart_append_cons _ _ hc,
    trimStart_append_cons _ _ hc, List.append_assoc, List.cons_append]

/-! ## Splitting at one character -/

/-- `s.split(sep, limit)`. -/
def splitLimit (sep : Char) (limit : Nat) (s : List Char) : List (List Char) :=
  (s.splitOn sep).take limit

theorem splitLimit_of_not_mem {sep : Char} {s : List Char} (h : sep ∉ s) (n : Nat) :
    splitLimit sep (n + 1) s = [s] := by
  rw [splitLimit, List.splitOn_eq_singleton h, List.take_succ_cons, List.take_nil]

/-- The first piece ends at the first separator. -/
theorem splitOn_head? (sep : Char) (s : List Char) :
    (s.splitOn sep).head? = some (s.takeWhile (· ≠ sep)) := by
  by_cases h : sep ∈ s
  · obtain ⟨p, q, rfl, hp⟩ := List.eq_append_cons_of_mem h
    rw [List.splitOn_append_cons_self_of_not_mem hp, List.head?_cons,
      List.takeWhile_append_of_pos (by simpa using fun a ha => ne_of_mem_of_not_mem ha hp)]
    simp
  · rw [List.splitOn_eq_singleton h, List.head?_cons,
      List.takeWhile_eq_self_iff.mpr (by simpa using fun a ha => ne_of_mem_of_not_mem ha h)]

/-- Limit 2: the piece before the first separator, and the one between
the first separator and the second. -/
theorem splitLimit_two {sep : Char} {p : List Char} (hp : sep ∉ p) (q : List Char) :
    splitLimit sep 2 (p ++ sep :: q) = [p, q.takeWhile (· ≠ sep)] := by
  obtain ⟨x, xs, hx⟩ := List.exists_cons_of_ne_nil (List.splitOn_ne_nil sep q)
  have hhead := splitOn_head? sep q
  rw [hx, List.head?_cons, Option.some.injEq] at hhead
  rw [splitLimit, List.splitOn_append_cons_self_of_not_mem hp, hx, hhead]
  rfl

/-! ## What stands around the first separator -/

def beforeFirst (sep : Char) (s : List Char) : List Char := s.takeWhile (· ≠ sep)

def afterFirst (sep : Char) (s : List Char) : List Char := (s.dropWhile (· ≠ sep)).tail

theorem not_mem_beforeFirst (sep : Char) (s : List Char) : sep ∉ beforeFirst sep s := by
  intro h
  simpa using List.mem_takeWhile_imp h

theorem beforeFirst_append_afterFirst {sep : Char} {s : List Char} (h : sep ∈ s) :
    beforeFirst sep s ++ sep :: afterFirst sep s = s := by
  obtain ⟨p, q, rfl, hp⟩ := List.eq_append_cons_of_mem h
  have hall : ∀ a ∈ p, decide (a ≠ sep) = true := by
    simpa using fun a ha => ne_of_mem_of_not_mem ha hp
  rw [beforeFirst, afterFirst, List.takeWhile_append_of_pos hall,
    List.dropWhile_append_of_pos hall]
  simp

theorem beforeFirst_append_cons {sep : Char} {p : List Char} (hp : sep ∉ p) (q : List Char) :
    beforeFirst sep (p ++ sep :: q) = p := by
  have hall : ∀ a ∈ p, decide (a ≠ sep) = true := by
    simpa using fun a ha => ne_of_mem_of_not_mem ha hp
  rw [beforeFirst, List.takeWhile_append_of_pos hall]
  simp

/-! ## Splitting at white space -/

/-- The pieces between the runs of white space; the first argument tells
that a run has begun. -/
def splitSpacesFrom : Bool → List Char → List (List Char)
  | _, [] => [[]]
  | inRun, c :: s =>
      if isSpace c then
        if inRun then splitSpacesFrom true s else [] :: splitSpacesFrom true s
      else (splitSpacesFrom false s).modifyHead (c :: ·)

/-- `s.split(/\s+/)` -/
def splitSpaces (s : List Char) : List (List Char) := splitSpacesFrom false s

theorem splitSpacesFrom_ne_nil (inRun : Bool) (s : List Char) : splitSpacesFrom inRun s ≠ [] := by
  induction s generalizing inRun with
  | nil => simp [splitSpacesFrom]
  | cons c s ih =>
      unfold splitSpacesFrom
      split
      · split
        · exact ih true
        · simp
      · obtain ⟨p, ps, hps⟩ := List.exists_cons_of_ne_nil (ih false)
        simp [hps]

/-- There is a second piece exactly if there is white space. -/
theorem splitSpaces_tail_eq_nil_iff (s : List Char) :
    (splitSpaces s).tail = [] ↔ s.any isSpace = false := by
  induction s with
  | nil => simp [splitSpaces, splitSpacesFrom]
  | cons c s ih =>
      unfold splitSpaces splitSpacesFrom
      cases hc : isSpace c with
      | true => simp [hc, splitSpacesFrom_ne_nil]
      | false =>
          obtain ⟨p, ps, hps⟩ := List.exists_cons_of_ne_nil (splitSpacesFrom_ne_nil false s)
          rw [splitSpaces, hps] at ih
          simpa [hc, hps] using ih

end Lib.JsText
