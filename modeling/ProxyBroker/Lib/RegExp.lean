/-
ProxyBroker.Lib.RegExp — a fragment of the regular expressions of
JavaScript, without flags: literal characters, `.`, `\s*`, the assertions
`^` and `$`, the greedy quantifiers `*` and `+`, and alternatives. No
pattern here has a bracket, a brace, a question mark or another backslash.

`compile` reads a pattern; a quantifier with nothing to repeat is a
syntax error (`none`). `exec` is the backtracking search of the
specification: the leftmost position at which an alternative matches, of
these the first, and within it the choice the greedy quantifiers come to
first. Texts are UTF-16 code units.

* `matchTerms_literal` — a pattern of plain characters reads itself;
* `exec_of_matchAt` — a match at the start is the match.
-/
import ProxyBroker.Lib.JsText
import ProxyBroker.Lib.Utf16

namespace Lib.RegExp

/-! ## Patterns -/

inductive Atom where
  | unit (u : Nat)
  /-- `.` -/
  | any
  /-- `\s` -/
  | space
  deriving DecidableEq, Repr

/-- Line feed, carriage return and the two separators of Unicode. -/
def isLineTerminator (u : Nat) : Bool := [0x0A, 0x0D, 0x2028, 0x2029].contains u

def Atom.accepts : Atom → Nat → Bool
  | .unit u, x => u == x
  | .any, x => !isLineTerminator x
  | .space, x => JsText.isSpace (Char.ofNat x)

inductive Term where
  /-- `^` -/
  | start
  /-- `$` -/
  | stop
  | one (a : Atom)
  | star (a : Atom)
  | plus (a : Atom)
  deriving DecidableEq, Repr

/-- The alternatives, each of them a sequence of terms. -/
abbrev Pattern := List (List Term)

/-! ## Compiling -/

/-- A term in front of the first alternative. -/
def Pattern.prepend (ts : List Term) : Pattern → Pattern
  | [] => [ts]
  | alt :: alts => (ts ++ alt) :: alts

/-- The atom of a character that has no other meaning. -/
def atomOf (c : Char) : Atom := if c = '.' then .any else .unit c.toNat

/-- `new RegExp(source)`; `none` is a SyntaxError. -/
def compile : List Char → Option Pattern
  | [] => some [[]]
  | '|' :: s => (compile s).map (fun p => [] :: p)
  | '^' :: s => (compile s).map (Pattern.prepend [.start])
  | '$' :: s => (compile s).map (Pattern.prepend [.stop])
  -- nothing to repeat
  | '*' :: _ | '+' :: _ => none
  | '\\' :: 's' :: '*' :: s => (compile s).map (Pattern.prepend [.star .space])
  | c :: '*' :: s => (compile s).map (Pattern.prepend [.star (atomOf c)])
  | c :: '+' :: s => (compile s).map (Pattern.prepend [.plus (atomOf c)])
  | c :: s => (compile s).map (Pattern.prepend [.one (atomOf c)])

/-- The characters that stand for more than themselves, besides `.`. -/
def isMeta (c : Char) : Bool := ['$', '*', '+', '^', '|'].contains c

/-! ## Searching -/

/-- Greedy repetition, with what has to match behind it. -/
def matchStar (a : Atom) (next : Nat → List Nat → Option Nat) : Nat → List Nat → Option Nat
  | pos, [] => next pos []
  | pos, u :: s =>
      if a.accepts u then (matchStar a next (pos + 1) s).or (next pos (u :: s))
      else next pos (u :: s)

def Term.run (next : Nat → List Nat → Option Nat) : Term → Nat → List Nat → Option Nat
  | .start, pos, s => if pos = 0 then next pos s else none
  | .stop, pos, s => if s = [] then next pos s else none
  | .one _, _, [] => none
  | .one a, pos, u :: s => if a.accepts u then next (pos + 1) s else none
  | .star a, pos, s => matchStar a next pos s
  | .plus _, _, [] => none
  | .plus a, pos, u :: s => if a.accepts u then matchStar a next (pos + 1) s else none

/-- The end of the match that begins at a position, where the rest of the
text stands. -/
def matchTerms : List Term → Nat → List Nat → Option Nat
  | [] => fun pos _ => some pos
  | t :: ts => t.run (matchTerms ts)

def matchAt (p : Pattern) (pos : Nat) (s : List Nat) : Option Nat :=
  p.findSome? (fun ts => matchTerms ts pos s)

def execFrom (p : Pattern) : Nat → List Nat → Option (Nat × Nat)
  | pos, [] => (matchAt p pos []).map (fun e => (pos, e))
  | pos, u :: s =>
      match matchAt p pos (u :: s) with
      | some e => some (pos, e)
      | none => execFrom p (pos + 1) s

/-- Start and end of the first match. -/
def exec (p : Pattern) (s : List Nat) : Option (Nat × Nat) := execFrom p 0 s

/-- `s.replace(regex, '')`, on code units. -/
def removeFirst (p : Pattern) (s : List Nat) : List Nat :=
  match exec p s with
  | some (i, j) => s.take i ++ s.drop j
  | none => s

/-! ## Plain patterns -/

theorem exec_of_matchAt {p : Pattern} {s : List Nat} {e : Nat} (h : matchAt p 0 s = some e) :
    exec p s = some (0, e) := by
  cases s with
  | nil => simp [exec, execFrom, h]
  | cons u s => simp [exec, execFrom, h]

/-- What is cut out begins before it ends, inside the text. -/
theorem matchStar_ge {a : Atom} {next : Nat → List Nat → Option Nat}
    (hnext : ∀ pos s e, next pos s = some e → pos ≤ e) {pos : Nat} {s : List Nat} {e : Nat}
    (h : matchStar a next pos s = some e) : pos ≤ e := by
  induction s generalizing pos with
  | nil => exact hnext pos [] e h
  | cons u s ih =>
      rw [matchStar] at h
      split at h
      · rcases Option.or_eq_some_iff.mp h with hmore | ⟨-, hstop⟩
        · have := ih hmore
          omega
        · exact hnext pos _ e hstop
      · exact hnext pos _ e h

theorem matchTerms_ge (ts : List Term) {pos : Nat} {s : List Nat} {e : Nat}
    (h : matchTerms ts pos s = some e) : pos ≤ e := by
  induction ts generalizing pos s e with
  | nil =>
      cases h
      exact Nat.le_refl _
  | cons t ts ih =>
      rw [matchTerms] at h
      cases t with
      | start | stop =>
          simp only [Term.run, Option.ite_none_right_eq_some] at h
          exact ih h.2
      | one a =>
          cases s with
          | nil => cases h
          | cons u s =>
              simp only [Term.run, Option.ite_none_right_eq_some] at h
              have := ih h.2
              omega
      | star a => exact matchStar_ge (fun _ _ _ h => ih h) h
      | plus a =>
          cases s with
          | nil => cases h
          | cons u s =>
              simp only [Term.run, Option.ite_none_right_eq_some] at h
              have := matchStar_ge (fun _ _ _ h => ih h) h.2
              omega

theorem exec_ge {p : Pattern} {s : List Nat} {i j : Nat} (h : exec p s = some (i, j)) : i ≤ j := by
  have hfrom : ∀ (s : List Nat) (pos : Nat), execFrom p pos s = some (i, j) → i ≤ j := by
    intro s
    induction s with
    | nil =>
        intro pos h
        obtain ⟨e, he, heq⟩ := Option.map_eq_some_iff.mp h
        cases heq
        obtain ⟨ts, -, hts⟩ := List.exists_of_findSome?_eq_some he
        exact matchTerms_ge ts hts
    | cons u s ih =>
        intro pos h
        rw [execFrom] at h
        split at h
        · next e he =>
          cases h
          obtain ⟨ts, -, hts⟩ := List.exists_of_findSome?_eq_some he
          exact matchTerms_ge ts hts
        · exact ih (pos + 1) h
  exact hfrom s 0 h

/-- Plain characters, then white space up to a colon. -/
def literal (name : List Char) : List Term :=
  name.map (fun c => .one (atomOf c)) ++ [.star .space, .one (.unit ':'.toNat)]

theorem compile_literal {name : List Char} (h : ∀ c ∈ name, isMeta c = false ∧ c ≠ '\\') :
    compile (name ++ ['\\', 's', '*', ':']) = some [literal name] := by
  induction name with
  | nil => rfl
  | cons c name ih =>
      have hrest := ih (fun d hd => h d (List.mem_cons_of_mem _ hd))
      obtain ⟨hmeta, hback⟩ := h c List.mem_cons_self
      simp only [isMeta, List.contains_eq_mem, decide_eq_false_iff_not, List.mem_cons,
        List.not_mem_nil, or_false, not_or] at hmeta
      obtain ⟨h1, h2, h3, h4, h5⟩ := hmeta
      have hnext : ∀ d r, name ++ ['\\', 's', '*', ':'] = d :: r → d ≠ '*' ∧ d ≠ '+' := by
        intro d r hd
        cases name with
        | nil =>
            cases hd
            decide
        | cons e name =>
            cases hd
            have he := (h d (by simp)).1
            simp only [isMeta, List.contains_eq_mem, decide_eq_false_iff_not, List.mem_cons,
              List.not_mem_nil, or_false, not_or] at he
            exact ⟨he.2.1, he.2.2.1⟩
      obtain ⟨d, r, hd⟩ := List.exists_cons_of_ne_nil
        (show name ++ ['\\', 's', '*', ':'] ≠ [] by simp)
      obtain ⟨hstar, hplus⟩ := hnext d r hd
      rw [List.cons_append, hd]
      rw [hd] at hrest
      unfold compile
      split <;> simp_all [literal, Pattern.prepend]

theorem accepts_atomOf {c : Char} : (atomOf c).accepts c.toNat = true := by
  unfold atomOf
  split
  · next h =>
    subst h
    decide
  · simp [Atom.accepts]

/-- A plain pattern reads its own text and the colon behind it. -/
theorem matchTerms_literal {name : List Char} (h : name.all Utf8.isAscii = true) (pos : Nat)
    (s : List Nat) :
    matchTerms (literal name) pos (Utf16.encode name ++ ':'.toNat :: s) =
      some (pos + name.length + 1) := by
  induction name generalizing pos with
  | nil => rfl
  | cons c name ih =>
      rw [List.all_cons, Bool.and_eq_true] at h
      rw [Utf16.encode_cons, Utf16.encodeChar_of_isAscii h.1]
      have hstep : matchTerms (literal (c :: name)) pos
          ([c.toNat] ++ Utf16.encode name ++ ':'.toNat :: s) =
          matchTerms (literal name) (pos + 1) (Utf16.encode name ++ ':'.toNat :: s) := by
        show (if (atomOf c).accepts c.toNat then _ else none) = _
        rw [if_pos accepts_atomOf]
        rfl
      rw [hstep, ih h.2, List.length_cons]
      congr 1
      omega

end Lib.RegExp
