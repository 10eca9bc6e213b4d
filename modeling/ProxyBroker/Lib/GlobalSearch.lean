/-
ProxyBroker.Lib.GlobalSearch — searching a text for a pattern: the first
match (`search`), and all matches one behind the other (`matchAll`), as a
regular expression with the flag g is executed until it finds nothing.

A match begins at the leftmost place where the pattern has a way, and is
the way that comes first there; the next search begins at its end.
Patterns here match no empty text.

* `matchAll_quiet`, `search_quiet` — a part of the text in which no match
  begins is skipped;
* `matchAll_match`, `search_match` — a match, and what is found behind it;
* `matchAll_page` — a text of rows, with any text between them in which no
  match begins, is read back as its rows.

`Takes m s a r` says what the first way of `m` is; `takes_andThen`,
`takes_plus` and `takes_lit` compute it for a sequence in which every
greedy repetition is right at once. A `Row` is a text that is matched up to
its end.
-/
import ProxyBroker.Lib.Matcher

namespace Lib.Matcher

variable {α β : Type} {m : Matcher α}

/-! ## The first way -/

/-- The first way of `m` at the start of `s` has the result `a` and leaves
`r`. -/
def Takes (m : Matcher α) (s : List Char) (a : α) (r : List Char) : Prop :=
  (m s).head? = some (a, r)

theorem takes_done (a : α) (s : List Char) : Takes (done a) s a s := rfl

theorem takes_andThen {k : α → Matcher β} {s t r : List Char} {a : α} {b : β}
    (hm : Takes m s a t) (hk : Takes (k a) t b r) : Takes (andThen m k) s b r := by
  obtain ⟨ways, hways⟩ := List.head?_eq_some_iff.mp hm
  rw [Takes, andThen, hways, List.flatMap_cons, List.head?_append, hk]
  rfl

theorem takes_lit (t r : List Char) : Takes (lit t) (t ++ r) t r := by
  simp [Takes, lit]

/-- `p+`, greedy, for a class of characters. -/
def plus (p : Char → Bool) : Matcher (List Char) := fun s => some1 p s.length s

/-- `p*`, greedy, for a class of characters. -/
def star (p : Char → Bool) : Matcher (List Char) := fun s => many p s.length s

@[simp] theorem mem_plus {p : Char → Bool} {s t r : List Char} :
    (t, r) ∈ plus p s ↔ s = t ++ r ∧ t ≠ [] ∧ ∀ c ∈ t, p c = true := by
  rw [plus, mem_some1]
  constructor
  · intro ⟨hsplit, hne, _, hall⟩
    exact ⟨hsplit, hne, hall⟩
  · intro ⟨hsplit, hne, hall⟩
    exact ⟨hsplit, hne, by simp [hsplit]; omega, hall⟩

@[simp] theorem mem_star {p : Char → Bool} {s t r : List Char} :
    (t, r) ∈ star p s ↔ s = t ++ r ∧ ∀ c ∈ t, p c = true := by
  rw [star, mem_many]
  constructor
  · intro ⟨hsplit, _, hall⟩
    exact ⟨hsplit, hall⟩
  · intro ⟨hsplit, hall⟩
    exact ⟨hsplit, by simp [hsplit], hall⟩

/-- A way without another one. -/
theorem takes_of_unique {s r : List Char} {a : α} (hway : (a, r) ∈ m s)
    (hunique : ∀ q ∈ m s, q = (a, r)) : Takes m s a r := by
  obtain ⟨q, ways, hways⟩ := List.exists_cons_of_ne_nil (List.ne_nil_of_mem hway)
  have hq : q = (a, r) := hunique q (by simp [hways])
  rw [Takes, hways, List.head?_cons, hq]

theorem head?_many {p : Char → Bool} {run r : List Char} (hrun : ∀ c ∈ run, p c = true)
    (hr : ∀ c ∈ r.head?, p c = false) {n : Nat} (hn : run.length ≤ n) :
    (many p n (run ++ r)).head? = some (run, r) := by
  induction run generalizing n with
  | nil =>
      cases n with
      | zero => rfl
      | succ n =>
          cases r with
          | nil => rfl
          | cons c r =>
              have hc : p c = false := hr c rfl
              simp [many, hc]
  | cons c run ih =>
      cases n with
      | zero => cases hn
      | succ n =>
          have hc : p c = true := hrun c List.mem_cons_self
          have hrest := ih (fun d hd => hrun d (List.mem_cons_of_mem _ hd))
            (Nat.le_of_succ_le_succ hn)
          simp [many, hc, hrest]

/-- A run of the class up to a character that is not of it. -/
theorem takes_plus {p : Char → Bool} {run r : List Char} (hne : run ≠ [])
    (hrun : ∀ c ∈ run, p c = true) (hr : ∀ c ∈ r.head?, p c = false) :
    Takes (plus p) (run ++ r) run r := by
  obtain ⟨c, run, rfl⟩ := List.exists_cons_of_ne_nil hne
  have hc : p c = true := hrun c List.mem_cons_self
  have hrest := head?_many (fun d hd => hrun d (List.mem_cons_of_mem _ hd)) hr
    (n := (c :: (run ++ r)).length) (by simp; omega)
  simp only [Takes, plus, List.cons_append, some1, hc, if_true, List.head?_map, hrest]
  rfl

/-! ## The first match -/

def search (m : Matcher α) : List Char → Option α
  | [] => first m []
  | c :: s => (first m (c :: s)).or (search m s)

theorem search_match {s r : List Char} {a : α} (h : Takes m s a r) : search m s = some a := by
  have hfirst : first m s = some a := by rw [first, h, Option.map_some]
  cases s with
  | nil => exact hfirst
  | cons c s => rw [search, hfirst, Option.some_or]

/-! ## All matches -/

/-- The matches behind the next `k` characters. -/
def matchAllFrom (m : Matcher α) : Nat → List Char → List α
  | _, [] => []
  | k + 1, _ :: s => matchAllFrom m k s
  | 0, c :: s =>
      match (m (c :: s)).head? with
      | some (a, r) => a :: matchAllFrom m (s.length - r.length) s
      | none => matchAllFrom m 0 s

def matchAll (m : Matcher α) (s : List Char) : List α := matchAllFrom m 0 s

theorem matchAllFrom_eq (m : Matcher α) (k : Nat) (s : List Char) :
    matchAllFrom m k s = matchAll m (s.drop k) := by
  induction s generalizing k with
  | nil => cases k <;> rfl
  | cons c s ih =>
      cases k with
      | zero => rfl
      | succ k => exact ih k

/-- **A match, and what is found behind it.** -/
theorem matchAll_match {t r : List Char} {a : α} (hne : t ≠ []) (h : Takes m (t ++ r) a r) :
    matchAll m (t ++ r) = a :: matchAll m r := by
  obtain ⟨c, t, rfl⟩ := List.exists_cons_of_ne_nil hne
  have hdrop : (t ++ r).drop ((t ++ r).length - r.length) = r := by
    rw [List.length_append, Nat.add_sub_cancel, List.drop_left]
  have hhead : (m (c :: (t ++ r))).head? = some (a, r) := h
  rw [matchAll, List.cons_append, matchAllFrom]
  simp only [hhead]
  rw [matchAllFrom_eq, hdrop]

/-- No match begins in `quiet`, with `r` behind it. -/
def Quiet (m : Matcher α) (quiet r : List Char) : Prop :=
  ∀ i < quiet.length, m ((quiet ++ r).drop i) = []

instance (m : Matcher α) (quiet r : List Char) : Decidable (Quiet m quiet r) :=
  inferInstanceAs (Decidable (∀ i < quiet.length, m ((quiet ++ r).drop i) = []))

/-- **A quiet part is skipped.** -/
theorem matchAll_quiet {quiet r : List Char} (h : Quiet m quiet r) :
    matchAll m (quiet ++ r) = matchAll m r := by
  induction quiet with
  | nil => rfl
  | cons c quiet ih =>
      have hhere : m (c :: (quiet ++ r)) = [] := h 0 (Nat.succ_pos _)
      have hlater : Quiet m quiet r := fun i hi => h (i + 1) (Nat.succ_lt_succ hi)
      rw [List.cons_append, matchAll, matchAllFrom]
      simp only [hhere, List.head?_nil]
      exact ih hlater

theorem search_quiet {quiet r : List Char} (h : Quiet m quiet r) :
    search m (quiet ++ r) = search m r := by
  induction quiet with
  | nil => rfl
  | cons c quiet ih =>
      have hhere : m (c :: (quiet ++ r)) = [] := h 0 (Nat.succ_pos _)
      have hlater : Quiet m quiet r := fun i hi => h (i + 1) (Nat.succ_lt_succ hi)
      rw [List.cons_append, search, first_eq_none_iff.mpr hhere, Option.none_or, ih hlater]

theorem not_mem_of_contains {x : Char} {s : List Char} (h : s.contains x = false) : x ∉ s := by
  simpa using h

/-- A pattern that begins with a fixed character matches nothing in a text
without it. -/
theorem quiet_of_not_mem {x : Char} {t : List Char} {k : List Char → Matcher α}
    {quiet r : List Char} (h : x ∉ quiet) : Quiet (andThen (lit (x :: t)) k) quiet r := by
  intro i hi
  rw [List.eq_nil_iff_forall_not_mem]
  rintro ⟨a, r'⟩ hmem
  obtain ⟨u, s', hlit, -⟩ := mem_andThen.mp hmem
  have hdrop := (mem_lit.mp hlit).2
  rw [List.drop_append_of_le_length (Nat.le_of_lt hi), List.drop_eq_getElem_cons hi] at hdrop
  exact h ((List.cons.inj hdrop).1 ▸ List.getElem_mem hi)

/-! ## Texts of matches -/

/-- A text that is matched up to its end, with its result, unless what
stands behind it begins with a character of `more`. -/
structure Row (m : Matcher α) (more : Char → Bool) where
  text : List Char
  value : α
  nonempty : text ≠ []
  takes : ∀ r : List Char, (∀ c ∈ r.head?, more c = false) → Takes m (text ++ r) value r

variable {more : Char → Bool} {ι : Type}

/-- Texts and rows by turns, and a text at the end. -/
def interleave (row : ι → Row m more) (last : List Char) : List (List Char × ι) → List Char
  | [] => last
  | q :: pieces => q.1 ++ ((row q.2).text ++ interleave row last pieces)

/-- No match begins in the texts between the rows, and none goes on behind
its row. -/
def Spaced (row : ι → Row m more) (last : List Char) : List (List Char × ι) → Prop
  | [] => Quiet m last []
  | q :: pieces =>
      Quiet m q.1 ((row q.2).text ++ interleave row last pieces) ∧
        (∀ c ∈ (interleave row last pieces).head?, more c = false) ∧ Spaced row last pieces

instance decidableSpaced (row : ι → Row m more) (last : List Char) :
    (pieces : List (List Char × ι)) → Decidable (Spaced row last pieces)
  | [] => inferInstanceAs (Decidable (Quiet m last []))
  | q :: pieces =>
      have := decidableSpaced row last pieces
      -- a search through all characters would be found first
      have : Decidable (∀ c ∈ (interleave row last pieces).head?, more c = false) :=
        Option.decidableForallMem _
      inferInstanceAs (Decidable (Quiet m q.1 ((row q.2).text ++ interleave row last pieces) ∧
        (∀ c ∈ (interleave row last pieces).head?, more c = false) ∧ Spaced row last pieces))

/-- A text of rows, with other texts between them. -/
structure Page (row : ι → Row m more) where
  pieces : List (List Char × ι)
  last : List Char
  spaced : Spaced row last pieces

variable {row : ι → Row m more}

def Page.text (page : Page row) : List Char := interleave row page.last page.pieces

/-- **The matches of a page are its rows.** -/
theorem matchAll_page (page : Page row) :
    matchAll m page.text = page.pieces.map (fun q => (row q.2).value) := by
  obtain ⟨pieces, last, hspaced⟩ := page
  unfold Page.text
  dsimp only
  induction pieces with
  | nil =>
      have hlast := matchAll_quiet hspaced
      rw [List.append_nil] at hlast
      exact hlast
  | cons q pieces ih =>
      obtain ⟨hquiet, hends, hrest⟩ := hspaced
      rw [interleave, matchAll_quiet hquiet,
        matchAll_match (row q.2).nonempty ((row q.2).takes _ hends), ih hrest, List.map_cons]

end Lib.Matcher
