/-
ProxyBroker.Lib.VersionedRow — clients that update one row of a table in
two saves, without a transaction.

A client reads the row, or finds that there is none, saves it with the
next version, and later saves it again with the version it has taken and
its update of the value. A client without an update ends with its first
save. What a client saves is its own copy: the value it has read, whatever
has become of the row since. A row that a client takes for new is inserted,
which fails if someone has inserted it before.

`kept_iff` — when two clients have ended, the row has grown by two
versions and the value is that of one client behind the other exactly in
the histories where one was served behind the other (`Serial`) and in the
two where the second reads between the saves of the first and saves last
(`Overtaken`), if there its own update alone amounts to a sequential
order (`Suffices`).

Both clients reading before either has saved is lost for good: they take
the same version (`Stale`). A client whose last save comes behind the end
of the other puts its lower version back.
-/
import ProxyBroker.Lib.Transition

namespace Lib

structure Row (ν : Type) where
  version : Nat
  value : ν
  deriving DecidableEq, Repr

namespace VersionedRow

variable {ι ν : Type}

/-- An operation of a client on the row. -/
inductive Touch where
  | read
  | first
  | last
  deriving DecidableEq, Repr

inductive Phase (ν : Type) where
  | fresh
  /-- has its copy, with the next version; `new` if there was no row -/
  | read (new : Bool) (row : Row ν)
  /-- has saved; what it is going to save again -/
  | saved (row : Row ν)
  | done (version : Nat)
  | failed
  deriving DecidableEq, Repr

def Phase.isOver : Phase ν → Bool
  | .done _ | .failed => true
  | _ => false

structure Table (ι ν : Type) where
  row : Option (Row ν)
  phase : ι → Phase ν

/-- The clients: what each makes of the value, and the value of a row
that is inserted. -/
structure Clients (ι ν : Type) where
  update : ι → Option (ν → ν)
  initial : ν

namespace Clients

variable (C : Clients ι ν)

/-- The row a client starts from. -/
def base (row : Option (Row ν)) : Row ν := row.getD ⟨0, C.initial⟩

/-- The copy of a client that reads. -/
def copy (row : Option (Row ν)) : Row ν :=
  { C.base row with version := (C.base row).version + 1 }

/-- A client behind its first save. -/
def saved (i : ι) (row : Row ν) : Phase ν :=
  match C.update i with
  | none => .done row.version
  | some f => .saved { row with value := f row.value }

/-- What a client makes of a value, if it is alone. -/
def apply (i : ι) (v : ν) : ν := ((C.update i).getD id) v

section

variable [DecidableEq ι]

def step (s : Table ι ν) : ι × Touch → Option (Table ι ν)
  | (i, .read) =>
      match s.phase i with
      | .fresh =>
          some { s with phase := Function.update s.phase i (.read s.row.isNone (C.copy s.row)) }
      | _ => none
  | (i, .first) =>
      match s.phase i with
      | .read new row =>
          if new && s.row.isSome then some { s with phase := Function.update s.phase i .failed }
          else some ⟨some row, Function.update s.phase i (C.saved i row)⟩
      | _ => none
  | (i, .last) =>
      match s.phase i with
      | .saved row => some ⟨some row, Function.update s.phase i (.done row.version)⟩
      | _ => none

def machine : Machine (Table ι ν) (ι × Touch) where
  step := C.step

section

variable {C} {s : Table ι ν} {i : ι} {new : Bool} {r : Row ν}

theorem step_read (h : s.phase i = .fresh) :
    C.step s (i, .read) =
      some ⟨s.row, Function.update s.phase i (.read s.row.isNone (C.copy s.row))⟩ := by
  simp [step, h]

theorem step_reject (h : s.phase i = .read new r) (hnew : (new && s.row.isSome) = true) :
    C.step s (i, .first) = some ⟨s.row, Function.update s.phase i .failed⟩ := by
  simp [step, h, hnew]

theorem step_first (h : s.phase i = .read new r) (hnew : (new && s.row.isSome) = false) :
    C.step s (i, .first) = some ⟨some r, Function.update s.phase i (C.saved i r)⟩ := by
  simp [step, h, hnew]

theorem step_last (h : s.phase i = .saved r) :
    C.step s (i, .last) = some ⟨some r, Function.update s.phase i (.done r.version)⟩ := by
  simp [step, h]

end

end

/-! ## What is asked of two clients -/

/-- The operations of a client that is not disturbed. -/
def touches (i : ι) : List (ι × Touch) :=
  match C.update i with
  | none => [(i, .read), (i, .first)]
  | some _ => [(i, .read), (i, .first), (i, .last)]

/-- Client `y` is served behind client `x`. -/
def Serial (x y : ι) (h : List (ι × Touch)) : Prop := h = C.touches x ++ C.touches y

/-- Client `y` reads between the saves of `x` and saves last. -/
def Overtaken (x y : ι) (h : List (ι × Touch)) : Prop :=
  h = [(x, .read), (x, .first), (y, .read), (x, .last)] ++ (C.touches y).tail ∨
    h = [(x, .read), (x, .first), (y, .read), (y, .first), (x, .last), (y, .last)]

/-- Two versions more, and a value some sequential order gives. -/
def Kept (x y : ι) (b : Row ν) (row : Option (Row ν)) : Prop :=
  ∃ r, row = some r ∧ r.version = b.version + 2 ∧
    (r.value = C.apply y (C.apply x b.value) ∨
      r.value = C.apply x (C.apply y b.value))

/-- The update of `y` alone amounts to a sequential order. -/
def Suffices (x y : ι) (v : ν) : Prop :=
  C.apply y v = C.apply y (C.apply x v) ∨ C.apply y v = C.apply x (C.apply y v)

/-- The histories that keep the results of both clients, `x` being the
first to read. -/
def KeptBy (x y : ι) (v : ν) (h : List (ι × Touch)) : Prop :=
  C.Serial x y h ∨ C.Overtaken x y h ∧ C.Suffices x y v

/-! ## What a step does -/

variable {C}

/-- A client in a phase meets the row; the row and the phase then. -/
inductive Moves (C : Clients ι ν) (i : ι) (row : Option (Row ν)) :
    Phase ν → Touch → Option (Row ν) → Phase ν → Prop where
  | read : Moves C i row .fresh .read row (.read row.isNone (C.copy row))
  | reject (new : Bool) (r : Row ν) (h : (new && row.isSome) = true) :
      Moves C i row (.read new r) .first row .failed
  | first (new : Bool) (r : Row ν) (h : (new && row.isSome) = false) :
      Moves C i row (.read new r) .first (some r) (C.saved i r)
  | last (r : Row ν) : Moves C i row (.saved r) .last (some r) (.done r.version)

/-- What a table is for two clients, the others being over. -/
structure At (x y : ι) (row : Option (Row ν)) (px py : Phase ν) (s : Table ι ν) : Prop where
  row_eq : s.row = row
  left : s.phase x = px
  right : s.phase y = py
  others : ∀ i, i ≠ x → i ≠ y → (s.phase i).isOver = true

variable {x y i : ι} {k : Touch} {row : Option (Row ν)} {px py : Phase ν}
variable {s s' t : Table ι ν} {as : List (ι × Touch)}

theorem Moves.not_over {p p' : Phase ν} {row' : Option (Row ν)} (h : Moves C i row p k row' p') :
    p.isOver = false := by
  cases h <;> rfl

theorem At.symm (h : At x y row px py s) : At y x row py px s :=
  ⟨h.row_eq, h.right, h.left, fun i hy hx => h.others i hx hy⟩

section

variable [DecidableEq ι]

theorem step_moves (h : C.step s (i, k) = some s') :
    ∃ row p, Moves C i s.row (s.phase i) k row p ∧
      s' = ⟨row, Function.update s.phase i p⟩ := by
  cases k with
  | read =>
      simp only [step] at h
      split at h
      · rename_i hp
        cases h
        exact ⟨_, _, hp ▸ .read, rfl⟩
      · cases h
  | first =>
      simp only [step] at h
      split at h
      · rename_i new r hp
        split at h
        · cases h
          exact ⟨_, _, hp ▸ .reject new r ‹_›, rfl⟩
        · cases h
          exact ⟨_, _, hp ▸ .first new r (Bool.eq_false_iff.mpr ‹_›), rfl⟩
      · cases h
  | last =>
      simp only [step] at h
      split at h
      · rename_i r hp
        cases h
        exact ⟨_, _, hp ▸ .last r, rfl⟩
      · cases h

theorem At.move (h : At x y row px py s) (hxy : x ≠ y) (row' : Option (Row ν)) (p : Phase ν) :
    At x y row' p py ⟨row', Function.update s.phase x p⟩ := by
  refine ⟨rfl, by simp, ?_, ?_⟩
  · simpa [Function.update_of_ne hxy.symm] using h.right
  · intro i hx hy
    simpa [Function.update_of_ne hx] using h.others i hx hy

/-- **Inversion**: one of the two has moved. -/
theorem At.step (h : At x y row px py s) (hxy : x ≠ y) (hstep : C.step s (i, k) = some s') :
    (i = x ∧ ∃ row' p, Moves C x row px k row' p ∧ At x y row' p py s') ∨
      (i = y ∧ ∃ row' p, Moves C y row py k row' p ∧ At x y row' px p s') := by
  obtain ⟨row', p, hmoves, rfl⟩ := step_moves hstep
  by_cases hx : i = x
  · subst hx
    rw [h.row_eq, h.left] at hmoves
    exact .inl ⟨rfl, row', p, hmoves, h.move hxy row' p⟩
  · by_cases hy : i = y
    · subst hy
      rw [h.row_eq, h.right] at hmoves
      exact .inr ⟨rfl, row', p, hmoves, (h.symm.move (Ne.symm hxy) row' p).symm⟩
    · have hover := h.others i hx hy
      rw [hmoves.not_over] at hover
      cases hover

/-- A run on from two clients, by its first step. -/
theorem At.run_cases (h : At x y row px py s) (hxy : x ≠ y)
    (hrun : C.machine.run s as = some t) :
    (as = [] ∧ At x y row px py t) ∨
      (∃ k rest row' p s', as = (x, k) :: rest ∧ Moves C x row px k row' p ∧
        At x y row' p py s' ∧ C.machine.run s' rest = some t) ∨
      (∃ k rest row' p s', as = (y, k) :: rest ∧ Moves C y row py k row' p ∧
        At x y row' px p s' ∧ C.machine.run s' rest = some t) := by
  cases as with
  | nil =>
      cases hrun
      exact .inl ⟨rfl, h⟩
  | cons a rest =>
      obtain ⟨i, k⟩ := a
      obtain ⟨s', h1, h2⟩ := C.machine.run_cons_eq_some.mp hrun
      rcases h.step hxy h1 with ⟨rfl, row', p, hmoves, h'⟩ | ⟨rfl, row', p, hmoves, h'⟩
      · exact .inr (.inl ⟨k, rest, row', p, s', rfl, hmoves, h', h2⟩)
      · exact .inr (.inr ⟨k, rest, row', p, s', rfl, hmoves, h', h2⟩)

/-- A client without an update saves once. -/
theorem last_not_mem (hu : C.update x = none) (hs : ∀ r, s.phase x ≠ .saved r)
    (hrun : C.machine.run s as = some t) : (x, Touch.last) ∉ as := by
  induction as generalizing s with
  | nil => exact List.not_mem_nil
  | cons a as ih =>
      obtain ⟨i, k⟩ := a
      obtain ⟨s', h1, h2⟩ := C.machine.run_cons_eq_some.mp hrun
      obtain ⟨row', p, hmoves, rfl⟩ := step_moves h1
      by_cases hx : i = x
      · subst hx
        have hp : (∀ r, p ≠ .saved r) ∧ k ≠ .last := by
          generalize hq : s.phase i = q at hmoves hs
          cases hmoves with
          | read => simp
          | reject => simp
          | first new r => simp [saved, hu]
          | last r => exact absurd rfl (hs r)
        have hrest := ih (by simpa using hp.1) h2
        simp [hrest, hp.2.symm]
      · have hrest := ih (by simpa [Function.update_of_ne (Ne.symm hx)] using hs) h2
        simp [hrest, Ne.symm hx]

theorem Overtaken.update_ne (ho : C.Overtaken x y as) (hs : s.phase x = .fresh)
    (hrun : C.machine.run s as = some t) : C.update x ≠ none := by
  intro hu
  have hnot := last_not_mem hu (by simp [hs]) hrun
  rcases ho with rfl | rfl
  · simp at hnot
  · simp at hnot

/-! ## A client alone -/

theorem At.over (h : At x y row px py s) (hxy : x ≠ y) (hx : px.isOver = true)
    (hy : py.isOver = true) (hrun : C.machine.run s as = some t) :
    as = [] ∧ At x y row px py t := by
  rcases h.run_cases hxy hrun with hnil | ⟨k, rest, row', p, s', -, hmoves, -⟩ |
    ⟨k, rest, row', p, s', -, hmoves, -⟩
  · exact hnil
  · simp [hmoves.not_over] at hx
  · simp [hmoves.not_over] at hy

theorem At.alone_saved {r : Row ν} (h : At x y row px (.saved r) s) (hxy : x ≠ y)
    (hx : px.isOver = true) (hrun : C.machine.run s as = some t)
    (ht : (t.phase y).isOver = true) :
    as = [(y, .last)] ∧ At x y (some r) px (.done r.version) t := by
  rcases h.run_cases hxy hrun with ⟨-, hnil⟩ | ⟨k, rest, row', p, s', -, hmoves, -⟩ |
    ⟨k, rest, row', p, s', rfl, hmoves, h', hrest⟩
  · simp [hnil.right, Phase.isOver] at ht
  · simp [hmoves.not_over] at hx
  · cases hmoves
    obtain ⟨rfl, h''⟩ := h'.over hxy hx rfl hrest
    exact ⟨rfl, h''⟩

theorem At.alone_read {new : Bool} {r : Row ν} (h : At x y row px (.read new r) s)
    (hnew : (new && row.isSome) = false) (hxy : x ≠ y) (hx : px.isOver = true)
    (hrun : C.machine.run s as = some t) (ht : (t.phase y).isOver = true) :
    as = (C.touches y).tail ∧
      At x y (some ⟨r.version, C.apply y r.value⟩) px (.done r.version) t := by
  rcases h.run_cases hxy hrun with ⟨-, hnil⟩ | ⟨k, rest, row', p, s', -, hmoves, -⟩ |
    ⟨k, rest, row', p, s', rfl, hmoves, h', hrest⟩
  · simp [hnil.right, Phase.isOver] at ht
  · simp [hmoves.not_over] at hx
  · cases hmoves with
    | reject _ _ hreject => simp [hnew] at hreject
    | first =>
        cases hu : C.update y with
        | none =>
            simp only [saved, hu] at h'
            obtain ⟨rfl, h''⟩ := h'.over hxy hx rfl hrest
            exact ⟨by simp [touches, hu], by simpa [apply, hu] using h''⟩
        | some f =>
            simp only [saved, hu] at h'
            obtain ⟨rfl, h''⟩ := h'.alone_saved hxy hx hrest ht
            exact ⟨by simp [touches, hu], by simpa [apply, hu] using h''⟩

theorem At.alone_fresh (h : At x y row px .fresh s) (hxy : x ≠ y) (hx : px.isOver = true)
    (hrun : C.machine.run s as = some t) (ht : (t.phase y).isOver = true) :
    as = C.touches y ∧ At x y (some ⟨(C.base row).version + 1, C.apply y (C.base row).value⟩) px
      (.done ((C.base row).version + 1)) t := by
  rcases h.run_cases hxy hrun with ⟨-, hnil⟩ | ⟨k, rest, row', p, s', -, hmoves, -⟩ |
    ⟨k, rest, row', p, s', rfl, hmoves, h', hrest⟩
  · simp [hnil.right, Phase.isOver] at ht
  · simp [hmoves.not_over] at hx
  · cases hmoves
    obtain ⟨rfl, h''⟩ := h'.alone_read (by cases row <;> rfl) hxy hx hrest ht
    refine ⟨?_, h''⟩
    cases hu : C.update y <;> simp [touches, hu]

/-! ## Both have read the same row -/

/-- The client has read, and saves no version above `n`. -/
def AtMost (n : Nat) : Phase ν → Prop
  | .fresh => False
  | .read _ r | .saved r => r.version ≤ n
  | .done _ | .failed => True

/-- Nobody will save a version above `n`. -/
structure Stale (n : Nat) (s : Table ι ν) : Prop where
  row_le : ∀ r ∈ s.row, r.version ≤ n
  copy_le : ∀ i, AtMost n (s.phase i)

theorem Stale.step {n : Nat} {a : ι × Touch} (h : Stale n s) (hstep : C.step s a = some s') :
    Stale n s' := by
  obtain ⟨i, k⟩ := a
  obtain ⟨row', p, hmoves, rfl⟩ := step_moves hstep
  have hcopy := h.copy_le i
  have hkeep : ∀ q, AtMost n q → ∀ j, AtMost n (Function.update s.phase i q j) := by
    intro q hq j
    by_cases hj : j = i
    · simpa [hj] using hq
    · simpa [Function.update_of_ne hj] using h.copy_le j
  generalize hp : s.phase i = p0 at hmoves hcopy
  cases hmoves with
  | read => exact absurd hcopy id
  | reject => exact ⟨h.row_le, hkeep _ trivial⟩
  | first new r =>
      refine ⟨by simpa [AtMost] using hcopy, hkeep _ ?_⟩
      cases hu : C.update i with
      | none => simp [saved, hu, AtMost]
      | some f => simpa [saved, hu, AtMost] using hcopy
  | last r => exact ⟨by simpa [AtMost] using hcopy, hkeep _ trivial⟩

theorem Stale.run {n : Nat} (h : Stale n s) (hrun : C.machine.run s as = some t) : Stale n t :=
  C.machine.run_invariant (fun _ _ _ h1 h2 => h1.step h2) h hrun

theorem At.stale {n : Nat} (h : At x y row px py s) (hrow : ∀ r ∈ row, r.version ≤ n)
    (hx : AtMost n px) (hy : AtMost n py) : Stale n s := by
  refine ⟨h.row_eq ▸ hrow, ?_⟩
  intro i
  by_cases hix : i = x
  · rw [hix, h.left]
    exact hx
  · by_cases hiy : i = y
    · rw [hiy, h.right]
      exact hy
    · have hover := h.others i hix hiy
      cases hp : s.phase i <;> simp [hp, Phase.isOver] at hover <;> trivial

end

/-! ## The histories -/

/-- How it ends for two clients: whether the row is kept is decided by
the history, and if it is they have taken different versions. -/
structure Decided (C : Clients ι ν) (x y : ι) (b : Row ν) (t : Table ι ν) (shape : Prop) :
    Prop where
  kept_iff : C.Kept x y b t.row ↔ shape
  versions : C.Kept x y b t.row → t.phase x = .done (b.version + 1) ∧
    t.phase y = .done (b.version + 2)

section

variable {v : Nat} {w : ν} {shape shape' : Prop}

theorem Decided.congr (h : Decided C x y ⟨v, w⟩ t shape) (hiff : shape' ↔ shape) :
    Decided C x y ⟨v, w⟩ t shape' :=
  ⟨h.kept_iff.trans hiff.symm, h.versions⟩

theorem Decided.of_le (hle : ∀ r ∈ t.row, r.version ≤ v + 1) :
    Decided C x y ⟨v, w⟩ t False := by
  have hkept : ¬ C.Kept x y ⟨v, w⟩ t.row := by
    rintro ⟨r, hr, hversion, -⟩
    have := hle r hr
    simp at hversion
    omega
  exact ⟨iff_of_false hkept id, fun hk => absurd hk hkept⟩

/-- `x` puts its lower version back. -/
theorem At.putBack {z : ν} {p q : Phase ν} (h : At x y (some ⟨v + 1, z⟩) p q t) :
    Decided C x y ⟨v, w⟩ t False :=
  .of_le (by simp [h.row_eq])

/-- `y` has its copy from between the saves of `x` and saves it last. -/
theorem At.overtaken (h : At x y (some ⟨v + 2, C.apply y w⟩) (.done (v + 1)) (.done (v + 2)) t) :
    Decided C x y ⟨v, w⟩ t (C.Suffices x y w) := by
  refine ⟨?_, ?_⟩
  · simp [Kept, h.row_eq, Suffices]
  · exact fun _ => ⟨h.left, h.right⟩

end

section

variable [DecidableEq ι] {v : Nat} {w : ν}

/-- `y` is served behind `x`. -/
theorem At.serial (h : At x y (some ⟨v + 1, C.apply x w⟩) (.done (v + 1)) .fresh s)
    (hxy : x ≠ y) (hrun : C.machine.run s as = some t) (ht : (t.phase y).isOver = true) :
    as = C.touches y ∧ Decided C x y ⟨v, w⟩ t True := by
  obtain ⟨has, h'⟩ := h.alone_fresh hxy rfl hrun ht
  refine ⟨has, ⟨iff_of_true ⟨_, h'.row_eq, rfl, .inl rfl⟩ trivial, ?_⟩⟩
  exact fun _ => ⟨h'.left, h'.right⟩

/-- Both are between their saves. -/
theorem At.both_saved {z : ν} (hy : C.apply y w = z)
    (h : At x y (some ⟨v + 2, w⟩) (.saved ⟨v + 1, C.apply x w⟩) (.saved ⟨v + 2, z⟩) s)
    (hxy : x ≠ y) (hrun : C.machine.run s as = some t) (htx : (t.phase x).isOver = true)
    (hty : (t.phase y).isOver = true) :
    Decided C x y ⟨v, w⟩ t (as = [(x, .last), (y, .last)] ∧ C.Suffices x y w) := by
  subst hy
  rcases h.run_cases hxy hrun with ⟨-, hnil⟩ | ⟨k, rest, row', p, s', rfl, hmoves, h', hrest⟩ |
    ⟨k, rest, row', p, s', rfl, hmoves, h', hrest⟩
  · simp [hnil.left, Phase.isOver] at htx
  · cases hmoves
    obtain ⟨rfl, h''⟩ := h'.alone_saved hxy rfl hrest hty
    exact h''.overtaken.congr (by simp)
  · cases hmoves
    obtain ⟨rfl, h''⟩ := h'.symm.alone_saved hxy.symm rfl hrest htx
    exact h''.symm.putBack.congr (by simp [hxy.symm])

/-- `y` has read between the saves of `x`. -/
theorem At.between
    (h : At x y (some ⟨v + 1, w⟩) (.saved ⟨v + 1, C.apply x w⟩) (.read false ⟨v + 2, w⟩) s)
    (hxy : x ≠ y) (hrun : C.machine.run s as = some t) (htx : (t.phase x).isOver = true)
    (hty : (t.phase y).isOver = true) :
    Decided C x y ⟨v, w⟩ t ((as = (x, .last) :: (C.touches y).tail ∨
      as = [(y, .first), (x, .last), (y, .last)]) ∧ C.Suffices x y w) := by
  rcases h.run_cases hxy hrun with ⟨-, hnil⟩ | ⟨k, rest, row', p, s', rfl, hmoves, h', hrest⟩ |
    ⟨k, rest, row', p, s', rfl, hmoves, h', hrest⟩
  · simp [hnil.left, Phase.isOver] at htx
  · cases hmoves
    obtain ⟨rfl, h''⟩ := h'.alone_read rfl hxy rfl hrest hty
    exact h''.overtaken.congr (by simp)
  · cases hmoves with
    | reject _ _ hreject => simp at hreject
    | first =>
        cases hu : C.update y with
        | none =>
            -- it ends before `x` does
            simp only [saved, hu] at h'
            obtain ⟨rfl, h''⟩ := h'.symm.alone_saved hxy.symm rfl hrest htx
            exact h''.symm.putBack.congr (by simp [hxy.symm])
        | some f =>
            simp only [saved, hu] at h'
            exact (h'.both_saved (by simp [apply, hu]) hxy hrest htx hty).congr (by simp [hxy.symm])

/-- `x` is between its saves, `y` has not read. -/
theorem At.one_saved
    (h : At x y (some ⟨v + 1, w⟩) (.saved ⟨v + 1, C.apply x w⟩) .fresh s)
    (hxy : x ≠ y) (hrun : C.machine.run s as = some t) (htx : (t.phase x).isOver = true)
    (hty : (t.phase y).isOver = true) :
    Decided C x y ⟨v, w⟩ t (as = (x, .last) :: C.touches y ∨
      (as = [(y, .read), (x, .last)] ++ (C.touches y).tail ∨
        as = [(y, .read), (y, .first), (x, .last), (y, .last)]) ∧ C.Suffices x y w) := by
  rcases h.run_cases hxy hrun with ⟨-, hnil⟩ | ⟨k, rest, row', p, s', rfl, hmoves, h', hrest⟩ |
    ⟨k, rest, row', p, s', rfl, hmoves, h', hrest⟩
  · simp [hnil.left, Phase.isOver] at htx
  · cases hmoves
    obtain ⟨rfl, hdecided⟩ := h'.serial hxy hrest hty
    exact hdecided.congr (by simp)
  · cases hmoves
    exact (h'.between hxy hrest htx hty).congr (by simp [hxy.symm])

/-- `x` has read, `y` has not. -/
theorem At.one_read (h : At x y row (.read row.isNone ⟨v + 1, w⟩) .fresh s)
    (hbase : C.base row = ⟨v, w⟩) (hxy : x ≠ y) (hrun : C.machine.run s as = some t)
    (htx : (t.phase x).isOver = true) (hty : (t.phase y).isOver = true) :
    Decided C x y ⟨v, w⟩ t (as = (C.touches x).tail ++ C.touches y ∨
      (as = [(x, .first), (y, .read), (x, .last)] ++ (C.touches y).tail ∨
        as = [(x, .first), (y, .read), (y, .first), (x, .last), (y, .last)]) ∧
          C.Suffices x y w) := by
  rcases h.run_cases hxy hrun with ⟨-, hnil⟩ | ⟨k, rest, row', p, s', rfl, hmoves, h', hrest⟩ |
    ⟨k, rest, row', p, s', rfl, hmoves, h', hrest⟩
  · simp [hnil.left, Phase.isOver] at htx
  · cases hmoves with
    | reject _ _ hreject => cases row <;> simp at hreject
    | first =>
        cases hu : C.update x with
        | none =>
            simp only [saved, hu] at h'
            have hw : C.apply x w = w := by simp [apply, hu]
            have hdone : At x y (some ⟨v + 1, C.apply x w⟩) (.done (v + 1)) .fresh s' := by
              simpa [hw] using h'
            obtain ⟨rfl, hdecided⟩ := hdone.serial hxy hrest hty
            exact hdecided.congr (by simp [touches, hu])
        | some f =>
            simp only [saved, hu] at h'
            have hw : C.apply x w = f w := by simp [apply, hu]
            rw [← hw] at h'
            exact (h'.one_saved hxy hrest htx hty).congr (by simp [touches, hu])
  · -- both copies are of the same row
    cases hmoves
    have hcopy : C.copy row = ⟨v + 1, w⟩ := by simp [copy, hbase]
    have hle : ∀ r ∈ row, r.version ≤ v + 1 := by
      rintro r rfl
      simp only [base, Option.getD_some] at hbase
      simp [hbase]
    have hstale := (h'.stale hle (Nat.le_refl _) (by simp [hcopy, AtMost])).run hrest
    refine (Decided.of_le hstale.row_le).congr ?_
    cases hu : C.update x <;> simp [touches, hu, hxy.symm]

/-- `x` is the first to read. -/
theorem At.decided {k : Touch} (h : At x y row .fresh .fresh s) (hxy : x ≠ y)
    (hrun : C.machine.run s ((x, k) :: as) = some t) (htx : (t.phase x).isOver = true)
    (hty : (t.phase y).isOver = true) :
    Decided C x y (C.base row) t (C.Serial x y ((x, k) :: as) ∨
      C.Overtaken x y ((x, k) :: as) ∧ C.Suffices x y (C.base row).value) := by
  obtain ⟨s', h1, h2⟩ := C.machine.run_cons_eq_some.mp hrun
  rcases h.step hxy h1 with ⟨-, row', p, hmoves, h'⟩ | ⟨rfl, -⟩
  · cases hmoves
    refine (h'.one_read rfl hxy h2 htx hty).congr ?_
    cases hu : C.update x <;> simp [Serial, Overtaken, touches, hu]
  · exact absurd rfl hxy

end

theorem Serial.head {h : List (ι × Touch)} (hs : C.Serial x y h) : h.head? = some (x, .read) := by
  rw [hs]
  cases hu : C.update x <;> simp [touches, hu]

theorem Overtaken.head {h : List (ι × Touch)} (ho : C.Overtaken x y h) :
    h.head? = some (x, .read) := by
  rcases ho with rfl | rfl <;> rfl

theorem kept_symm {b : Row ν} {r : Option (Row ν)} : C.Kept x y b r ↔ C.Kept y x b r := by
  simp only [Kept, or_comm]

theorem KeptBy.head {v : ν} {h : List (ι × Touch)} (hk : C.KeptBy x y v h) :
    h.head? = some (x, .read) := by
  rcases hk with hs | ⟨ho, -⟩
  · exact hs.head
  · exact ho.head

section

variable [DecidableEq ι]

theorem At.decided_either (h : At x y row .fresh .fresh s) (hxy : x ≠ y)
    (hrun : C.machine.run s as = some t) (htx : (t.phase x).isOver = true)
    (hty : (t.phase y).isOver = true) :
    (C.Kept x y (C.base row) t.row ↔
      C.KeptBy x y (C.base row).value as ∨ C.KeptBy y x (C.base row).value as) ∧
    (C.Kept x y (C.base row) t.row →
      ∃ v v', v ≠ v' ∧ t.phase x = .done v ∧ t.phase y = .done v') := by
  rcases h.run_cases hxy hrun with ⟨-, hnil⟩ | ⟨k, rest, row', p, s', rfl, -⟩ |
    ⟨k, rest, row', p, s', rfl, -⟩
  · simp [hnil.left, Phase.isOver] at htx
  · have hd := h.decided hxy hrun htx hty
    have hnot : ¬ C.KeptBy y x (C.base row).value ((x, k) :: rest) := by
      intro hk
      simpa [hxy] using hk.head
    refine ⟨hd.kept_iff.trans ⟨.inl, fun hk => hk.resolve_right hnot⟩, ?_⟩
    intro hk
    exact ⟨_, _, by simp, hd.versions hk⟩
  · have hd := h.symm.decided hxy.symm hrun hty htx
    have hnot : ¬ C.KeptBy x y (C.base row).value ((y, k) :: rest) := by
      intro hk
      simpa [hxy.symm] using hk.head
    rw [kept_symm]
    refine ⟨hd.kept_iff.trans ⟨.inr, fun hk => hk.resolve_left hnot⟩, ?_⟩
    intro hk
    obtain ⟨hy, hx⟩ := hd.versions hk
    exact ⟨_, _, by simp, hx, hy⟩

/-- **Exact histories**: the results of both clients are kept if and only
if the history is one of `KeptBy`. -/
theorem kept_iff (h : At x y row .fresh .fresh s) (hxy : x ≠ y)
    (hrun : C.machine.run s as = some t) (htx : (t.phase x).isOver = true)
    (hty : (t.phase y).isOver = true) :
    C.Kept x y (C.base row) t.row ↔
      C.KeptBy x y (C.base row).value as ∨ C.KeptBy y x (C.base row).value as :=
  (h.decided_either hxy hrun htx hty).1

theorem versions_of_kept (h : At x y row .fresh .fresh s) (hxy : x ≠ y)
    (hrun : C.machine.run s as = some t) (htx : (t.phase x).isOver = true)
    (hty : (t.phase y).isOver = true) (hk : C.Kept x y (C.base row) t.row) :
    ∃ v v', v ≠ v' ∧ t.phase x = .done v ∧ t.phase y = .done v' :=
  (h.decided_either hxy hrun htx hty).2 hk

end

end Clients

end VersionedRow

end Lib
