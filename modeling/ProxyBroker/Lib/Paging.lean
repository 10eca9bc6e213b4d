/-
ProxyBroker.Lib.Paging — reading a list page by page.

A cursor says where the last page began and how many rows it had. The
next page begins behind it; an empty page sends the cursor back to the
start. `pages` are the pages of so many reads. A limit of 0 is no limit.

`pages_cover` is what they amount to, for every list and every positive
limit: up to the first empty page they are the rows in their order, each
once, and behind an empty page the first one comes again
(`page_after_empty`).
-/
import Mathlib.Data.List.Basic

namespace Lib

structure Cursor where
  offset : Nat := 0
  size : Nat := 0
  deriving DecidableEq, Repr

variable {α : Type}

/-- The rows of a page. -/
def page (limit : Nat) (rows : List α) (offset : Nat) : List α :=
  if limit = 0 then rows.drop offset else (rows.drop offset).take limit

theorem page_of_pos {limit : Nat} (h : 0 < limit) (rows : List α) (offset : Nat) :
    page limit rows offset = (rows.drop offset).take limit := if_neg (Nat.ne_of_gt h)

@[simp] theorem page_nil (limit offset : Nat) : page limit ([] : List α) offset = [] := by
  simp [page]

theorem page_sublist (limit : Nat) (rows : List α) (offset : Nat) :
    (page limit rows offset).Sublist rows := by
  unfold page
  split
  · exact List.drop_sublist _ _
  · exact (List.take_sublist _ _).trans (List.drop_sublist _ _)

theorem page_eq_nil_iff {limit : Nat} {rows : List α} (offset : Nat) :
    page limit rows offset = [] ↔ rows.length ≤ offset := by
  unfold page
  split
  · exact List.drop_eq_nil_iff
  · rw [List.take_eq_nil_iff, List.drop_eq_nil_iff]
    omega

namespace Cursor

/-- Where the next page begins. -/
def position (c : Cursor) : Nat := c.offset + c.size

/-- The cursor behind a page that began at `offset`. -/
def record (offset : Nat) (res : List α) : Cursor :=
  if 0 < res.length then { offset := offset, size := res.length } else {}

variable (limit : Nat) (rows : List α)

/-- One read: the page and the cursor behind it. -/
def read (c : Cursor) : List α × Cursor :=
  (page limit rows c.position, record c.position (page limit rows c.position))

/-- The pages of `n` reads. -/
def pages : Nat → Cursor → List (List α)
  | 0, _ => []
  | n + 1, c => (c.read limit rows).1 :: pages n (c.read limit rows).2

variable {limit rows}

@[simp] theorem length_pages (n : Nat) (c : Cursor) : (c.pages limit rows n).length = n := by
  induction n generalizing c with
  | zero => rfl
  | succ n ih => rw [pages, List.length_cons, ih]

/-- Behind a page with rows the next one goes on where it ended. -/
theorem position_read {c : Cursor} (h : page limit rows c.position ≠ []) :
    (c.read limit rows).2.position = c.position + (page limit rows c.position).length := by
  unfold read record
  rw [if_pos (List.length_pos_iff.mpr h)]
  rfl

/-- Behind an empty page the next one is the first. -/
theorem read_of_empty {c : Cursor} (h : page limit rows c.position = []) :
    c.read limit rows = ([], {}) := by
  simp [read, record, h]

/-- What is left behind a page with rows. -/
theorem drop_position_read (hlimit : 0 < limit) {c : Cursor}
    (h : page limit rows c.position ≠ []) :
    rows.drop (c.read limit rows).2.position = (rows.drop c.position).drop limit := by
  rw [position_read h, ← List.drop_drop, page_of_pos hlimit, List.length_take]
  rcases Nat.le_total limit (rows.drop c.position).length with hle | hle
  · rw [Nat.min_eq_left hle]
  · rw [Nat.min_eq_right hle, List.drop_length, List.drop_of_length_le hle]

/-- **Up to the first empty page** the pages are the rows from the cursor
on: as many as the pages can hold, and all of them if there is an empty
page. -/
theorem pages_cover (hlimit : 0 < limit) (n : Nat) (c : Cursor) :
    ((c.pages limit rows n).takeWhile (fun p => !p.isEmpty)).flatten =
        (rows.drop c.position).take (n * limit) ∧
      ([] ∈ c.pages limit rows n →
        ((c.pages limit rows n).takeWhile (fun p => !p.isEmpty)).flatten =
          rows.drop c.position) := by
  induction n generalizing c with
  | zero => simp [pages]
  | succ n ih =>
      by_cases hpage : page limit rows c.position = []
      · have hend := (page_eq_nil_iff c.position).mp hpage
        simp [pages, read, hpage, List.drop_of_length_le hend]
      · obtain ⟨hpre, hall⟩ := ih (c.read limit rows).2
        rw [drop_position_read hlimit hpage] at hpre hall
        have hhead : ((c.pages limit rows (n + 1)).takeWhile (fun p => !p.isEmpty)).flatten =
            (rows.drop c.position).take limit ++
              (((c.read limit rows).2.pages limit rows n).takeWhile
                (fun p => !p.isEmpty)).flatten := by
          have hne : (page limit rows c.position).isEmpty = false := by simpa using hpage
          simp only [pages, read, List.takeWhile_cons, hne, Bool.not_false, if_true,
            List.flatten_cons]
          exact congrArg (· ++ _) (page_of_pos hlimit rows c.position)
        rw [hhead]
        refine ⟨?_, ?_⟩
        · rw [hpre, ← List.take_add, Nat.add_comm, ← Nat.succ_mul]
        · intro hempty
          have hin : [] ∈ (c.read limit rows).2.pages limit rows n := by
            rcases List.mem_cons.mp hempty with heq | hin
            · exact absurd heq.symm hpage
            · exact hin
          rw [hall hin, List.take_append_drop]

/-- **Behind an empty page** the first one comes again. -/
theorem page_after_empty (n : Nat) (c : Cursor) {i : Nat}
    (hempty : (c.pages limit rows n)[i]? = some []) (hnext : i + 1 < n) :
    (c.pages limit rows n)[i + 1]? = some (page limit rows 0) := by
  induction n generalizing c i with
  | zero => omega
  | succ n ih =>
      cases i with
      | succ i => exact ih _ hempty (by omega)
      | zero =>
          obtain ⟨m, rfl⟩ := Nat.exists_eq_succ_of_ne_zero (show n ≠ 0 by omega)
          have hpage : page limit rows c.position = [] := by
            simpa [pages, read] using hempty
          have hread := read_of_empty hpage
          have hpages : c.pages limit rows (m + 1 + 1) =
              [] :: (({} : Cursor).read limit rows).1 ::
                (({} : Cursor).read limit rows).2.pages limit rows m := by
            rw [pages, hread, pages]
          rw [hpages]
          rfl

/-- The end of the list comes as an empty page, one page behind the
rows. -/
theorem exists_empty (hlimit : 0 < limit) {n : Nat} {c : Cursor}
    (hn : (rows.drop c.position).length + limit ≤ n * limit) : [] ∈ c.pages limit rows n := by
  induction n generalizing c with
  | zero => omega
  | succ n ih =>
      by_cases hpage : page limit rows c.position = []
      · exact List.mem_cons.mpr (.inl hpage.symm)
      · refine List.mem_cons_of_mem _ (ih ?_)
        rw [drop_position_read hlimit hpage, List.length_drop]
        rw [Nat.succ_mul] at hn
        have hsome : 0 < (rows.drop c.position).length := by
          have := (page_eq_nil_iff c.position).not.mp hpage
          rw [List.length_drop]
          omega
        have hone : limit ≤ n * limit := by
          refine Nat.le_mul_of_pos_left limit ?_
          cases n with
          | zero => omega
          | succ n => exact Nat.succ_pos n
        omega

end Cursor

end Lib
