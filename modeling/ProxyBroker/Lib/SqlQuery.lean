/-
ProxyBroker.Lib.SqlQuery — conditions of a database query with named
parameters.

A query collects conditions, which are combined by AND, and the values of
the parameters the conditions name. There is one map of parameters for
the whole query: a value given later under a name replaces the earlier
one, also in the conditions that are there already.

A condition is true, false or unknown (`none`); a row is selected if all
conditions are true of it (`accepts_iff`). `accepts_same_param` is what
the one map means for two conditions that share a name.
-/
import Mathlib.Logic.Function.Basic

namespace Lib

/-- A query for rows of type `ρ`, with parameter values of type `ν`. -/
structure Query (ρ ν : Type) where
  conditions : List (ρ → (String → Option ν) → Option Bool) := []
  params : String → Option ν := fun _ => none

namespace Query

variable {ρ ν : Type}

/-- The comparison of a column with a parameter; it is unknown if the
column is null. -/
def compare (op : ν → ν → Bool) (column : ρ → Option ν) (name : String) :
    ρ → (String → Option ν) → Option Bool := fun row params =>
  match column row, params name with
  | some v, some p => some (op v p)
  | _, _ => none

def setParameter (q : Query ρ ν) (name : String) (value : ν) : Query ρ ν :=
  { q with params := Function.update q.params name (some value) }

/-- `q.andWhere(condition)`, without parameters. -/
def andWhere (q : Query ρ ν) (condition : ρ → (String → Option ν) → Option Bool) : Query ρ ν :=
  { q with conditions := q.conditions ++ [condition] }

/-- `q.andWhere('column op :name', {name: value})`. -/
def andCompare (q : Query ρ ν) (op : ν → ν → Bool) (column : ρ → Option ν) (name : String)
    (value : ν) : Query ρ ν :=
  (q.andWhere (compare op column name)).setParameter name value

/-- The row is selected. -/
def accepts (q : Query ρ ν) (row : ρ) : Bool :=
  q.conditions.all (fun c => c row q.params == some true)

theorem accepts_iff {q : Query ρ ν} {row : ρ} :
    q.accepts row = true ↔ ∀ c ∈ q.conditions, c row q.params = some true := by
  simp [accepts]

theorem compare_eq_true_iff {op : ν → ν → Bool} {column : ρ → Option ν} {name : String} {row : ρ}
    {params : String → Option ν} :
    compare op column name row params = some true ↔
      ∃ v p, column row = some v ∧ params name = some p ∧ op v p = true := by
  unfold compare
  cases column row <;> cases params name <;> simp

@[simp] theorem setParameter_conditions (q : Query ρ ν) (name : String) (value : ν) :
    (q.setParameter name value).conditions = q.conditions := rfl

@[simp] theorem setParameter_params (q : Query ρ ν) (name : String) (value : ν) :
    (q.setParameter name value).params = Function.update q.params name (some value) := rfl

@[simp] theorem andWhere_conditions (q : Query ρ ν)
    (condition : ρ → (String → Option ν) → Option Bool) :
    (q.andWhere condition).conditions = q.conditions ++ [condition] := rfl

@[simp] theorem andWhere_params (q : Query ρ ν)
    (condition : ρ → (String → Option ν) → Option Bool) :
    (q.andWhere condition).params = q.params := rfl

@[simp] theorem andCompare_conditions (q : Query ρ ν) (op : ν → ν → Bool) (column : ρ → Option ν)
    (name : String) (value : ν) :
    (q.andCompare op column name value).conditions = q.conditions ++ [compare op column name] := rfl

@[simp] theorem andCompare_params (q : Query ρ ν) (op : ν → ν → Bool) (column : ρ → Option ν)
    (name : String) (value : ν) :
    (q.andCompare op column name value).params = Function.update q.params name (some value) := rfl

/-- **One name, one value**: two conditions that name the same parameter
compare their columns with the same value. -/
theorem accepts_same_param {q : Query ρ ν} {row : ρ} (h : q.accepts row = true)
    {op op' : ν → ν → Bool} {column column' : ρ → Option ν} {name : String}
    (hc : compare op column name ∈ q.conditions) (hc' : compare op' column' name ∈ q.conditions) :
    ∃ v v' p, column row = some v ∧ column' row = some v' ∧ op v p = true ∧ op' v' p = true := by
  obtain ⟨v, p, hv, hp, hop⟩ := compare_eq_true_iff.mp (accepts_iff.mp h _ hc)
  obtain ⟨v', p', hv', hp', hop'⟩ := compare_eq_true_iff.mp (accepts_iff.mp h _ hc')
  rw [hp] at hp'
  cases hp'
  exact ⟨v, v', p, hv, hv', hop, hop'⟩

end Query

end Lib
