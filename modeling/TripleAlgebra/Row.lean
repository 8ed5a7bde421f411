import TripleAlgebra.Term

/-! Rows of terms in which a column may be unbound. -/
namespace TripleAlgebra

abbrev Row := List (Option Term)

namespace Row

/-- How many bytes refer to a row: an address and a length. -/
def bytes : Nat := 16

def empty : Row := []

def unbound (width : Nat) : Row := List.replicate width none

/-- The value of a column. Columns past the end are unbound. -/
def value (r : Row) (i : Nat) : Option Term := r[i]?.join

def project (r : Row) (columns : List (Option Nat)) : Row :=
  columns.map fun c => c.bind r.value

/-- Appends the chosen columns of another row. -/
def extend (r other : Row) (columns : List Nat) : Row := r ++ columns.map other.value

def extendUnbound (r : Row) (count : Nat) : Row := r ++ unbound count

/-- Replaces a column, or appends the value if the row has no such column. -/
def withValue (r : Row) (i : Nat) (t : Option Term) : Row :=
  if i < r.length then r.set i t else r ++ [t]

def render (r : Row) : String :=
  "(" ++ " ".intercalate (r.map fun c => c.elim "UNDEF" Term.render) ++ ")"

@[simp] theorem value_nil (i : Nat) : value [] i = none := rfl

@[simp] theorem value_unbound (n i : Nat) : (unbound n).value i = none := by
  simp only [value, unbound, List.getElem?_replicate]
  split <;> rfl

@[simp] theorem length_project (r : Row) (columns : List (Option Nat)) :
    (r.project columns).length = columns.length := by simp [project]

@[simp] theorem length_extend (r other : Row) (columns : List Nat) :
    (r.extend other columns).length = r.length + columns.length := by simp [extend]

@[simp] theorem length_extendUnbound (r : Row) (n : Nat) :
    (r.extendUnbound n).length = r.length + n := by simp [extendUnbound, unbound]

end Row
end TripleAlgebra
