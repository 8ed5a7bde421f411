import TripleAlgebra.Plan.Bind

/-! A reusable set of values for the variables of a plan. -/
namespace TripleAlgebra

structure Binding where
  header : List Variable
  values : List (Option Term)

namespace Binding

def ofHeader (vs : List Variable) : Binding := ⟨vs, List.replicate vs.length none⟩

/-- Sets one value. A position past the end is ignored. -/
def set (b : Binding) (i : Nat) (t : Option Term) : Binding := { b with values := b.values.set i t }

/-- Takes the values from the given columns of a row. Values without a column stay. -/
def load (b : Binding) (r : Row) (columns : List Nat) : Binding :=
  { b with values := (columns.take b.values.length).map r.value ++ b.values.drop columns.length }

def clear (b : Binding) : Binding := { b with values := b.values.map fun _ => none }

def apply (b : Binding) (p : Plan) : Plan := p.bind b.header b.values

/-- Loading a column for each value leaves nothing of what was there before. -/
theorem load_values {b : Binding} {columns : List Nat} (h : b.values.length = columns.length)
    (r : Row) : (b.load r columns).values = columns.map r.value := by
  simp [load, ← h, List.take_of_length_le (Nat.le_of_eq h.symm)]

end Binding
end TripleAlgebra
