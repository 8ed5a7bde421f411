import TripleAlgebra.Proofs.Bag
import TripleAlgebra.Proofs.Columns

/-! Tests whether rows of two headers agree, as the plans that compare such rows do it. -/
namespace TripleAlgebra.Row
open Assignment

variable {header header' : List Variable} {row row' : Row} {others : List Row}

/-- Whether two rows have the same term for each variable that both bind. -/
def agrees (header header' : List Variable) (row row' : Row) : Bool :=
  header.all fun v => (row.assignment header v).all fun t =>
    (row'.assignment header' v).all fun u => t = u

/-- Whether some variable is bound in both rows. -/
def overlaps (header header' : List Variable) (row row' : Row) : Bool :=
  header.any fun v => (row.assignment header v).isSome && (row'.assignment header' v).isSome

theorem agrees_iff : agrees header header' row row' = true ↔
    Compatible (row.assignment header) (row'.assignment header') := by
  simp only [agrees, List.all_eq_true, Option.all_eq_true, decide_eq_true_eq]
  constructor
  · exact fun h v t u ht hu => h v ((within_assignment header row).mem ht) t ht u hu
  · exact fun h v _ t ht u hu => h v t u ht hu

theorem overlaps_iff : overlaps header header' row row' = true ↔
    ∃ v, (row.assignment header v).isSome ∧ (row'.assignment header' v).isSome := by
  simp only [overlaps, List.any_eq_true, Bool.and_eq_true]
  constructor
  · rintro ⟨v, -, h⟩
    exact ⟨v, h⟩
  · rintro ⟨v, h, h'⟩
    exact ⟨v, (within_assignment header row).mem (Option.get_mem h), h, h'⟩

/-- Whether the row agrees with one of the others. -/
def meets (header header' : List Variable) (others : List Row) (row : Row) : Bool :=
  others.any (agrees header header' row)

/-- Whether the row agrees with one of the others and has a bound variable in common with it, which
is not asked for if the overlap is known. -/
def isRemoved (overlapKnown : Bool) (header header' : List Variable) (others : List Row)
    (row : Row) : Bool :=
  others.any fun row' =>
    agrees header header' row row' && (overlapKnown || overlaps header header' row row')

theorem meets_iff : meets header header' others row = true ↔
    Bag.Meets (others.map (Row.assignment header') : List Assignment)
      (row.assignment header) := by
  simp [meets, Bag.Meets, agrees_iff]

theorem isRemoved_iff {overlapKnown : Bool} :
    isRemoved overlapKnown header header' others row = true ↔
      Bag.Removes overlapKnown (others.map (Row.assignment header') : List Assignment)
        (row.assignment header) := by
  simp [isRemoved, Bag.Removes, agrees_iff, overlaps_iff]

end TripleAlgebra.Row
