import Mathlib.Data.List.Permutation
import TripleAlgebra.Proofs.JoinSolutions

/-! Reordering a join: each operand is evaluated once, and a projection restores the columns that
the join declares. -/
namespace TripleAlgebra.Plan
open Reordering

/-- Rows under `produced` become rows under `declared` by a projection, which is there only if the
columns are not in place. -/
structure Restores (produced declared : List Variable) (projection : Option (List Nat)) : Prop where
  eq_none_iff : projection = none ↔ produced = declared
  columns : ∀ columns, projection = some columns →
    Variable.columns produced declared = columns.map some
  length_finish : ∀ (limit : Nat) (chain : JoinPlan limit) (row : Row),
    chain.projection = projection → row.length = produced.length →
      (chain.finish row).length = declared.length
  assignment_finish : ∀ (limit : Nat) (chain : JoinPlan limit) (row : Row),
    chain.projection = projection →
      (chain.finish row).assignment declared = row.assignment produced

variable {ps : List Plan}

theorem ArrangementOf.restores {operands : List Plan} {projection : Option (List Nat)}
    (h : ArrangementOf ps operands projection)
    (hnone : projection = none ↔ Variable.union (operands.map vars) = (join ps).vars) :
    Restores (Variable.union (operands.map vars)) (join ps).vars projection where
  eq_none_iff := hnone
  columns columns hcolumns := by
    have hplace := h.columns
    rwa [hcolumns] at hplace
  length_finish limit chain row hchain hrow := length_finish operands (hchain ▸ h) hrow
  assignment_finish limit chain row hchain := assignment_finish operands (hchain ▸ h) row

theorem restores_reorder {weight : Plan → Nat} {r : Reordering}
    (h : reorder? weight (join ps) = some r) :
    Restores (Variable.union ((r.permutation.filterMap fun i => ps[i]?).map vars)) (join ps).vars
      r.projection := by
  obtain ⟨hpermutation, columns, -, hprojection⟩ := reorder?_eq_some h
  refine (arrangementOf_reorder h).restores ?_
  rw [hpermutation, filterMap_order, hprojection, ite_eq_left_iff]
  simp [produced]

/-- A join is reordered exactly if it has several operands and they do not stand in the order of
their evaluation. That order lists each operand once, and the projection leads from the columns
that it produces to the declared ones. -/
theorem reorder_restores_columns (weight : Plan → Nat) (p : Plan) :
    (p.reorder? weight = none ↔
      ∀ ps, p = join ps → ps.length < 2 ∨ order weight ps = List.range ps.length) ∧
    ∀ r, p.reorder? weight = some r →
      ∃ ps, p = join ps ∧ r.permutation = order weight ps ∧
        r.permutation.Perm (List.range ps.length) ∧
        Restores (Variable.union ((r.permutation.filterMap fun i => ps[i]?).map vars)) p.vars
          r.projection := by
  by_cases hjoin : ∃ ps, p = join ps
  · obtain ⟨ps, rfl⟩ := hjoin
    refine ⟨by simpa using reorder?_eq_none, fun r hr => ?_⟩
    obtain ⟨hpermutation, -⟩ := reorder?_eq_some hr
    have hperm : r.permutation.Perm (List.range ps.length) := by
      rw [hpermutation]
      exact order_perm weight ps
    exact ⟨ps, rfl, hpermutation, hperm, restores_reorder hr⟩
  · have hnone : p.reorder? weight = none := by
      unfold reorder?
      split
      · exact absurd ⟨_, rfl⟩ hjoin
      · rfl
    refine ⟨iff_of_true hnone fun ps hp => absurd ⟨ps, hp⟩ hjoin, fun r hr => ?_⟩
    rw [hnone] at hr
    cases hr

/-- The pattern with fewer variables goes first, and the projection moves the predicate back. -/
theorem reorder_restores_columns_of_patterns :
    let p := join [.triple ⟨.var ⟨"x"⟩, .var ⟨"p"⟩, .var ⟨"y"⟩⟩,
      .triple ⟨.var ⟨"x"⟩, .term (.iri "p"), .var ⟨"y"⟩⟩]
    p.reorder? (weight Pattern.shapeWeight) = some ⟨[1, 0], some [0, 2, 1]⟩ ∧
      Restores [⟨"x"⟩, ⟨"y"⟩, ⟨"p"⟩] [⟨"x"⟩, ⟨"p"⟩, ⟨"y"⟩] (some [0, 2, 1]) := by
  intro p
  have hr : p.reorder? (weight Pattern.shapeWeight) = some ⟨[1, 0], some [0, 2, 1]⟩ := by cbv
  obtain ⟨-, hsome⟩ := reorder_restores_columns (weight Pattern.shapeWeight) p
  obtain ⟨ps, hp, -, -, hrestores⟩ := hsome _ hr
  obtain rfl := join.inj hp
  exact ⟨hr, hrestores⟩

end TripleAlgebra.Plan
