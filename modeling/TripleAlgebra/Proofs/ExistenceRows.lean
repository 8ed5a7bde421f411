import TripleAlgebra.Proofs.Adequacy
import TripleAlgebra.Proofs.Agreement
import TripleAlgebra.Proofs.Contents

/-! The rows that a pattern keeps because an inner plan has a solution for them, or has none. -/
namespace TripleAlgebra.Plan
open Assignment Store

/-- A semijoin keeps the outer rows that agree with a row that the inner plan has on its own, and an
antijoin keeps the other ones, both in the order of the outer plan. -/
theorem exists_keeps_rows (s : Contents) (config : Config) (p : Plan) {q : Plan}
    (hq : q.BindSafe config.distinct) :
    (semijoin p q).vars = p.vars ∧ (antijoin p q).vars = p.vars ∧
    ∃ outer inner, p.collect (s.context config) = .ok outer ∧
      q.collect (s.context config) = .ok inner ∧
      (semijoin p q).collect (s.context config) =
        .ok (outer.filter (Row.meets p.vars q.vars inner)) ∧
      (antijoin p q).collect (s.context config) =
        .ok (outer.filter fun row => !Row.meets p.vars q.vars inner row) := by
  have hc := s.holds config
  have hrows := collect_eq_rows hc.toReliable
  have hsafe : Safe config.distinct (fun _ => True) q := hq.safe
  have hfound (row : Row) :
      (!((q.bind p.vars ((List.range p.vars.length).map row.value)).rows
        (s.context config)).isEmpty) = Row.meets p.vars q.vars (q.rows (s.context config)) row := by
    rw [Bool.eq_iff_iff, Row.meets_iff, exists_row_iff hc.iri hsafe
      (fun q' _ h => solutions_eq_meaning hc h) p.nodup_vars (fun _ _ => trivial),
      ← solutions_eq_meaning hc hsafe]
    rfl
  refine ⟨rfl, rfl, _, _, hrows p, hrows q, ?_, ?_⟩
  · rw [hrows, rows_semijoin hc.toReliable]
    exact congrArg _ (List.filter_congr fun row _ => hfound row)
  · rw [hrows, rows_antijoin hc.toReliable]
    refine congrArg _ (List.filter_congr fun row _ => ?_)
    rw [← hfound, Bool.not_not]

/-- Edges with and without an edge behind them, of which the end may be unbound. -/
theorem exists_keeps_followed_edges :
    let p := slice (edge (.var ⟨"x"⟩) (.var ⟨"y"⟩)) 0 (some 2)
    let q := leftJoin (edge (.var ⟨"y"⟩) (.var ⟨"z"⟩)) (edge (.var ⟨"z"⟩) (.var ⟨"x"⟩)) none
    q.BindSafe .all ∧
    ∃ outer inner, p.collect (Contents.path.context {}) = .ok outer ∧
      q.collect (Contents.path.context {}) = .ok inner ∧
      (semijoin p q).collect (Contents.path.context {}) =
        .ok (outer.filter (Row.meets p.vars q.vars inner)) ∧
      (antijoin p q).collect (Contents.path.context {}) =
        .ok (outer.filter fun row => !Row.meets p.vars q.vars inner row) := by
  intro p q
  have hq : q.BindSafe .all := .leftJoin (.triple _) (.triple _) (by simp)
  exact ⟨hq, (exists_keeps_rows Contents.path {} p hq).2.2⟩

end TripleAlgebra.Plan
