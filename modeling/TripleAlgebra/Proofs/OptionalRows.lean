import TripleAlgebra.Proofs.BoundRows

/-! What an optional join makes of each row of its left side. -/
namespace TripleAlgebra.Plan
open Assignment Store Classical

/-- The merges of a left row with the rows of the right side that agree with it and satisfy the
condition together with it. If there is none, the left row with the other columns unbound. -/
noncomputable def optionalRows (l r : Plan) (condition : Option Expression) (right : List Row)
    (row : Row) : List Row :=
  let found := (right.map (Row.assignment r.vars)).filter fun ν =>
    Compatible (row.assignment l.vars) ν ∧
      Satisfies condition.toList (merge (row.assignment l.vars) ν)
  if found = [] then [row.extendUnbound (r.vars.filter (· ∉ l.vars)).length]
  else found.map fun ν =>
    Row.ofAssignment (leftJoin l r condition).vars (merge (row.assignment l.vars) ν)

variable {l r : Plan} {condition : Option Expression} {right : List Row} {row : Row}

theorem vars_leftJoin (l r : Plan) (condition : Option Expression) :
    (leftJoin l r condition).vars = l.vars ++ r.vars.filter (· ∉ l.vars) := by
  rw [vars, Variable.union_pair l.nodup_vars, Variable.append_eq_filter r.nodup_vars]
  apply congrArg
  apply List.filter_congr
  intro v _
  exact Bool.eq_iff_iff.mpr (by simp)

theorem length_optionalRows (hrow : row.length = l.vars.length) :
    ∀ q ∈ optionalRows l r condition right row,
      q.length = (leftJoin l r condition).vars.length := by
  intro q hq
  unfold optionalRows at hq
  dsimp only at hq
  split at hq
  · rw [List.mem_singleton.mp hq, vars_leftJoin]
    simp [hrow]
  · obtain ⟨ν, -, rfl⟩ := List.mem_map.mp hq
    exact Row.length_ofAssignment _ _

/-- As solutions they extend the left row. -/
theorem assignment_optionalRows (hrow : row.length = l.vars.length) :
    ((optionalRows l r condition right row).map
      (Row.assignment (leftJoin l r condition).vars) : Bag) =
      Bag.extend (Satisfies condition.toList) (right.map (Row.assignment r.vars) : List Assignment)
        (row.assignment l.vars) := by
  let μ := row.assignment l.vars
  let found := (right.map (Row.assignment r.vars)).filter fun ν =>
    Compatible μ ν ∧ Satisfies condition.toList (merge μ ν)
  have hbag : (((right.map (Row.assignment r.vars) : List Assignment) : Bag).bind
      (Bag.pair μ)).filter (Satisfies condition.toList) =
      (found.map (merge μ) : List Assignment) := by
    rw [Bag.filter_pair, Multiset.filter_coe, Multiset.map_coe]
  have hrows : optionalRows l r condition right row =
      if found = [] then [row.extendUnbound (r.vars.filter (· ∉ l.vars)).length]
      else found.map fun ν => Row.ofAssignment (leftJoin l r condition).vars (merge μ ν) := rfl
  rw [Bag.extend, hbag, hrows]
  by_cases hf : found = []
  · rw [if_pos hf, if_pos (by simp [hf]), List.map_singleton, vars_leftJoin,
      Row.assignment_extendUnbound hrow]
    rfl
  · rw [if_neg hf, if_neg (by simpa using hf), List.map_map]
    apply congrArg
    apply List.map_congr_left
    intro ν hν
    obtain ⟨q, -, rfl⟩ := List.mem_map.mp (List.mem_of_mem_filter hν)
    have hwithin : Within (leftJoin l r condition).vars (merge μ (q.assignment r.vars)) := by
      refine (Row.within_assignment l.vars row).merge (Row.within_assignment r.vars q) ?_ ?_
      · exact fun v hv => mem_vars_leftJoin.mpr (.inl hv)
      · exact fun v hv => mem_vars_leftJoin.mpr (.inr hv)
    rw [Function.comp_apply, Row.assignment_ofAssignment, hwithin.restrict_eq]

/-- For each left row, in the order of the left side, an optional join has the merges of the row
with the rows of the right side that agree with it and make the condition true of the merged row,
or the left row alone if there is none. -/
theorem leftJoin_rows (s : Contents) (config : Config) {l r : Plan} (hl : l.Tidy)
    (hr : r.BindSafe config.distinct) (condition : Option Expression) :
    (leftJoin l r condition).vars = l.vars ++ r.vars.filter (· ∉ l.vars) ∧
    ∃ left right blocks, l.collect (s.context config) = .ok left ∧
      r.collect (s.context config) = .ok right ∧
      (leftJoin l r condition).collect (s.context config) = .ok (List.flatten blocks) ∧
      List.Forall₂ (fun row block => List.Perm block (optionalRows l r condition right row))
        left blocks := by
  have hc := s.holds config
  have hrows := collect_eq_rows hc.toReliable
  have hsafe : Safe config.distinct (fun _ => True) r := hr.safe
  let plan := leftJoinPlan l r condition
  let block (row : Row) : List Row := plan.nestedRows (rows (s.context config)) plan.steps
    (row.project (Variable.columns l.vars l.vars))
  have hjoin : (leftJoin l r condition).rows (s.context config) =
      ((l.rows (s.context config)).map block).flatten :=
    (answers_leftJoin hc.toReliable
      fun q _ => answers_rows hc.toReliable q).rows_eq hc.toReliable
  have htidy : (leftJoin l r condition).Tidy :=
    .node (by simp) (by simp [children, hl, hsafe.tidy])
  have hwidth : ∀ q ∈ (leftJoin l r condition).rows (s.context config),
      q.length = (leftJoin l r condition).vars.length := fun q hq =>
    length_of_mem_rows hc.toReliable hc.width htidy hq
  refine ⟨vars_leftJoin l r condition, _, _, (l.rows (s.context config)).map block, hrows l,
    hrows r, hjoin ▸ hrows _, ?_⟩
  rw [List.forall₂_map_right_iff, List.forall₂_same]
  intro row hrow
  have hlen : row.length = l.vars.length := length_of_mem_rows hc.toReliable hc.width hl hrow
  refine Row.perm_of_assignments (leftJoin l r condition).nodup_vars (fun q hq => hwidth q ?_)
    (length_optionalRows hlen) ?_
  · rw [hjoin]
    exact List.mem_flatten_of_mem (List.mem_map_of_mem hrow) hq
  · have hblock := leftJoin_block (l := l) hc condition hsafe
      (fun q _ hq => solutions_eq_meaning hc hq) (row.project (Variable.columns l.vars l.vars))
      (by simp [Variable.columns])
    rw [Row.assignment_project, (Row.within_assignment l.vars row).restrict_eq,
      ← solutions_eq_meaning hc hsafe] at hblock
    exact hblock.trans (assignment_optionalRows hlen).symm

/-- An optional edge after one row of a slice. -/
theorem leftJoin_rows_optional_edge :
    let l := slice (edge (.var ⟨"x"⟩) (.var ⟨"y"⟩)) 1 none
    let r := edge (.var ⟨"y"⟩) (.var ⟨"z"⟩)
    let condition := some (Expression.bound ⟨"z"⟩)
    l.Tidy ∧ r.BindSafe .all ∧
    ∃ left right blocks, l.collect (Contents.path.context {}) = .ok left ∧
      r.collect (Contents.path.context {}) = .ok right ∧
      (leftJoin l r condition).collect (Contents.path.context {}) = .ok (List.flatten blocks) ∧
      List.Forall₂ (fun row block => List.Perm block (optionalRows l r condition right row))
        left blocks := by
  intro l r condition
  have hr : r.BindSafe .all := .triple _
  have hedge : (edge (.var ⟨"x"⟩) (.var ⟨"y"⟩)).Tidy :=
    .node (by simp [edge]) (by simp [children, edge])
  have hl : l.Tidy := .node (by simp [l]) (by simp [l, children, hedge])
  exact ⟨hl, hr, (leftJoin_rows Contents.path {} hl hr condition).2⟩

end TripleAlgebra.Plan
