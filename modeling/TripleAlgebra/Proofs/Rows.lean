import TripleAlgebra.Proofs.Arrange
import TripleAlgebra.Proofs.Regular
import TripleAlgebra.Proofs.Safe

/-! The rows of a plan, and the columns that a chain of joined operands gives them. -/
namespace TripleAlgebra

namespace JoinStep
variable {limit : Nat}

theorem operand_of_mem_ofOperands {header : List Variable}
    {ps : List { p : Plan // p.rank < limit }} {s : JoinStep limit} (h : s ∈ ofOperands header ps) :
    ∃ p ∈ ps, s.operand = p.1 := by
  induction ps generalizing header with
  | nil => cases h
  | cons p ps ih =>
    rcases List.mem_cons.mp h with rfl | h
    · exact ⟨p, by simp, rfl⟩
    · obtain ⟨q, hq, he⟩ := ih h
      exact ⟨q, by simp [hq], he⟩

theorem append_fresh (header : List Variable) {p : Plan} (hp : p.rank < limit)
    (condition : Option Expression) :
    Variable.append header p.vars = header ++ (ofOperand header p hp condition).fresh :=
  Variable.append_eq_filter p.nodup_vars

theorem union_fresh {header : List Variable} (hn : header.Nodup) {p : Plan} (hp : p.rank < limit)
    (condition : Option Expression) :
    Variable.union [header, (ofOperand header p hp condition).fresh] =
      header ++ (ofOperand header p hp condition).fresh :=
  Variable.union_fresh hn (p.nodup_vars.filter _) fun v hv => by
    simpa [ofOperand] using (List.mem_filter.mp hv).2

/-- The columns of a chain are those of its operands, each variable once. -/
theorem fresh_ofOperands {header : List Variable} (hn : header.Nodup)
    (ps : List { p : Plan // p.rank < limit }) :
    header ++ (ofOperands header ps).flatMap (·.fresh) =
      (ps.map fun p => p.1.vars).foldl Variable.append header := by
  induction ps generalizing header with
  | nil => simp [ofOperands]
  | cons p ps ih =>
    have happ := append_fresh header p.2 none
    rw [ofOperands, List.flatMap_cons, List.map_cons, List.foldl_cons, union_fresh hn p.2 none,
      ← happ, ← ih (Variable.nodup_append hn), happ, List.append_assoc]

end JoinStep

namespace Plan
variable {c : Context} {stored : Pattern → List Row} {p q l r : Plan} {rs : List Row}
  {rule : DuplicateRule}

/-- The rows of a plan, if its evaluation succeeds. -/
def rows (c : Context) (p : Plan) : List Row := (p.collect c).toOption.getD []

theorem Answers.rows_eq (hc : c.Reliable stored) (h : Answers c p rs) : p.rows c = rs := by
  simp [rows, h.collect_eq hc, Except.toOption]

theorem answers_rows (hc : c.Reliable stored) (p : Plan) : Answers c p (p.rows c) := by
  obtain ⟨rs, h⟩ := exists_answers hc p
  exact h.rows_eq hc ▸ h

/-- Every plan has its rows. -/
theorem collect_eq_rows (hc : c.Reliable stored) (p : Plan) : p.collect c = .ok (p.rows c) :=
  (answers_rows hc p).collect_eq hc

theorem rows_filter (hc : c.Reliable stored) (p : Plan) (es : List Expression) :
    (filter p es).rows c = (p.rows c).filter fun r => es.all (·.holds (r.assignment p.vars)) :=
  ((answers_rows hc p).filter hc es).rows_eq hc

/-- No table in the plan lists a variable twice. -/
inductive Tidy : Plan → Prop
  | node {p : Plan} (here : ∀ q vs table, p = .values q vs table → vs.Nodup)
      (below : ∀ q ∈ p.children, Tidy q) : Tidy p

theorem Tidy.child (h : Tidy p) (hq : q ∈ p.children) : Tidy q := by
  cases h with
  | node _ below => exact below q hq

theorem Tidy.nodup {vs : List Variable} {table : List Row} (h : Tidy (.values p vs table)) :
    vs.Nodup := by
  cases h with
  | node here _ => exact here p vs table rfl

theorem Tidy.values {vs : List Variable} (h : Tidy p) (hn : vs.Nodup) (table : List Row) :
    Tidy (.values p vs table) := by
  refine .node ?_ (List.forall_mem_singleton.mpr h)
  rintro _ _ _ ⟨⟩
  exact hn

theorem tidy_identity : Tidy identity := .node (by simp) (by simp [children])

theorem Safe.tidy {E : Variable → Prop} (h : Safe rule E p) : Tidy p := by
  induction h with
  | triple t => exact .node (by simp) (by simp [children])
  | identity => exact tidy_identity
  | join _ ih => exact .node (by simp) ih
  | union _ ih => exact .node (by simp) ih
  | leftJoin _ _ _ hl hr => exact .node (by simp) (by simp [children, hl, hr])
  | filter _ _ ih => exact .node (by simp) (by simp [children, ih])
  | project _ ih => exact .node (by simp) (by simp [children, ih])
  | distinct _ _ ih => exact .node (by simp) (by simp [children, ih])
  | values _ hv ih => exact ih.values hv _
  | assign _ _ ih => exact .node (by simp) (by simp [children, ih])
  | minus _ _ hl hr => exact .node (by simp) (by simp [children, hl, hr])
  | semijoin _ _ _ hp hq | antijoin _ _ _ hp hq =>
    exact .node (by simp) (by simp [children, hp, hq])
  | ask _ _ ih => exact .node (by simp) (by simp [children, ih])

/-- The declared columns of a join, from the columns of the chain. -/
theorem length_finish {limit : Nat} {ps : List Plan} {plan : JoinPlan limit}
    (operands : List Plan) (h : ArrangementOf ps operands plan.projection) {row : Row}
    (hr : row.length = (Variable.union (operands.map vars)).length) :
    (plan.finish row).length = (join ps).vars.length := by
  have hcols := h.columns
  unfold JoinPlan.finish
  cases hp : plan.projection with
  | none =>
    rw [hp] at hcols
    rw [hr]
    exact congrArg List.length hcols
  | some columns =>
    rw [hp] at hcols
    have hlen := congrArg List.length hcols
    simpa [Variable.columns] using hlen.symm

/-- The variables of operands from those of the first one on. -/
theorem union_vars_cons {limit : Nat} (head : { q : Plan // q.rank < limit })
    (rest : List { q : Plan // q.rank < limit }) :
    Variable.union (((head :: rest).map (·.1)).map vars) =
      (rest.map fun q => q.1.vars).foldl Variable.append head.1.vars := by
  have happ : Variable.append [] head.1.vars = head.1.vars :=
    Variable.append_eq_of_disjoint head.1.nodup_vars (by simp)
  rw [List.map_cons, List.map_cons, Variable.union, List.foldl_cons, happ, List.map_map]
  rfl

/-- A left join appends the fresh columns of its right side. -/
theorem vars_leftJoin_fresh {limit : Nat} (hr : r.rank < limit) (condition : Option Expression) :
    (leftJoin l r condition).vars =
      l.vars ++ (JoinStep.ofOperand l.vars r hr condition).fresh := by
  rw [vars, Variable.union_pair l.nodup_vars, JoinStep.append_fresh l.vars hr condition]

theorem vars_assign (p : Plan) (v : Variable) (e : Expression) :
    (assign p v e).vars = Variable.append p.vars [v] := by
  rw [vars, Variable.union_pair p.nodup_vars]

theorem eq_of_mem_tableOperands {vs : List Variable} {table : List Row}
    {q : { q : Plan // q.rank < (values p vs table).rank }} (h : q ∈ tableOperands p vs table) :
    q.1 = p := by
  cases p <;> simp_all [tableOperands]

/-- The columns of a table and the plan under it. -/
theorem vars_values {vs : List Variable} (hn : vs.Nodup) (p : Plan) (table : List Row) :
    ((tableOperands p vs table).map fun q => q.1.vars).foldl Variable.append vs =
      (values p vs table).vars := by
  rw [vars, Variable.union_pair hn]
  cases p <;> rfl

theorem map_operandsOf (c : Context) (ps : List Plan) :
    (operandsOf c ps).map (·.1) = (arranged c ps).1.map (·.1) := by
  simp [operandsOf, Function.comp_def]

end Plan
end TripleAlgebra
