import TripleAlgebra.Proofs.Calls
import TripleAlgebra.Proofs.RowSolutions
import TripleAlgebra.Proofs.Contents

/-! What every row has: a column for each variable of its plan, and a value for each certain
variable. -/
namespace TripleAlgebra

theorem RowSet.select_subset (s : RowSet) (rows : List Row) : s.select rows ⊆ rows := by
  induction rows generalizing s with
  | nil => exact List.Subset.refl _
  | cons r rows ih =>
    rw [RowSet.select]
    split
    · exact List.cons_subset_cons r (ih _)
    · exact List.subset_cons_of_subset r (ih _)

theorem Event.sliceRows_subset (start : Nat) (limit : Option Nat) (rows : List Row) :
    sliceRows start limit rows ⊆ rows := by
  cases limit with
  | none => exact List.drop_subset start rows
  | some n => exact fun r hr => List.drop_subset start rows (List.take_subset n _ hr)

namespace Plan
open Store
variable {c : Context} {ts : List Triple} {stored : Pattern → List Row} {p q : Plan} {limit : Nat}
  {answer : Plan → List Row} {header : List Variable} {rs : List Row} {v : Variable}

/-- Every row has a value for each certain variable. -/
def BindsCertain (p : Plan) (rs : List Row) : Prop :=
  ∀ row ∈ rs, ∀ v ∈ p.certain, (row.assignment p.vars v).isSome

/-- The row that an operand extends keeps its values, and the operand adds those of its certain
variables. What the row binds is substituted; the other certain variables stay certain. -/
theorem isSome_combine (hp : p.rank < limit) (condition : Option Expression) {row r : Row}
    (hrow : row.length = header.length) (hr : r ∈ rs)
    (h : ((JoinStep.ofOperand header p hp condition).specialise row).BindsCertain rs)
    (hv : (row.assignment header v).isSome ∨ v ∈ p.certain) :
    let s := JoinStep.ofOperand header p hp condition
    (Row.assignment (header ++ s.fresh)
      ((Layout.ofStep s row (s.specialise row).vars).combine row r) v).isSome := by
  intro s
  have hmerge := congrFun (assignment_combine_specialise hp condition hrow r) v
  rw [hmerge, Assignment.merge, Option.isSome_or, Bool.or_eq_true]
  refine Decidable.or_iff_not_imp_left.mpr fun hnone => h r hr v ?_
  have hcertain : v ∈ (p.conditioned condition).certain := by
    cases condition <;> exact hv.resolve_left hnone
  rw [specialise_ofOperand]
  refine mem_certain_substitute _ hcertain ?_
  rw [Row.find?_known, Assignment.restrict, Option.not_isSome_iff_eq_none.mp hnone, ite_self]

/-- A chain keeps the values of its first row and adds those of the certain variables of all
operands. -/
theorem isSome_nestedRows {plan : JoinPlan limit} (hopt : plan.optional = false)
    (h : ∀ q : Plan, q.rank < limit → Tidy q → q.BindsCertain (answer q))
    {ps : List { q : Plan // q.rank < limit }} (hps : ∀ q ∈ ps, Tidy q.1) (hn : header.Nodup)
    {row r : Row} (hrow : row.length = header.length)
    (hr : r ∈ plan.nestedRows answer (JoinStep.ofOperands header ps) row) :
    ∃ r', r = plan.finish r' ∧ ∀ v,
      ((row.assignment header v).isSome ∨ ∃ q ∈ ps, v ∈ q.1.certain) →
      (r'.assignment ((ps.map fun q => q.1.vars).foldl Variable.append header) v).isSome := by
  induction ps generalizing header row with
  | nil =>
    refine ⟨row, List.mem_singleton.mp hr, fun v hv => hv.resolve_right ?_⟩
    rintro ⟨q, hq, -⟩
    cases hq
  | cons p ps ih =>
    let s := JoinStep.ofOperand header p.1 p.2 none
    have happ : Variable.append header p.1.vars = header ++ s.fresh :=
      JoinStep.append_fresh header p.2 none
    have hnext : (header ++ s.fresh).Nodup := happ ▸ Variable.nodup_append hn
    rw [nestedRows_ofOperands_cons hopt answer hn] at hr
    obtain ⟨found, hfound, hr⟩ := List.mem_flatMap.mp hr
    obtain ⟨r', rfl, hr'⟩ := ih (fun q hq => hps q (by simp [hq])) hnext
      (by rw [JoinStep.length_combine_ofStep, hrow, List.length_append]) hr
    have hspecialised : (s.specialise row).BindsCertain (answer (s.specialise row)) := by
      refine h _ (s.rank_specialise_lt row) ?_
      rw [specialise_ofOperand]
      exact (hps p (by simp)).specialised _
    refine ⟨r', rfl, fun v hv => ?_⟩
    rw [List.map_cons, List.foldl_cons, happ]
    refine hr' v ?_
    rcases hv with hv | ⟨q, hq, hv⟩
    · exact .inl (isSome_combine p.2 none hrow hfound hspecialised (.inl hv))
    · rcases List.mem_cons.mp hq with rfl | hq
      · exact .inl (isSome_combine q.2 none hrow hfound hspecialised (.inr hv))
      · exact .inr ⟨q, hq, hv⟩

theorem BindsCertain.subset (h : q.BindsCertain rs) (hvars : p.vars = q.vars)
    (hcertain : p.certain = q.certain) {rs' : List Row} (hrs : rs' ⊆ rs) : p.BindsCertain rs' := by
  intro row hrow v hv
  rw [hvars]
  exact h row (hrs hrow) v (hcertain ▸ hv)

theorem bindsCertain_triple (hc : c.Holds ts stored) (t : Pattern) :
    (triple t).BindsCertain ((triple t).rows c) := by
  intro row hrow v hv
  have hmem : row.assignment t.vars ∈ (triple t).solutions c :=
    Multiset.mem_coe.mpr (List.mem_map_of_mem hrow)
  rw [solutions_triple hc t] at hmem
  exact isSome_of_certain (triple t) hmem hv

theorem bindsCertain_join {ps : List Plan} (hps : ∀ q ∈ ps, Tidy q)
    (h : ∀ q : Plan, q.rank < (join ps).rank → Tidy q → q.BindsCertain (answer q)) :
    (join ps).BindsCertain (joinRows answer (arranged c ps).2 (operandsOf c ps)) := by
  have harr := arrangementOf_arranged c ps
  rw [← map_operandsOf] at harr
  intro row hrow v hv
  obtain ⟨q, hq, hv⟩ := mem_certain_join.mp hv
  have hmem : q ∈ (operandsOf c ps).map (·.1) := harr.perm.mem_iff.mpr hq
  have htidy : ∀ q ∈ operandsOf c ps, Tidy q.1 := fun q hq => hps q.1 (mem_of_mem_operandsOf hq)
  generalize operandsOf c ps = operands at *
  cases operands with
  | nil => cases hmem
  | cons head rest =>
    obtain ⟨r, hr, hrow⟩ := List.mem_flatMap.mp hrow
    obtain ⟨r', rfl, hr'⟩ := isSome_nestedRows rfl h (fun q hq => htidy q (by simp [hq]))
      head.1.nodup_vars (Layout.length_head head.1.vars r) hrow
    rw [assignment_finish _ harr, union_vars_cons]
    refine hr' v ?_
    rw [Layout.assignment_head]
    rcases List.mem_cons.mp hmem with rfl | hmem
    · exact .inl (h head.1 head.2 (htidy head (by simp)) r hr v hv)
    · obtain ⟨q', hq', rfl⟩ := List.mem_map.mp hmem
      exact .inr ⟨q', hq', hv⟩

theorem bindsCertain_leftJoin {l r : Plan} {condition : Option Expression} (hr : Tidy r)
    (hl : l.BindsCertain (answer l))
    (h : ∀ q : Plan, q.rank < (leftJoin l r condition).rank → Tidy q →
      q.BindsCertain (answer q)) :
    (leftJoin l r condition).BindsCertain
      (chained (leftJoinPlan l r condition) answer l.vars (answer l)) := by
  have hlt := rank_lt_leftJoin l r condition
  let s := JoinStep.ofOperand l.vars r hlt condition
  have hvars : (leftJoin l r condition).vars = l.vars ++ s.fresh :=
    vars_leftJoin_fresh hlt condition
  intro row hrow v hv
  rw [mem_certain_leftJoin] at hv
  obtain ⟨r₀, hr₀, hrow⟩ := List.mem_flatMap.mp hrow
  have hlen := Layout.length_head l.vars r₀
  have hbound := hl r₀ hr₀ v hv
  rw [← Layout.assignment_head] at hbound
  change row ∈ (leftJoinPlan l r condition).nestedRows answer [s]
    ((Layout.ofHead l.vars l.vars).combine [] r₀) at hrow
  generalize (Layout.ofHead l.vars l.vars).combine [] r₀ = left at hlen hbound hrow
  rw [hvars]
  rcases List.mem_append.mp hrow with hrow | hrow
  · obtain ⟨found, hfound, hrow⟩ := List.mem_flatMap.mp hrow
    rw [List.mem_singleton.mp hrow]
    refine isSome_combine hlt condition hlen hfound (h _ (s.rank_specialise_lt left) ?_)
      (.inl hbound)
    rw [specialise_ofOperand]
    exact (hr.conditioned condition).specialised _
  · split at hrow
    · rw [List.mem_singleton.mp hrow]
      show (Row.assignment (l.vars ++ s.fresh) (left.extendUnbound s.fresh.length) v).isSome
      rw [Row.assignment_extendUnbound hlen]
      exact hbound
    · cases hrow

theorem bindsCertain_values {vs : List Variable} {table : List Row}
    (hp : Tidy (values p vs table))
    (h : ∀ q : Plan, q.rank < (values p vs table).rank → Tidy q → q.BindsCertain (answer q)) :
    (values p vs table).BindsCertain (chained (tablePlan p vs table) answer vs table) := by
  intro row hrow v hv
  obtain ⟨r, hr, hrow⟩ := List.mem_flatMap.mp hrow
  have hops : ∀ q ∈ tableOperands p vs table, Tidy q.1 := fun q hq => by
    rw [eq_of_mem_tableOperands hq]
    exact hp.child (by simp [children])
  obtain ⟨r', rfl, hr'⟩ := isSome_nestedRows rfl h hops hp.nodup (Layout.length_head vs r) hrow
  rw [← vars_values hp.nodup p table]
  refine hr' v ?_
  rw [Layout.assignment_head]
  rcases mem_certain_values.mp hv with hv | hv
  · exact .inl ((boundInRows_iff.mp hv).2 r hr)
  · refine .inr ?_
    cases p with
    | identity => cases hv
    | _ => exact ⟨_, List.mem_singleton_self _, hv⟩

theorem bindsCertain_union {ps : List Plan} (h : ∀ q ∈ ps, q.BindsCertain (answer q)) :
    (union ps).BindsCertain (ps.flatMap fun q =>
      let columns := Variable.columns q.vars (union ps).vars
      if Variable.isIdentity columns q.vars.length then answer q
      else (answer q).map (·.project columns)) := by
  intro row hrow v hv
  obtain ⟨hvars, hv⟩ := mem_certain_union.mp hv
  obtain ⟨q, hq, hrow⟩ := List.mem_flatMap.mp hrow
  have hbound := fun r hr => h q hq r hr v (hv q hq)
  dsimp only at hrow
  split at hrow
  · rename_i hid
    rw [Variable.eq_of_isIdentity hid]
    exact hbound row hrow
  · obtain ⟨r, hr, rfl⟩ := List.mem_map.mp hrow
    rw [Row.assignment_project, Assignment.restrict, if_pos hvars]
    exact hbound r hr

theorem BindsCertain.project (h : p.BindsCertain rs) (vs : List Variable) (pulled : Prop)
    [Decidable pulled] :
    let columns := Variable.columns p.vars (Plan.project p vs).vars
    (Plan.project p vs).BindsCertain
      (if pulled ∧ Variable.isIdentity columns p.vars.length then rs
      else rs.map (·.project columns)) := by
  intro columns row hrow v hv
  obtain ⟨hvars, hv⟩ := mem_certain_project.mp hv
  split at hrow
  · rename_i hid
    rw [Variable.eq_of_isIdentity hid.2]
    exact h row hrow v hv
  · obtain ⟨r, hr, rfl⟩ := List.mem_map.mp hrow
    rw [Row.assignment_project, Assignment.restrict, if_pos (mem_vars_project.mpr hvars)]
    exact h r hr v hv

/-- An assigned variable is not certain, and the other variables keep their values. -/
theorem BindsCertain.assign (h : p.BindsCertain rs) (hlen : ∀ r ∈ rs, r.length = p.vars.length)
    (w : Variable) (e : Expression) (x : Row → Option Term) :
    (Plan.assign p w e).BindsCertain
      (rs.map fun r => r.withValue ((Variable.column? p.vars w).getD p.vars.length) (x r)) := by
  intro row hrow v hv
  obtain ⟨hw, hv⟩ := mem_certain_assign.mp hv
  obtain ⟨r, hr, rfl⟩ := List.mem_map.mp hrow
  rw [vars_assign, Row.assignment_withValue (hlen r hr), Function.update_of_ne hw.symm]
  exact h r hr v hv

/-- Every row of a plan has a value for each of its certain variables. -/
theorem bindsCertain_rows (hc : c.Holds ts stored) (hp : Tidy p) : p.BindsCertain (p.rows c) := by
  have hr := hc.toReliable
  have hrows (q : Plan) := answers_rows hr q
  induction p using inductBelow with
  | _ p ih =>
    have hlt (q : Plan) (hq : q.rank < p.rank) (ht : Tidy q) := ih q (.inl hq) ht
    have hown (q : Plan) (hq : q ∈ p.children) : q.BindsCertain (q.rows c) :=
      ih q (below_of_mem_children hq) (hp.child hq)
    cases p with
    | triple t => exact bindsCertain_triple hc t
    | join ps =>
      rw [(answers_join hr fun q _ => hrows q).rows_eq hr]
      exact bindsCertain_join (fun q hq => hp.child hq) hlt
    | leftJoin l r condition =>
      rw [(answers_leftJoin hr fun q _ => hrows q).rows_eq hr]
      exact bindsCertain_leftJoin (hp.child (by simp [children])) (hown l (by simp [children])) hlt
    | values p vs table =>
      rw [(answers_values hr fun q _ => hrows q).rows_eq hr]
      exact bindsCertain_values hp hlt
    | union ps =>
      rw [(answers_union hr fun q _ => hrows q).rows_eq hr]
      exact bindsCertain_union hown
    | project p vs =>
      rw [((hrows p).project hr vs).rows_eq hr]
      exact (hown p (by simp [children])).project vs _
    | assign p w e =>
      rw [((hrows p).assign hr w e).rows_eq hr]
      exact (hown p (by simp [children])).assign
        (fun r h => length_of_mem_rows hr hc.width (hp.child (by simp [children])) h) w e _
    | filter p cs =>
      rw [((hrows p).filter hr cs).rows_eq hr]
      exact (hown p (by simp [children])).subset rfl rfl (List.filter_subset_self _)
    | distinct p =>
      rw [((hrows p).distinct hr).rows_eq hr]
      exact (hown p (by simp [children])).subset rfl rfl (RowSet.select_subset _ _)
    | weakDistinct p =>
      rw [((hrows p).weakDistinct hr).rows_eq hr]
      exact (hown p (by simp [children])).subset rfl rfl (RowSet.select_subset _ _)
    | limit p n =>
      rw [((hrows p).limit hr n).rows_eq hr]
      exact (hown p (by simp [children])).subset rfl rfl (Event.sliceRows_subset _ _ _)
    | offset p n =>
      rw [((hrows p).offset hr n).rows_eq hr]
      exact (hown p (by simp [children])).subset rfl rfl (Event.sliceRows_subset _ _ _)
    | slice p n count =>
      rw [((hrows p).slice hr n count).rows_eq hr]
      exact (hown p (by simp [children])).subset rfl rfl (Event.sliceRows_subset _ _ _)
    | semijoin p q =>
      rw [((hrows p).semijoin hr fun q' _ => hrows q').rows_eq hr]
      exact (hown p (by simp [children])).subset rfl rfl (List.filter_subset_self _)
    | antijoin p q =>
      rw [((hrows p).antijoin hr fun q' _ => hrows q').rows_eq hr]
      exact (hown p (by simp [children])).subset rfl rfl (List.filter_subset_self _)
    | minus l r b =>
      rw [((hrows l).minus hr b fun q' _ => hrows q').rows_eq hr]
      exact (hown l (by simp [children])).subset rfl rfl (List.filter_subset_self _)
    | ask p | identity => exact fun row _ v hv => absurd hv List.not_mem_nil

/-- Whatever an evaluator results in is under the header of its node, and the rows of a plan have
one column for each of its variables. -/
theorem rows_aligned (s : Contents) (config : Config) {p : Plan} (hp : Tidy p) :
    p.vars.Nodup ∧
    (∃ sols rows, (p.execute (s.context config)).outcome = .ok sols ∧ sols.header = p.vars ∧
      (sols.take none).value = rows.map .ok ∧ sols.gather.value = .ok rows ∧
      ∀ row ∈ rows, row.length = p.vars.length) ∧
    ∀ (q : Plan) (sols : Solutions),
      (evaluate (s.context config) (.builtin q.kind.family (config.mode q.kind)) q
        fun r _ => dispatch (s.context config) r).outcome = .ok sols →
      sols.header = q.vars ∧ checkHeader (s.context config) q sols = pure sols := by
  have hc := s.holds config
  have hregular : (s.context config).Regular := (hc.aligned hc.width).toRegular
  refine ⟨p.nodup_vars, ?_, fun q sols ho => ?_⟩
  · obtain ⟨sols, ho, hy⟩ := answers_rows hc.toReliable p
    refine ⟨sols, p.rows (s.context config), (congrArg _ (execute_eq rfl p)).trans ho,
      hy.header_eq, ?_, hy.gather, fun row => length_of_mem_rows hc.toReliable hc.width hp⟩
    rw [Solutions.take_none hy.memo_eq, Event.deliver_iff.mp hy.deliver]
  · have hq := regular_evaluate hregular (config.mode q.kind)
      (fun r _ => regular_dispatch hregular r) sols ho
    exact ⟨hq.header_eq, checkHeader_eq hq⟩

/-- Alternatives under different headers, one a table with rows of any length, and a projection to a
variable that neither has. -/
theorem rows_aligned_alternatives :
    let table := values identity [⟨"y"⟩, ⟨"z"⟩] [[], [some (.iri "a")], List.replicate 3 none]
    let p := project (union [edge (.var ⟨"x"⟩) (.var ⟨"y"⟩), table]) [⟨"z"⟩, ⟨"w"⟩, ⟨"x"⟩]
    Tidy p ∧ ∃ sols rows, (p.execute (Contents.path.context {})).outcome = .ok sols ∧
      sols.header = p.vars ∧ (sols.take none).value = rows.map .ok ∧
      sols.gather.value = .ok rows ∧ ∀ row ∈ rows, row.length = p.vars.length := by
  intro table p
  have hedge : Tidy (edge (.var ⟨"x"⟩) (.var ⟨"y"⟩)) :=
    .node (by simp [edge]) (by simp [children, edge])
  have htable : Tidy table := tidy_identity.values (by decide) _
  have hp : Tidy p :=
    .node (by simp [p]) (List.forall_mem_singleton.mpr (.node (by simp) (by
      simp [children, hedge, htable])))
  exact ⟨hp, (rows_aligned Contents.path {} hp).2.1⟩

/-- Every row has a value for each certain variable, and the certain variables that are not bound by
a specialisation stay certain. -/
theorem certain_bound (s : Contents) (config : Config) {p : Plan} (hp : Tidy p) :
    (∃ rows, p.collect (s.context config) = .ok rows ∧
      ∀ row ∈ rows, ∀ v ∈ p.certain, (row.assignment p.vars v).isSome) ∧
    ∀ (vs : List Variable) (values : List (Option Term)), ∀ v ∈ p.certain,
      (Substitution.ofValues vs values).find? v = none → v ∈ (p.bind vs values).certain := by
  have hc := s.holds config
  refine ⟨⟨_, collect_eq_rows hc.toReliable p, bindsCertain_rows hc hp⟩, ?_⟩
  intro vs values v hv hnone
  exact mem_certain_substitute p hv hnone

/-- An optional edge after an edge. -/
theorem certain_bound_optional_edge :
    let p := leftJoin (edge (.var ⟨"x"⟩) (.var ⟨"y"⟩)) (edge (.var ⟨"y"⟩) (.var ⟨"z"⟩)) none
    Tidy p ∧ p.certain = [⟨"x"⟩, ⟨"y"⟩] ∧
    (∃ rows, p.collect (Contents.path.context {}) = .ok rows ∧
      ∀ row ∈ rows, ∀ v ∈ p.certain, (row.assignment p.vars v).isSome) ∧
    ⟨"y"⟩ ∈ (p.bind [⟨"x"⟩] [some (.iri "b")]).certain := by
  intro p
  have hedge (u v : Slot) : Tidy (edge u v) := .node (by simp [edge]) (by simp [children, edge])
  have hp : Tidy p := .node (by simp [p]) (by simp [p, children, hedge])
  have hcertain : p.certain = [⟨"x"⟩, ⟨"y"⟩] := by decide
  obtain ⟨hrows, hbind⟩ := certain_bound Contents.path {} hp
  refine ⟨hp, hcertain, hrows, hbind _ _ _ ?_ ?_⟩
  · rw [hcertain]
    decide
  · decide

end Plan
end TripleAlgebra
