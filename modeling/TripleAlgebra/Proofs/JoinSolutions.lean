import TripleAlgebra.Proofs.Specialise
import TripleAlgebra.Proofs.Width

/-! The solutions that a chain of operands finds. -/
namespace TripleAlgebra
open Assignment Classical

namespace Row
variable {header names : List Variable} {row : Row}

theorem assignment_extendUnbound {r : Row} {vs : List Variable} (h : r.length = vs.length)
    (ws : List Variable) (n : Nat) :
    (r.extendUnbound n).assignment (vs ++ ws) = r.assignment vs := by
  rw [extendUnbound, assignment_append h]
  funext v
  split
  · rfl
  · rw [assignment_unbound, within_assignment vs r v ‹_›]
    rfl

/-- What a row says about some variables, as a substitution. -/
def known (header names : List Variable) (row : Row) : Substitution :=
  names.filterMap fun v => (row.assignment header v).map (v, ·)

theorem find?_known (header names : List Variable) (row : Row) :
    (row.known header names).find? = restrict names (row.assignment header) := by
  funext w
  unfold known
  induction names with
  | nil => rfl
  | cons v names ih =>
    rw [List.filterMap_cons]
    cases hv : row.assignment header v with
    | none =>
      simp only [Option.map_none, ih]
      by_cases hw : w = v
      · simp [restrict, hw, hv]
      · simp [restrict, hw]
    | some t =>
      simp only [Option.map_some, Substitution.find?_cons, ih]
      by_cases hw : w = v
      · simp [restrict, hw, hv]
      · simp [restrict, hw]

theorem find?_known_of_mem {v : Variable} (h : v ∈ names) :
    (row.known header names).find? v = row.assignment header v := by
  rw [find?_known, restrict, if_pos h]

theorem find?_known_eq_some {v : Variable} {t : Term} :
    (row.known header names).find? v = some t ↔
      v ∈ names ∧ row.assignment header v = some t := by
  rw [find?_known, restrict]
  split <;> simp [*]

theorem functional_known (hn : names.Nodup) : (row.known header names).Functional := by
  have hsub : ((row.known header names).map (·.1)).Sublist names := by
    unfold known
    clear hn
    induction names with
    | nil => exact .refl _
    | cons v names ih =>
      rw [List.filterMap_cons]
      cases row.assignment header v with
      | none => exact ih.cons v
      | some t => exact ih.cons_cons v
  exact hn.sublist hsub

theorem ofValues_located (header names : List Variable) (row : Row) :
    Substitution.ofValues ((Variable.located header names).map (·.1))
      ((Variable.located header names).map fun e => row.value e.2) = row.known header names := by
  unfold Substitution.ofValues Variable.located known
  induction names with
  | nil => rfl
  | cons v names ih =>
    cases hv : Variable.column? header v with
    | none =>
      have hn : row.assignment header v = none := by simp [assignment, hv]
      simpa [List.filterMap_cons, hv, hn] using ih
    | some i =>
      have hs : row.assignment header v = row.value i := assignment_apply hv row
      cases ht : row.value i <;> simpa [List.filterMap_cons, hv, hs, ht] using ih

end Row

theorem Plan.early_known (p : Plan) (header names : List Variable) (row : Row) :
    p.early (row.known header names) = row.known header (names.filter (!p.defers ·)) := by
  unfold early Row.known
  rw [List.filter_filterMap, List.filterMap_filter]
  refine List.filterMap_congr fun v _ => ?_
  cases hv : p.defers v <;> cases row.assignment header v <;> simp [hv]

/-- The store answers each pattern with the solutions of the pattern over the triples. -/
structure Context.Holds (c : Context) (ts : List Triple) (stored : Pattern → List Row) : Prop
    extends c.Reliable stored where
  width : ∀ t, ∀ r ∈ stored t, r.length = t.vars.length
  solutions : ∀ t, ((stored t).map (Row.assignment t.vars) : List Assignment) = t.solutions ts
  iri : ∀ t ∈ ts, ∃ n, t.predicate = .iri n

namespace Plan
variable {c : Context} {ts : List Triple} {stored : Pattern → List Row} {p l r : Plan}
  {rule : DuplicateRule} {E : Variable → Prop} {limit : Nat}

/-- The rows of a plan as solutions. -/
def solutions (c : Context) (p : Plan) : Bag :=
  ((p.rows c).map (Row.assignment p.vars) : List Assignment)

/-- The plan that is evaluated for an operand with an optional condition. -/
def conditioned (p : Plan) : Option Expression → Plan
  | none => p
  | some e => .filter p [e]

theorem meaning_substitute_conditioned (hts : ∀ t ∈ ts, ∃ n, t.predicate = .iri n)
    (h : Safe rule E p) {s : Substitution} (hs : s.Functional)
    (hE : ∀ v, (s.find? v).isSome → E v) (condition : Option Expression) :
    (substitute s (p.conditioned condition)).meaning ts =
      Bag.specialise s.find?
        ((p.meaning ts).filter fun μ => Satisfies condition.toList (merge s.find? μ)) := by
  cases condition with
  | none =>
    have hall : (p.meaning ts).filter (fun μ => Satisfies [] (merge s.find? μ)) = p.meaning ts :=
      Multiset.filter_eq_self.mpr fun μ _ e he => by cases he
    exact (h.specialises hts s hs hE).trans (congrArg _ hall.symm)
  | some e => exact (h.specialises hts).filter_eq hs hE [e]

theorem safe_conditioned (h : Safe rule E p) (condition : Option Expression) :
    Safe rule (fun _ => False) (p.conditioned condition) := by
  cases condition with
  | none => exact h.mono fun _ h => h.elim
  | some e => exact .filter (h.mono fun _ h => h.elim) fun _ _ _ _ hE => hE.elim

theorem nodup_given (p : Plan) (condition : Option Expression) : (p.given condition).Nodup := by
  cases condition
  · exact p.nodup_vars
  · exact Variable.nodup_union _

theorem vars_conditioned (p : Plan) (condition : Option Expression) :
    (p.conditioned condition).vars = p.vars := by
  cases condition <;> rfl

theorem specialise_ofOperand {header : List Variable} (hp : p.rank < limit)
    (condition : Option Expression) (row : Row) :
    (JoinStep.ofOperand header p hp condition).specialise row =
      substitute (row.known header (p.given condition)) (p.conditioned condition) := by
  rw [← Row.ofValues_located]
  cases condition <;> rfl

variable {header : List Variable} (hp : p.rank < limit) (condition : Option Expression) {row : Row}

theorem vars_specialise_subset :
    ((JoinStep.ofOperand header p hp condition).specialise row).vars ⊆ p.vars := by
  rw [specialise_ofOperand, vars_substitute, vars_conditioned]
  exact fun v hv => (Substitution.mem_remaining.mp hv).1

/-- A combined row binds what the row binds, and beside it what the row of the operand binds. -/
theorem assignment_combine_specialise (hr : row.length = header.length) (r : Row) :
    let s := JoinStep.ofOperand header p hp condition
    Row.assignment (header ++ s.fresh) ((Layout.ofStep s row (s.specialise row).vars).combine row r) =
      merge (row.assignment header) (r.assignment (s.specialise row).vars) :=
  JoinStep.assignment_combine hp condition hr (vars_specialise_subset hp condition)

/-- The combined rows of an operand are the solutions of the operand that agree with the row and
satisfy the condition, merged with the row. -/
theorem combine_solutions (hts : ∀ t ∈ ts, ∃ n, t.predicate = .iri n)
    (h : Safe rule E p) (hE : ∀ v ∈ header, v ∈ p.given condition → E v)
    (hr : row.length = header.length)
    (hq : ((JoinStep.ofOperand header p hp condition).specialise row).solutions c =
      ((JoinStep.ofOperand header p hp condition).specialise row).meaning ts) :
    let s := JoinStep.ofOperand header p hp condition
    (((s.specialise row).rows c).map fun r => Row.assignment (header ++ s.fresh)
        ((Layout.ofStep s row (s.specialise row).vars).combine row r) : List Assignment) =
      ((p.meaning ts).bind (Bag.pair (row.assignment header))).filter
        (Satisfies condition.toList) := by
  intro s
  have hexp : ∀ v, ((row.known header (p.given condition)).find? v).isSome → E v := by
    intro v hv
    obtain ⟨t, ht⟩ := Option.isSome_iff_exists.mp hv
    obtain ⟨hg, ht⟩ := Row.find?_known_eq_some.mp ht
    exact hE v ((Row.within_assignment header row).mem ht) hg
  have hsolutions := hq
  rw [specialise_ofOperand, meaning_substitute_conditioned hts h
    (Row.functional_known (p.nodup_given condition)) hexp,
    ← specialise_ofOperand hp] at hsolutions
  calc _ = ((s.specialise row).solutions c).map (merge (row.assignment header)) := by
        rw [solutions, Multiset.map_coe, List.map_map]
        exact congrArg _ (List.map_congr_left fun r _ =>
          assignment_combine_specialise hp condition hr r)
    _ = _ := by
        rw [hsolutions, Bag.map_merge_specialise fun v t ht => (Row.find?_known_eq_some.mp ht).2,
          Bag.filter_bind_pair]
        · intro ν hν
          apply satisfies_congr
          intro e he v hv
          have hg : v ∈ p.given condition := mem_given.mpr (.inr ⟨e, Option.mem_toList.mp he, hv⟩)
          rw [merge, merge, Row.find?_known_of_mem hg]
        · intro ν hν v hv
          have hin := (within_meaning p (Multiset.mem_of_mem_filter hν)).mem (Option.get_mem hv)
          have hg : v ∈ p.given condition := mem_given.mpr (.inl hin)
          exact Row.find?_known_of_mem hg

/-- The rows of a chain from those of its next operand. -/
theorem nestedRows_ofOperands_cons {plan : JoinPlan limit} (hopt : plan.optional = false)
    (answer : Plan → List Row) (hn : header.Nodup) (p : { q : Plan // q.rank < limit })
    (ps : List { q : Plan // q.rank < limit }) (row : Row) :
    let s := JoinStep.ofOperand header p.1 p.2 none
    plan.nestedRows answer (JoinStep.ofOperands header (p :: ps)) row =
      (answer (s.specialise row)).flatMap fun r =>
        plan.nestedRows answer (JoinStep.ofOperands (header ++ s.fresh) ps)
          ((Layout.ofStep s row (s.specialise row).vars).combine row r) := by
  intro s
  rw [JoinStep.ofOperands, JoinPlan.nestedRows, JoinStep.union_fresh hn p.2 none]
  simp [s, hopt]

/-- What an operand has in common with one before it is among the variables it is safe for. -/
def Passes (F : Plan → Variable → Prop) (q q' : Plan) : Prop := ∀ v ∈ q.vars, v ∈ q'.vars → F q' v

section Chain
variable (plan : JoinPlan limit) {final : List Variable} (target : List Variable)
  (hts : ∀ t ∈ ts, ∃ n, t.predicate = .iri n)
  (hq : ∀ q : Plan, q.rank < limit → Safe rule (fun _ => False) q → q.solutions c = q.meaning ts)
include hts hq

/-- What the operands of a chain make of a row is the join of their solutions with it. Each operand
gets the variables that it shares with the row and with the operands before it. -/
theorem nested_solutions (hopt : plan.optional = false)
    (hfin : ∀ r : Row, r.length = final.length →
      (plan.finish r).assignment target = r.assignment final)
    {F : Plan → Variable → Prop} {ps : List { q : Plan // q.rank < limit }}
    (hsafe : ∀ q ∈ ps, Safe rule (F q.1) q.1) (hpass : ps.Pairwise fun q q' => Passes F q.1 q'.1)
    {header : List Variable} (hn : header.Nodup)
    (hhead : ∀ q ∈ ps, ∀ v ∈ header, v ∈ q.1.vars → F q.1 v)
    (hfinal : (ps.map fun q => q.1.vars).foldl Variable.append header = final) (row : Row)
    (hr : row.length = header.length) :
    ((plan.nestedRows (rows c) (JoinStep.ofOperands header ps) row).map
        (Row.assignment target) : List Assignment) =
      (ps.map fun q => q.1.meaning ts).foldl Bag.join {row.assignment header} := by
  induction ps generalizing header row with
  | nil =>
    cases hfinal
    rw [JoinStep.ofOperands, JoinPlan.nestedRows, List.map_singleton, hfin row hr]
    rfl
  | cons p ps ih =>
    let s := JoinStep.ofOperand header p.1 p.2 none
    have happ : Variable.append header p.1.vars = header ++ s.fresh :=
      JoinStep.append_fresh header p.2 none
    have hnext : (header ++ s.fresh).Nodup := happ ▸ Variable.nodup_append hn
    have hsafe' : Safe rule (fun _ => False) (s.specialise row) := by
      rw [specialise_ofOperand]
      exact ((hsafe p (by simp)).specialised _).mono fun _ h => h.elim
    have hfound := combine_solutions p.2 none hts (hsafe p (by simp)) (hhead p (by simp)) hr
      (hq _ (s.rank_specialise_lt row) hsafe')
    obtain ⟨hp, hrest⟩ := List.pairwise_cons.mp hpass
    have hgot : ∀ q ∈ ps, ∀ v ∈ header ++ s.fresh, v ∈ q.1.vars → F q.1 v := by
      intro q hq v hv hvq
      rcases List.mem_append.mp hv with hv | hv
      · exact hhead q (by simp [hq]) v hv hvq
      · exact hp q hq v (List.mem_of_mem_filter hv) hvq
    have hpart (r : Row) := ih (fun q hq => hsafe q (by simp [hq])) hrest hnext hgot
      (by rw [← hfinal, List.map_cons, List.foldl_cons, happ])
      ((Layout.ofStep s row (s.specialise row).vars).combine row r)
      (by rw [JoinStep.length_combine_ofStep, hr, List.length_append])
    calc _ = (((s.specialise row).rows c : List Row) : Multiset Row).bind fun r =>
          (ps.map fun q => q.1.meaning ts).foldl Bag.join
            {Row.assignment (header ++ s.fresh)
              ((Layout.ofStep s row (s.specialise row).vars).combine row r)} := by
          rw [nestedRows_ofOperands_cons hopt (rows c) hn, List.map_flatMap, ← Multiset.coe_bind]
          exact Multiset.bind_congr fun r _ => hpart r
      _ = (ps.map fun q => q.1.meaning ts).foldl Bag.join
          (Bag.join {row.assignment header} (p.1.meaning ts)) := by
          rw [← Bag.bind_foldl_join, Bag.join_singleton]
          have hall : (p.1.meaning ts).bind (Bag.pair (row.assignment header)) =
              ((p.1.meaning ts).bind (Bag.pair (row.assignment header))).filter (Satisfies []) :=
            (Multiset.filter_eq_self.mpr fun μ _ e he => by cases he).symm
          have hbag := hfound.trans hall.symm
          rw [← hbag, ← Multiset.map_coe, Multiset.bind_map]
      _ = _ := by rw [List.map_cons, List.foldl_cons]

/-- A chain joins the rows of its first operand with the solutions of the others. -/
theorem chained_solutions (hopt : plan.optional = false)
    (hfin : ∀ r : Row, r.length = final.length →
      (plan.finish r).assignment target = r.assignment final)
    {F : Plan → Variable → Prop} {ps : List { q : Plan // q.rank < limit }}
    (hsafe : ∀ q ∈ ps, Safe rule (F q.1) q.1) (hpass : ps.Pairwise fun q q' => Passes F q.1 q'.1)
    (hhead : ∀ q ∈ ps, ∀ v ∈ plan.header, v ∈ q.1.vars → F q.1 v)
    (hsteps : plan.steps = JoinStep.ofOperands plan.header ps) (hn : plan.header.Nodup)
    (hfinal : (ps.map fun q => q.1.vars).foldl Variable.append plan.header = final)
    (table : List Row) :
    ((chained plan (rows c) plan.header table).map (Row.assignment target) : List Assignment) =
      (ps.map fun q => q.1.meaning ts).foldl Bag.join
        (table.map (Row.assignment plan.header) : List Assignment) := by
  rw [← Bag.bind_foldl_join, ← Multiset.map_coe (Row.assignment plan.header), Multiset.bind_map,
    chained, List.map_flatMap, ← Multiset.coe_bind]
  apply Multiset.bind_congr
  intro r _
  rw [hsteps, nested_solutions plan target hts hq hopt hfin hsafe hpass hn hhead hfinal _
    (Layout.length_head plan.header r), Layout.assignment_head]

end Chain

/-- Restoring the declared columns does not change the solution. -/
theorem assignment_finish {ps : List Plan} (operands : List Plan) {plan : JoinPlan limit}
    (h : ArrangementOf ps operands plan.projection) (row : Row) :
    (plan.finish row).assignment (join ps).vars =
      row.assignment (Variable.union (operands.map vars)) := by
  have hcols := h.columns
  unfold JoinPlan.finish
  cases hp : plan.projection with
  | none =>
    rw [hp] at hcols
    exact congrArg (Row.assignment · row) hcols.symm
  | some columns =>
    rw [hp] at hcols
    dsimp only at hcols ⊢
    rw [← hcols, Row.assignment_project]
    have hsub := (vars_join_perm h.perm).subset
    exact ((Row.within_assignment _ row).mono hsub).restrict_eq

/-- Whatever the order of the operands, what one shares with another is passed to it. -/
theorem pairwise_passes {ps qs : List Plan} (h : qs.Perm ps) :
    qs.Pairwise (Passes (Passed ps)) := by
  refine List.pairwise_iff_forall_sublist.mpr fun {q q'} hsub v hv hv' => ⟨hv', ?_⟩
  have hle := hsub.countP_le (p := fun q : Plan => decide (v ∈ q.vars))
  rw [h.countP_eq] at hle
  simpa [hv, hv'] using hle

/-- The rows of a join are the solutions of the join, whatever the order of evaluation. -/
theorem solutions_join (hc : c.Holds ts stored) {ps : List Plan}
    (hsafe : ∀ q ∈ ps, Safe rule (Passed ps q) q)
    (hq : ∀ q : Plan, q.rank < (join ps).rank → Safe rule (fun _ => False) q →
      q.solutions c = q.meaning ts) :
    (join ps).solutions c = (join ps).meaning ts := by
  have harr := arrangementOf_arranged c ps
  rw [← map_operandsOf] at harr
  have hjoin := (answers_join hc.toReliable fun q _ => answers_rows hc.toReliable q).rows_eq
    (p := join ps) hc.toReliable
  have hops : ∀ q ∈ operandsOf c ps, Safe rule (Passed ps q.1) q.1 := fun q hq =>
    hsafe q.1 (harr.perm.mem_iff.mp (List.mem_map_of_mem hq))
  have hpass : (operandsOf c ps).Pairwise fun q q' => Passes (Passed ps) q.1 q'.1 :=
    List.pairwise_map.mp (pairwise_passes harr.perm)
  rw [meaning_join, Bag.joinAll_perm (harr.perm.map (meaning ts)).symm, solutions, hjoin]
  generalize operandsOf c ps = operands at *
  cases operands with
  | nil =>
    have hone : identity.solutions c = identity.meaning ts :=
      hq _ (by simp only [rank]; omega) .identity
    have hchain := chained_solutions (joinPlan .identity [] (arranged c ps).2) (join ps).vars hc.iri
      hq rfl (fun r _ => assignment_finish [] harr r) (F := Passed ps) (by simp) .nil (by simp) rfl
      .nil rfl (identity.rows c)
    exact hchain.trans hone
  | cons head rest =>
    obtain ⟨hfirst, hrest⟩ := List.pairwise_cons.mp hpass
    have hhead : head.1.solutions c = head.1.meaning ts :=
      hq _ head.2 ((hops head (by simp)).mono fun _ h => h.elim)
    have hchain := chained_solutions (joinPlan head.1 rest (arranged c ps).2) (join ps).vars hc.iri
      hq rfl (fun r _ => assignment_finish _ harr r)
      (fun q hq => hops q (by simp [hq])) hrest hfirst rfl head.1.nodup_vars
      (union_vars_cons head rest).symm
      (head.1.rows c)
    apply hchain.trans
    rw [List.map_map, List.map_cons, Bag.joinAll, List.foldl_cons, Bag.identity_join]
    exact congrArg (List.foldl Bag.join · _) hhead

/-- The rows of a plan after a table are the rows of the table joined with its solutions. -/
theorem solutions_values (hc : c.Holds ts stored) {vs : List Variable} {table : List Row}
    (hv : vs.Nodup) (hsafe : Safe rule (fun v => v ∈ vs ∧ v ∈ p.vars) p)
    (hq : ∀ q : Plan, q.rank < (values p vs table).rank → Safe rule (fun _ => False) q →
      q.solutions c = q.meaning ts) :
    (values p vs table).solutions c = (values p vs table).meaning ts := by
  have hops : ∀ q ∈ tableOperands p vs table,
      Safe rule (fun v => v ∈ vs ∧ v ∈ q.1.vars) q.1 := by
    intro q hq
    rw [eq_of_mem_tableOperands hq]
    exact hsafe
  have hpass : (tableOperands p vs table).Pairwise fun q q' =>
      Passes (fun q v => v ∈ vs ∧ v ∈ q.vars) q.1 q'.1 := by
    cases p <;> first | exact .nil | exact List.pairwise_singleton ..
  have hchain := chained_solutions (tablePlan p vs table) (values p vs table).vars hc.iri hq rfl
    (fun r _ => rfl) hops hpass (fun q _ v hv hq => ⟨hv, hq⟩) rfl hv (vars_values hv p table) table
  rw [solutions, (answers_values hc.toReliable
    fun q _ => answers_rows hc.toReliable q).rows_eq hc.toReliable]
  apply hchain.trans
  have hmeaning : ((tableOperands p vs table).map fun q => q.1.meaning ts).foldl Bag.join
      (table.map (Row.assignment vs) : List Assignment) =
      Bag.join (table.map (Row.assignment vs) : List Assignment) (p.meaning ts) := by
    cases p <;> first | rfl | exact (Bag.join_identity _).symm
  exact hmeaning

/-- What a left join makes of a left row. -/
theorem leftJoin_block (hc : c.Holds ts stored) (condition : Option Expression)
    (hsafe : Safe rule E r)
    (hq : ∀ q : Plan, q.rank < (leftJoin l r condition).rank → Safe rule (fun _ => False) q →
      q.solutions c = q.meaning ts) (row : Row) (hr : row.length = l.vars.length)
    (hE : ∀ v ∈ l.vars, v ∈ r.given condition → E v := by simp) :
    (((leftJoinPlan l r condition).nestedRows (rows c) (leftJoinPlan l r condition).steps row).map
      (Row.assignment (leftJoin l r condition).vars) : List Assignment) =
      Bag.extend (Satisfies condition.toList) (r.meaning ts) (row.assignment l.vars) := by
  have hlt := rank_lt_leftJoin l r condition
  let s := JoinStep.ofOperand l.vars r hlt condition
  have hsafe' : Safe rule (fun _ => False) (s.specialise row) := by
    rw [specialise_ofOperand]
    exact (safe_conditioned hsafe condition).specialised _
  have hvars : (leftJoin l r condition).vars = l.vars ++ s.fresh :=
    vars_leftJoin_fresh hlt condition
  have hfound := combine_solutions hlt condition hc.iri hsafe hE hr
    (hq _ (s.rank_specialise_lt row) hsafe')
  rw [hvars, Bag.extend, ← hfound]
  have hrows : (leftJoinPlan l r condition).nestedRows (rows c)
      (leftJoinPlan l r condition).steps row =
      ((s.specialise row).rows c).map
        ((Layout.ofStep s row (s.specialise row).vars).combine row ·) ++
      if ((s.specialise row).rows c).isEmpty then [row.extendUnbound s.fresh.length] else [] := by
    rw [List.map_eq_flatMap]
    rfl
  rw [hrows]
  cases hf : (s.specialise row).rows c with
  | nil =>
    have hrow := Row.assignment_extendUnbound hr s.fresh s.fresh.length
    simp [hrow]
  | cons a as =>
    rw [if_neg (by simp), if_neg (by simp), List.append_nil, List.map_map]
    rfl

theorem solutions_leftJoin (hc : c.Holds ts stored) {condition : Option Expression}
    (hl : Safe rule (fun _ => False) l)
    (hsafe : Safe rule (fun v => v ∈ l.vars ∧ v ∈ r.given condition) r)
    (hq : ∀ q : Plan, q.rank < (leftJoin l r condition).rank → Safe rule (fun _ => False) q →
      q.solutions c = q.meaning ts) :
    (leftJoin l r condition).solutions c = (leftJoin l r condition).meaning ts := by
  have hleft : l.solutions c = l.meaning ts := hq l (by simp only [rank]; omega) hl
  rw [solutions, (answers_leftJoin hc.toReliable
    fun q _ => answers_rows hc.toReliable q).rows_eq hc.toReliable, meaning, Bag.leftJoin, ← hleft,
    solutions, ← Multiset.map_coe (Row.assignment l.vars), Multiset.bind_map, chained,
    List.map_flatMap, ← Multiset.coe_bind]
  apply Multiset.bind_congr
  intro row _
  have hblock := leftJoin_block hc condition hsafe hq
    ((Layout.ofHead l.vars l.vars).combine [] row) (Layout.length_head l.vars row)
    fun v hl hr => ⟨hl, hr⟩
  rw [Layout.assignment_head] at hblock
  exact hblock

end Plan
end TripleAlgebra
