import TripleAlgebra.Proofs.JoinSolutions

/-! The solutions that operators find which treat the rows of their operands one by one. -/
namespace TripleAlgebra
open Assignment Classical

namespace Row
variable {vs : List Variable}

theorem assignment_withValue {r : Row} (h : r.length = vs.length) (v : Variable)
    (x : Option Term) :
    (r.withValue ((Variable.column? vs v).getD vs.length) x).assignment (Variable.append vs [v]) =
      Function.update (r.assignment vs) v x := by
  rw [Variable.append_eq_filter (by simp)]
  unfold withValue
  cases hv : Variable.column? vs v with
  | some i =>
    have hlt : i < r.length := h ▸ Variable.column?_lt hv
    simp only [Option.getD_some, if_pos hlt, List.filter_cons, hv, Option.isNone_some,
      Bool.false_eq_true, if_false, List.filter_nil, List.append_nil]
    rw [assignment_set hv h]
    funext w
    by_cases hw : w = v <;> simp [hw]
  | none =>
    have hnot : ¬(Option.none.getD vs.length < r.length) := by simp [h]
    rw [if_neg hnot]
    simp only [List.filter_cons, hv, Option.isNone_none, if_true, List.filter_nil]
    rw [assignment_append h]
    have hin := Variable.column?_eq_none.mp hv
    funext w
    by_cases hw : w = v
    · subst hw
      simp [hin, assignment_cons]
    · have hwithin := within_assignment vs r w
      by_cases hm : w ∈ vs
      · simp [hm, hw]
      · simp [hm, hw, hwithin hm, assignment_cons, Ne.symm hw, Assignment.empty]

end Row

namespace RowSet

/-- Comparison with all accepted rows keeps each row once. -/
theorem select_all (members rows : List Row) :
    ((all members).select rows).Nodup ∧
      ∀ r, r ∈ (all members).select rows ↔ r ∈ rows ∧ r ∉ members := by
  induction rows generalizing members with
  | nil => exact ⟨.nil, by simp [select]⟩
  | cons a rows ih =>
    simp only [select, insert]
    by_cases ha : a ∈ members
    · rw [if_pos ha]
      obtain ⟨hn, hm⟩ := ih members
      refine ⟨hn, fun r => ?_⟩
      rw [hm r, List.mem_cons]
      refine ⟨fun h => ⟨.inr h.1, h.2⟩, ?_⟩
      rintro ⟨rfl | h, hr⟩
      · exact absurd ha hr
      · exact ⟨h, hr⟩
    · rw [if_neg ha]
      obtain ⟨hn, hm⟩ := ih (a :: members)
      refine ⟨List.nodup_cons.mpr ⟨fun h => ((hm a).mp h).2 (by simp), hn⟩, fun r => ?_⟩
      rw [List.mem_cons, hm r, List.mem_cons, List.mem_cons, not_or]
      constructor
      · rintro (rfl | ⟨h, _, hr⟩)
        · exact ⟨.inl rfl, ha⟩
        · exact ⟨.inr h, hr⟩
      · rintro ⟨rfl | h, hr⟩
        · exact .inl rfl
        · by_cases he : r = a
          · exact .inl he
          · exact .inr ⟨h, he, hr⟩

end RowSet

namespace Plan
variable {c : Context} {ts : List Triple} {stored : Pattern → List Row} {p l r : Plan}
  {rule : DuplicateRule}

section Rows
variable (hc : c.Holds ts stored)
include hc

theorem solutions_triple (t : Pattern) :
    (triple t).solutions c = (triple t).meaning ts := by
  rw [solutions, (answers_triple hc.toReliable t).rows_eq hc.toReliable]
  exact hc.solutions t

theorem solutions_identity : identity.solutions c = identity.meaning ts := by
  rw [solutions, (answers_identity hc.toReliable).rows_eq hc.toReliable]
  rfl

theorem solutions_union (ps : List Plan) :
    (union ps).solutions c = (ps.map (solutions c)).sum := by
  rw [solutions, (answers_union hc.toReliable
    fun q _ => answers_rows hc.toReliable q).rows_eq hc.toReliable]
  have hpart (header : List Variable) (q : Plan) (hq : q.vars ⊆ header) :
      ((if Variable.isIdentity (Variable.columns q.vars header) q.vars.length then q.rows c
        else (q.rows c).map (·.project (Variable.columns q.vars header))).map
          (Row.assignment header) : List Assignment) = q.solutions c := by
    split
    · rename_i hid
      rw [Variable.eq_of_isIdentity hid]
      rfl
    · rw [List.map_map]
      apply congrArg
      apply List.map_congr_left
      intro r _
      rw [Function.comp_apply, Row.assignment_project]
      exact ((Row.within_assignment q.vars r).mono hq).restrict_eq
  have hsub : ∀ q ∈ ps, q.vars ⊆ (union ps).vars := fun q hq v hv => mem_vars_union.mpr ⟨q, hq, hv⟩
  generalize (union ps).vars = header at hsub
  induction ps with
  | nil => rfl
  | cons q ps ih =>
    rw [List.flatMap_cons, List.map_append, ← Multiset.coe_add, List.map_cons, List.sum_cons,
      ih fun q hq => hsub q (by simp [hq])]
    exact congrArg (· + _) (hpart header q (hsub q (by simp)))

theorem solutions_filter (p : Plan) (cs : List Expression) :
    (filter p cs).solutions c = (p.solutions c).filter (Satisfies cs) := by
  rw [solutions, ((answers_rows hc.toReliable p).filter hc.toReliable cs).rows_eq hc.toReliable,
    solutions, Multiset.filter_coe, List.filter_map]
  refine congrArg _ (congrArg _ (List.filter_congr fun r _ => ?_))
  rw [Bool.eq_iff_iff, List.all_eq_true, Function.comp_apply, decide_eq_true_eq]
  rfl

theorem solutions_project (p : Plan) (vs : List Variable) :
    (project p vs).solutions c = (p.solutions c).map (restrict vs) := by
  rw [solutions, ((answers_rows hc.toReliable p).project hc.toReliable vs).rows_eq hc.toReliable,
    solutions, Multiset.map_coe, List.map_map]
  have hrestrict (r : Row) : restrict (project p vs).vars (r.assignment p.vars) =
      restrict vs (r.assignment p.vars) := by
    funext v
    simp [restrict, mem_vars_project]
  split
  · rename_i hid
    apply congrArg
    apply List.map_congr_left
    intro r _
    rw [Function.comp_apply, ← hrestrict, Variable.eq_of_isIdentity hid.2]
    exact (Row.within_assignment p.vars r).restrict_eq.symm
  · rw [List.map_map]
    apply congrArg
    apply List.map_congr_left
    intro r _
    rw [Function.comp_apply, Function.comp_apply, Row.assignment_project, hrestrict]

theorem solutions_assign (hp : Tidy p) (v : Variable) (e : Expression) :
    (assign p v e).solutions c =
      (p.solutions c).map fun μ => Function.update μ v (e.eval μ).toOption := by
  rw [solutions, ((answers_rows hc.toReliable p).assign hc.toReliable v e).rows_eq hc.toReliable,
    solutions, Multiset.map_coe, List.map_map, List.map_map]
  apply congrArg
  apply List.map_congr_left
  intro r hr
  rw [Function.comp_apply, vars_assign]
  exact Row.assignment_withValue (length_of_mem_rows hc.toReliable hc.width hp hr) _ _

theorem solutions_distinct (hp : Tidy p) (hr : c.config.distinct = .all) :
    (distinct p).solutions c = (p.solutions c).dedup := by
  rw [solutions, ((answers_rows hc.toReliable p).distinct hc.toReliable).rows_eq hc.toReliable, hr]
  obtain ⟨hn, hm⟩ := RowSet.select_all [] (p.rows c)
  have hmem (r : Row) : r ∈ (RowSet.ofRule .all).select (p.rows c) ↔ r ∈ p.rows c := by
    simpa [RowSet.ofRule] using hm r
  have hwidth (r : Row) (h : r ∈ p.rows c) : r.length = p.vars.length :=
    length_of_mem_rows hc.toReliable hc.width hp h
  have hdup : (((RowSet.ofRule .all).select (p.rows c)).map (Row.assignment p.vars)).Nodup :=
    hn.map_on fun r h r' h' he => Row.assignment_injective p.nodup_vars
      (hwidth r ((hmem r).mp h)) (hwidth r' ((hmem r').mp h')) he
  apply (Multiset.Nodup.ext (Multiset.coe_nodup.mpr hdup) (Multiset.nodup_dedup _)).mpr
  intro μ
  simp only [Multiset.mem_coe, List.mem_map, hmem, Multiset.mem_dedup, solutions]

end Rows

end Plan
end TripleAlgebra
