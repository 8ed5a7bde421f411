import TripleAlgebra.Proofs.Adequacy
import TripleAlgebra.Proofs.Contents

/-! The rows of a specialised plan, from the rows of the plan. -/
namespace TripleAlgebra
open Assignment Store

namespace Row
variable {vs : List Variable} {rs rs' : List Row}

/-- Rows of a header are determined by what they bind. -/
theorem perm_of_assignments (hn : vs.Nodup) (hr : ∀ r ∈ rs, r.length = vs.length)
    (hr' : ∀ r ∈ rs', r.length = vs.length)
    (h : (rs.map (Row.assignment vs) : Multiset Assignment) = rs'.map (Row.assignment vs)) :
    rs.Perm rs' := by
  have hback (qs : List Row) (hq : ∀ r ∈ qs, r.length = vs.length) :
      (qs.map (Row.assignment vs)).map (ofAssignment vs) = qs := by
    rw [List.map_map]
    exact (List.map_congr_left fun r hm => ofAssignment_assignment hn (hq r hm)).trans
      (List.map_id qs)
  have hperm := (Multiset.coe_eq_coe.mp h).map (ofAssignment vs)
  rwa [hback rs hr, hback rs' hr'] at hperm

end Row

namespace Substitution

/-- Each substituted variable is unbound in the row or has its term. -/
def agrees (s : Substitution) (header : List Variable) (r : Row) : Bool :=
  (header.zip r).all fun (v, x) => (s.find? v).all fun t => x.all (· = t)

/-- The row without the columns of the substituted variables. -/
def drop (s : Substitution) (header : List Variable) (r : Row) : Row :=
  ((header.zip r).filter fun (v, _) => (s.find? v).isNone).map (·.2)

variable {s : Substitution} {header : List Variable} {r : Row}

theorem zip_eq (hn : header.Nodup) (hr : r.length = header.length) :
    header.zip r = header.map fun v => (v, r.assignment header v) := by
  conv_lhs => rw [← Row.ofAssignment_assignment hn hr, Row.ofAssignment]
  exact List.map_prod_left_eq_zip.symm

theorem agrees_iff (hn : header.Nodup) (hr : r.length = header.length) :
    s.agrees header r ↔ Compatible s.find? (r.assignment header) := by
  simp only [agrees, zip_eq hn hr, List.all_map, List.all_eq_true, Function.comp_apply,
    Option.all_eq_true, decide_eq_true_eq]
  constructor
  · intro h v t u ht hu
    exact (h v ((Row.within_assignment header r).mem hu) t ht u hu).symm
  · intro h v _ t ht u hu
    exact (h v t u ht hu).symm

theorem drop_eq (hn : header.Nodup) (hr : r.length = header.length) :
    s.drop header r = Row.ofAssignment (s.remaining header) (r.assignment header) := by
  rw [drop, zip_eq hn hr, List.filter_map, List.map_map]
  rfl

theorem assignment_drop (hn : header.Nodup) (hr : r.length = header.length) :
    (s.drop header r).assignment (s.remaining header) = without s.find? (r.assignment header) := by
  rw [drop_eq hn hr, Row.assignment_ofAssignment]
  exact Plan.restrict_remaining (Row.within_assignment header r)

end Substitution

namespace Plan

/-- Specialising a plan keeps the rows that agree with what is substituted and drops the columns of
the substituted variables. -/
theorem bind_filters_rows (s : Contents) (config : Config) {p : Plan}
    (h : p.BindSafe config.distinct) {vs : List Variable} (hv : vs.Nodup)
    (values : List (Option Term)) :
    let bound := Substitution.ofValues vs values
    ∃ specialised rows, (p.bind vs values).collect (s.context config) = .ok specialised ∧
      p.collect (s.context config) = .ok rows ∧
      (p.bind vs values).vars = bound.remaining p.vars ∧
      specialised.Perm ((rows.filter (bound.agrees p.vars)).map (bound.drop p.vars)) := by
  classical
  intro bound
  have hc := s.holds config
  have hsafe : Safe config.distinct (fun _ => True) p := h.safe
  have hrows := collect_eq_rows hc.toReliable
  have hfun : bound.Functional := Substitution.functional_ofValues hv values
  have hheader : (p.bind vs values).vars = bound.remaining p.vars := vars_substitute p bound
  have hwidth : ∀ r ∈ p.rows (s.context config), r.length = p.vars.length := fun r hr =>
    length_of_mem_rows hc.toReliable hc.width hsafe.tidy hr
  refine ⟨_, _, hrows _, hrows _, hheader, ?_⟩
  refine Row.perm_of_assignments (p.bind vs values).nodup_vars
    (fun r hr => length_of_mem_rows hc.toReliable hc.width (hsafe.specialised bound).tidy hr)
    (fun r hr => ?_) ?_
  · obtain ⟨r', hr', rfl⟩ := List.mem_map.mp hr
    rw [Substitution.drop_eq p.nodup_vars (hwidth r' (List.mem_of_mem_filter hr')), hheader]
    exact Row.length_ofAssignment _ _
  · have hleft : (p.bind vs values).solutions (s.context config) =
        Bag.specialise bound.find? (p.solutions (s.context config)) := by
      rw [solutions_eq_meaning hc hsafe]
      exact (solutions_eq_meaning hc (hsafe.specialised bound)).trans
        (hsafe.specialises hc.iri bound hfun fun _ _ => trivial)
    apply hleft.trans
    rw [Bag.specialise, solutions, Multiset.filter_coe, Multiset.map_coe, List.filter_map,
      List.map_map, List.map_map, hheader]
    have hkept : (p.rows (s.context config)).filter (bound.agrees p.vars) =
        (p.rows (s.context config)).filter
          ((fun μ => decide (Compatible bound.find? μ)) ∘ Row.assignment p.vars) := by
      refine List.filter_congr fun r hr => Bool.eq_iff_iff.mpr ?_
      rw [Substitution.agrees_iff p.nodup_vars (hwidth r hr)]
      simp
    rw [hkept]
    apply congrArg
    apply List.map_congr_left
    intro r hr
    exact (Substitution.assignment_drop p.nodup_vars
      (hwidth r (List.mem_of_mem_filter hr))).symm

/-- An optional edge is specialised at its end, which rows may leave unbound. -/
theorem bind_filters_optional_edge :
    let p := leftJoin (edge (.var ⟨"x"⟩) (.var ⟨"y"⟩)) (edge (.var ⟨"y"⟩) (.var ⟨"z"⟩)) none
    let bound := Substitution.ofValues [⟨"z"⟩] [some (.iri "c")]
    p.BindSafe .all ∧ [(⟨"z"⟩ : Variable)].Nodup ∧
    ∃ specialised rows, (p.bind [⟨"z"⟩] [some (.iri "c")]).collect (Contents.path.context {}) =
        .ok specialised ∧ p.collect (Contents.path.context {}) = .ok rows ∧
      specialised.Perm ((rows.filter (bound.agrees p.vars)).map (bound.drop p.vars)) := by
  intro p bound
  have hsafe : p.BindSafe .all := .leftJoin (.triple _) (.triple _) (by simp)
  have hnodup : [(⟨"z"⟩ : Variable)].Nodup := by simp
  obtain ⟨specialised, rows, hspecialised, hrows, -, hperm⟩ :=
    bind_filters_rows Contents.path {} hsafe hnodup [some (.iri "c")]
  exact ⟨hsafe, hnodup, specialised, rows, hspecialised, hrows, hperm⟩

end Plan
end TripleAlgebra
