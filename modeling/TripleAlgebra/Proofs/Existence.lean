import TripleAlgebra.Proofs.Difference
import TripleAlgebra.Proofs.RowSolutions

/-! Tests for the existence of solutions: for each row of an outer plan, or once. -/
namespace TripleAlgebra
open Assignment Classical

theorem Row.map_value_range {vs : List Variable} (hn : vs.Nodup) (row : Row) :
    (List.range vs.length).map row.value = vs.map (row.assignment vs) := by
  apply List.ext_getElem?
  intro i
  rw [List.getElem?_map, List.getElem?_map]
  cases hv : vs[i]? with
  | none =>
    have hlen : vs.length ≤ i := List.getElem?_eq_none_iff.mp hv
    rw [List.getElem?_eq_none (by simpa using hlen)]
    rfl
  | some v =>
    have hlt : i < vs.length := (List.getElem?_eq_some_iff.mp hv).1
    have hvalue := Row.assignment_apply (Variable.column?_of_getElem? hn hv) row
    rw [List.getElem?_range hlt, Option.map_some, Option.map_some, hvalue]

namespace Plan
variable {c : Context} {ts : List Triple} {stored : Pattern → List Row} {p q : Plan}
  {rule : DuplicateRule} {E : Variable → Prop}

theorem rows_semijoin (hc : c.Reliable stored) (p q : Plan) :
    (semijoin p q).rows c = (p.rows c).filter fun row =>
      !((q.bind p.vars ((List.range p.vars.length).map row.value)).rows c).isEmpty := by
  rw [((answers_rows hc p).semijoin hc fun q' _ => answers_rows hc q').rows_eq hc]
  simp

theorem rows_antijoin (hc : c.Reliable stored) (p q : Plan) :
    (antijoin p q).rows c = (p.rows c).filter fun row =>
      ((q.bind p.vars ((List.range p.vars.length).map row.value)).rows c).isEmpty := by
  rw [((answers_rows hc p).antijoin hc fun q' _ => answers_rows hc q').rows_eq hc]
  simp

/-- A plan specialised by a whole row has solutions if one of the plan agrees with the row. -/
theorem exists_row_iff (hts : ∀ t ∈ ts, ∃ n, t.predicate = .iri n) (hsafe : Safe rule E q)
    (hq : ∀ q' : Plan, q'.rank ≤ q.rank → Safe rule (fun _ => False) q' →
      q'.solutions c = q'.meaning ts) {header : List Variable} (hn : header.Nodup)
    (hE : ∀ v ∈ header, E v) (row : Row) :
    (!((q.bind header ((List.range header.length).map row.value)).rows c).isEmpty) = true ↔
      Bag.Meets (q.meaning ts) (row.assignment header) := by
  have hknown : (row.known header header).find? = row.assignment header := by
    rw [Row.find?_known, (Row.within_assignment header row).restrict_eq]
  have hexp (v : Variable) (hv : ((row.known header header).find? v).isSome) : E v := by
    rw [hknown] at hv
    exact hE v ((Row.within_assignment header row).mem (Option.get_mem hv))
  have hfound : (substitute (row.known header header) q).solutions c =
      Bag.specialise (row.assignment header) (q.meaning ts) := by
    rw [hq _ (rank_substitute_le q _) ((hsafe.specialised _).mono fun _ h => h.elim),
      hsafe.specialises hts _ (Row.functional_known hn) hexp, hknown]
  rw [Row.map_value_range hn, bind_map_assignment, Bool.not_eq_true',
    List.isEmpty_eq_false_iff_exists_mem]
  calc (∃ r, r ∈ (substitute (row.known header header) q).rows c)
      ↔ ∃ ν, ν ∈ (substitute (row.known header header) q).solutions c := by simp [solutions]
    _ ↔ ∃ ν, ν ∈ Bag.specialise (row.assignment header) (q.meaning ts) := by rw [hfound]
    _ ↔ Bag.Meets (q.meaning ts) (row.assignment header) := by
      simp only [Bag.mem_specialise, Bag.Meets]
      constructor
      · rintro ⟨_, ν, hν, hc, rfl⟩
        exact ⟨ν, hν, hc⟩
      · rintro ⟨ν, hν, hc⟩
        exact ⟨_, ν, hν, hc, rfl⟩

section Tests
variable (hc : c.Holds ts stored)
  (hq : ∀ q' : Plan, q'.rank ≤ q.rank → Safe rule (fun _ => False) q' →
    q'.solutions c = q'.meaning ts)
include hc hq

theorem solutions_semijoin (hsafe : Safe rule (fun v => E v ∨ v ∈ p.vars) q)
    (hp : p.solutions c = p.meaning ts) :
    (semijoin p q).solutions c = (semijoin p q).meaning ts := by
  rw [solutions, rows_semijoin hc.toReliable, meaning, Bag.semijoin, ← hp, solutions,
    Multiset.filter_coe, List.filter_map]
  refine congrArg _ (congrArg _ (List.filter_congr fun row _ => ?_))
  rw [Bool.eq_iff_iff, Function.comp_apply, decide_eq_true_eq]
  exact exists_row_iff hc.iri hsafe hq p.nodup_vars (fun v => .inr) row

theorem solutions_antijoin (hsafe : Safe rule (fun v => E v ∨ v ∈ p.vars) q)
    (hp : p.solutions c = p.meaning ts) :
    (antijoin p q).solutions c = (antijoin p q).meaning ts := by
  rw [solutions, rows_antijoin hc.toReliable, meaning, Bag.antijoin, ← hp, solutions,
    Multiset.filter_coe, List.filter_map]
  refine congrArg _ (congrArg _ (List.filter_congr fun row _ => ?_))
  rw [Bool.eq_iff_iff, Function.comp_apply, decide_eq_true_eq, ← not_iff_not, Bool.not_eq_true,
    ← Bool.not_eq_true']
  exact (exists_row_iff hc.iri hsafe hq p.nodup_vars (fun v => .inr) row).trans not_not.symm

end Tests

theorem solutions_ask (hc : c.Holds ts stored) (p : Plan) :
    (ask p).solutions c = Bag.ask (p.solutions c) := by
  rw [solutions, ((answers_rows hc.toReliable p).ask hc.toReliable).rows_eq hc.toReliable,
    solutions]
  cases p.rows c <;> rfl

end Plan
end TripleAlgebra
