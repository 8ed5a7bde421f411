import TripleAlgebra.Proofs.Existence

/-! The rows of a plan are the solutions that it means, in every mode and by every rule. -/
namespace TripleAlgebra.Plan
open Assignment Classical

variable {c : Context} {ts : List Triple} {stored : Pattern → List Row} {p : Plan}
  {E : Variable → Prop}

/-- The evaluators compute the meaning of a plan. -/
theorem solutions_eq_meaning (hc : c.Holds ts stored) (h : Safe c.config.distinct E p) :
    p.solutions c = p.meaning ts := by
  induction p using inductBelow generalizing E with
  | _ p ih =>
    have hlow (q : Plan) (hq : q.rank < p.rank)
        (hs : Safe c.config.distinct (fun _ => False) q) : q.solutions c = q.meaning ts :=
      ih q (.inl hq) hs
    have hown {E : Variable → Prop} (q : Plan) (hq : q ∈ p.children)
        (hs : Safe c.config.distinct E q) : q.solutions c = q.meaning ts :=
      ih q (below_of_mem_children hq) hs
    cases h with
    | triple t => exact solutions_triple hc t
    | identity => exact solutions_identity hc
    | join h =>
      exact solutions_join hc (fun q hq => (h q hq).mono fun v => .inr) hlow
    | @union _ ps h =>
      rw [solutions_union hc, meaning_union]
      apply congrArg
      apply List.map_congr_left
      intro q hq
      exact hown q hq (h q hq)
    | leftJoin hl hr _ =>
      exact solutions_leftJoin hc (hl.mono fun _ h => h.elim) (hr.mono fun v => .inr) hlow
    | filter h _ =>
      rw [solutions_filter hc, meaning, hown _ List.mem_cons_self h]
    | project h =>
      rw [solutions_project hc, meaning, hown _ List.mem_cons_self h]
    | distinct h hr =>
      rw [solutions_distinct hc h.tidy hr, meaning, hown _ List.mem_cons_self h]
    | values h hv => exact solutions_values hc hv (h.mono fun v => .inr) hlow
    | assign h _ =>
      rw [solutions_assign hc h.tidy, meaning, hown _ List.mem_cons_self h]
    | minus hl hr =>
      refine solutions_minus hc hr (fun q hq hs => ?_) (hown _ List.mem_cons_self hl)
      exact hlow q (by simp only [rank]; omega) hs
    | semijoin hp hq _ =>
      have houter := hown _ List.mem_cons_self hp
      refine solutions_semijoin hc (fun q' hq' hs => ?_) hq houter
      exact hlow q' (by simp only [rank]; omega) hs
    | antijoin hp hq _ =>
      have houter := hown _ List.mem_cons_self hp
      refine solutions_antijoin hc (fun q' hq' hs => ?_) hq houter
      exact hlow q' (by simp only [rank]; omega) hs
    | ask h _ =>
      rw [solutions_ask hc, meaning, hown _ List.mem_cons_self h]

end TripleAlgebra.Plan
