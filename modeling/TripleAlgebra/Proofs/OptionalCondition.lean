import TripleAlgebra.Proofs.Exposed
import TripleAlgebra.Proofs.OptionalRows

/-! What a condition of an optional join does beside filtering: the values of its variables are
substituted into the right side. -/
namespace TripleAlgebra
open Assignment Store Classical

namespace Assignment
variable {μ σ : Assignment}

/-- The merges of an assignment with those of others that agree with it. -/
noncomputable def mergesWith (μ : Assignment) (νs : List Assignment) : List Assignment :=
  (νs.filter (Compatible μ)).map (merge μ)

theorem compatible_without_iff {ν : Assignment} (h : ∀ v t, σ v = some t → μ v = some t) :
    Compatible μ (without σ ν) ∧ Compatible σ ν ↔ Compatible μ ν := by
  constructor
  · rintro ⟨hμ, hσ⟩ v t u ht hu
    cases hv : σ v with
    | none => exact hμ v t u ht ((without_apply_none hv).trans hu)
    | some w =>
      cases ht.symm.trans (h v w hv)
      exact hσ v _ u hv hu
  · intro hμ
    refine ⟨fun v t u ht hu => ?_, fun v t u ht hu => hμ v t u (h v t ht) hu⟩
    exact hμ v t u ht (without_eq_some.mp hu).2

/-- To specialise by a part of an assignment first changes none of the merges. -/
theorem mergesWith_specialised (h : ∀ v t, σ v = some t → μ v = some t) (νs : List Assignment) :
    mergesWith μ ((νs.filter (Compatible σ)).map (without σ)) = mergesWith μ νs := by
  have hfilter : (νs.filter (Compatible σ)).filter
      ((fun ν => decide (Compatible μ ν)) ∘ without σ) = νs.filter (Compatible μ) := by
    rw [List.filter_filter]
    refine List.filter_congr fun ν _ => Bool.eq_iff_iff.mpr ?_
    simpa using compatible_without_iff h
  rw [mergesWith, List.filter_map, List.map_map, hfilter]
  exact List.map_congr_left fun ν _ => merge_without_left h

end Assignment

namespace Plan
variable {c : Context} {stored : Pattern → List Row} {l r p : Plan} {μ : Assignment}
  {s : Substitution}

/-- What the rows of a plan bind, in their order. -/
def found (c : Context) (p : Plan) : List Assignment := (p.rows c).map (Row.assignment p.vars)

section
variable (hc : c.Reliable stored)
include hc

theorem found_filter (p : Plan) (es : List Expression) :
    (filter p es).found c = (p.found c).filter (Satisfies es) := by
  rw [found, rows_filter hc, found, List.filter_map]
  refine congrArg _ (List.filter_congr fun q _ => Bool.eq_iff_iff.mpr ?_)
  rw [Function.comp_apply, decide_eq_true_eq]
  exact List.all_eq_true

theorem found_project (p : Plan) (vs : List Variable) :
    (project p vs).found c = (p.found c).map (restrict vs) := by
  have hrestrict (μ : Assignment) : restrict (project p vs).vars μ = restrict vs μ := by
    funext v
    simp [restrict, mem_vars_project]
  rw [found, found, ((answers_rows hc p).project hc vs).rows_eq hc, List.map_map]
  split
  · rename_i hid
    refine List.map_congr_left fun q _ => ?_
    rw [Function.comp_apply, ← hrestrict, Variable.eq_of_isIdentity hid.2,
      (Row.within_assignment p.vars q).restrict_eq]
  · rw [List.map_map]
    refine List.map_congr_left fun q _ => ?_
    rw [Function.comp_apply, Function.comp_apply, Row.assignment_project, hrestrict]

theorem found_checkAfter (hs : s.Functional) (p : Plan) :
    (checkAfter s p).found c =
      ((p.found c).filter (Compatible s.find?)).map (without s.find?) := by
  rw [checkAfter, found_project hc, found_filter hc,
    List.filter_congr fun ν _ => decide_eq_decide.mpr (satisfies_unboundOrSame hs ν)]
  refine List.map_congr_left fun ν hν => restrict_remaining ?_
  obtain ⟨q, -, rfl⟩ := List.mem_map.mp (List.mem_of_mem_filter hν)
  exact Row.within_assignment p.vars q

/-- What is checked on the rows of a specialised plan makes no difference to their merges. -/
theorem mergesWith_substitute (hs : s.Functional) (h : ∀ v t, s.find? v = some t → μ v = some t)
    (p : Plan) :
    mergesWith μ ((substitute s p).found c) = mergesWith μ ((p.pushed s (p.early s)).found c) := by
  rw [substitute_eq]
  split
  · rfl
  · rw [found_checkAfter hc (functional_late p hs)]
    exact mergesWith_specialised (fun v t ht => h v t (find?_of_late ht)) _

end

/-! The matches of a left row. -/

/-- The columns of a left row. A table that lists a variable twice has rows with more columns. -/
def wholeRow (l : Plan) (row : Row) : Row := row.project (Variable.columns l.vars l.vars)

/-- The rows of the right side of an optional join that are joined to a left row. -/
def optionalMatches (c : Context) (l r : Plan) (condition : Option Expression) (row : Row) :
    List Row :=
  let s := JoinStep.ofOperand l.vars r (rank_lt_leftJoin l r condition) condition
  let right := s.specialise (l.wholeRow row)
  (right.rows c).map ((Layout.ofStep s (l.wholeRow row) right.vars).combine (l.wholeRow row))

/-- The matches of a left row, or the row with the other columns unbound if there is none. -/
def orUnmatched (l r : Plan) (row : Row) (found : List Row) : List Row :=
  if found.isEmpty then
    [(l.wholeRow row).extendUnbound
      (r.vars.filter fun v => (Variable.column? l.vars v).isNone).length]
  else found

theorem rows_leftJoin (hc : c.Reliable stored) (l r : Plan) (condition : Option Expression) :
    (leftJoin l r condition).rows c =
      (l.rows c).flatMap fun row => orUnmatched l r row (optionalMatches c l r condition row) := by
  rw [(answers_leftJoin hc fun q _ => answers_rows hc q).rows_eq hc]
  refine List.flatMap_congr fun row _ => ?_
  let step := JoinStep.ofOperand l.vars r (rank_lt_leftJoin l r condition) condition
  have hblock (whole : Row) :
      (leftJoinPlan l r condition).nestedRows (rows c) [step] whole =
        ((step.specialise whole).rows c).map
            ((Layout.ofStep step whole (step.specialise whole).vars).combine whole) ++
          if ((step.specialise whole).rows c).isEmpty then
            [whole.extendUnbound step.fresh.length]
          else [] := by
    rw [List.map_eq_flatMap]
    rfl
  have hmatches : optionalMatches c l r condition row =
      ((step.specialise (l.wholeRow row)).rows c).map
        ((Layout.ofStep step (l.wholeRow row) (step.specialise (l.wholeRow row)).vars).combine
          (l.wholeRow row)) := rfl
  refine (hblock (l.wholeRow row)).trans ?_
  rw [orUnmatched, hmatches]
  cases (step.specialise (l.wholeRow row)).rows c with
  | nil => rfl
  | cons q qs => exact List.append_nil _

theorem assignment_wholeRow (l : Plan) (row : Row) :
    (l.wholeRow row).assignment l.vars = row.assignment l.vars := by
  rw [wholeRow, Row.assignment_project, (Row.within_assignment l.vars row).restrict_eq]

theorem optionalMatches_eq (l r : Plan) (condition : Option Expression) (row : Row) :
    optionalMatches c l r condition row =
      ((substitute (row.known l.vars (r.given condition)) (r.conditioned condition)).found c).map
        fun ν => Row.ofAssignment (leftJoin l r none).vars (merge (row.assignment l.vars) ν) := by
  have hlt := rank_lt_leftJoin l r condition
  let step := JoinStep.ofOperand l.vars r hlt condition
  let whole := l.wholeRow row
  have hwhole : whole.length = l.vars.length := by simp [whole, wholeRow, Variable.columns]
  have hheader : (leftJoin l r none).vars = l.vars ++ step.fresh :=
    vars_leftJoin_fresh hlt condition
  have hplan : step.specialise whole =
      substitute (row.known l.vars (r.given condition)) (r.conditioned condition) := by
    rw [specialise_ofOperand, Row.known, assignment_wholeRow]
    rfl
  have hcombine (q : Row) :
      (Layout.ofStep step whole (step.specialise whole).vars).combine whole q =
        Row.ofAssignment (leftJoin l r none).vars
          (merge (row.assignment l.vars) (q.assignment (step.specialise whole).vars)) := by
    rw [← assignment_wholeRow, ← assignment_combine_specialise hlt condition hwhole, ← hheader,
      Row.ofAssignment_assignment (nodup_vars _)]
    rw [hheader, JoinStep.length_combine_ofStep, hwhole, List.length_append]
  rw [← hplan, found, List.map_map]
  exact List.map_congr_left fun q _ => hcombine q

/-- A plan specialised by what an assignment says about some variables, apart from those that the
plan may leave unbound. -/
def specialisedFor (μ : Assignment) (vs : List Variable) (p : Plan) : Plan :=
  p.bind (vs.filter (!p.maybeUnbound ·)) ((vs.filter (!p.maybeUnbound ·)).map μ)

theorem defers_filter (r : Plan) (es : List Expression) (v : Variable) :
    (filter r es).defers v = r.maybeUnbound v :=
  Bool.or_false _

theorem substitute_early_filter (r : Plan) (e : Expression) (header vs : List Variable)
    (row : Row) :
    substitute ((filter r [e]).early (row.known header vs)) r =
      r.specialisedFor (row.assignment header) vs := by
  simp only [early_known, defers_filter, specialisedFor, bind_map_assignment]

section
variable {header names : List Variable} {row : Row}

/-- A plan that is specialised by what a row says about all its variables has no rows that disagree
with the row. -/
theorem mergesWith_known (h : p.vars ⊆ names) :
    mergesWith (row.assignment header) ((substitute (row.known header names) p).found c) =
      ((substitute (row.known header names) p).found c).map (merge (row.assignment header)) := by
  rw [mergesWith, List.filter_eq_self.mpr]
  intro ν hν
  rw [decide_eq_true_eq]
  intro v t u ht hu
  obtain ⟨q, -, rfl⟩ := List.mem_map.mp hν
  have hin := (Row.within_assignment _ q).mem hu
  obtain ⟨hv, hnone⟩ := mem_vars_of_substitute hin
  rw [Row.find?_known_of_mem (h hv), ht] at hnone
  cases hnone

end

section
variable (hc : c.Reliable stored)
include hc

/-- With a condition, the matches are those rows of a specialised right side that agree with the
left row and satisfy the condition together with it. -/
theorem matches_condition (l r : Plan) (e : Expression) (row : Row) :
    optionalMatches c l r (some e) row =
      ((mergesWith (row.assignment l.vars)
        ((r.specialisedFor (row.assignment l.vars) (r.given (some e))).found c)).filter
          fun ν => e.holds ν).map (Row.ofAssignment (leftJoin l r none).vars) := by
  let μ := row.assignment l.vars
  let σ := row.known l.vars (r.given (some e))
  have hgiven : (filter r [e]).vars ⊆ r.given (some e) := fun v hv => mem_given.mpr (.inl hv)
  have hfunctional : σ.Functional := Row.functional_known (Variable.nodup_union _)
  have hpushed : (filter r [e]).pushed σ ((filter r [e]).early σ) =
      filter (r.specialisedFor μ (r.given (some e))) [e.substitute σ.find?] := by
    rw [pushed, substitute_early_filter]
    rfl
  have hholds (ν : Assignment) :
      decide (Satisfies [e.substitute σ.find?] ν) = e.holds (merge μ ν) := by
    have hvalue : ∀ v ∈ e.vars, merge σ.find? ν v = merge μ ν v := fun v hv => by
      rw [merge, merge, Row.find?_known_of_mem (mem_given.mpr (.inr ⟨e, rfl, hv⟩))]
    simp [Satisfies, Expression.holds_substitute, Expression.holds_congr hvalue]
  have hmerges : ((substitute σ (filter r [e])).found c).map (merge μ) =
      (mergesWith μ ((r.specialisedFor μ (r.given (some e))).found c)).filter
        fun ν => e.holds ν := by
    rw [← mergesWith_known hgiven, mergesWith_substitute hc hfunctional fun v t h =>
      (Row.find?_known_eq_some.mp h).2, hpushed, found_filter hc, mergesWith, mergesWith,
      List.filter_map, List.filter_comm]
    simp only [hholds]
    rfl
  rw [optionalMatches_eq, ← hmerges, List.map_map]
  rfl

end

/-- The values that a condition brings into the right side of an optional join meet nothing there
but the condition itself. -/
structure ConditionApart (l r : Plan) (e : Expression) : Prop where
  /-- Variables of the condition and the left side only have no place in the right side. -/
  exposed : ∀ v ∈ e.vars, v ∈ l.vars → v ∈ r.exposed → v ∈ r.vars
  /-- A filter on the right side looks at no variable of the left side that its rows may leave
  unbound. -/
  bound : ∀ p es, r = .filter p es → ∀ f ∈ es, ∀ v ∈ f.vars, v ∈ l.vars → p.maybeUnbound v = false

namespace ConditionApart
variable {e : Expression}

/-- What is substituted for variables of the condition alone changes nothing on the right side. -/
theorem substitute_given (h : ConditionApart l r e) (row : Row) :
    substitute (row.known l.vars (r.given (some e))) r =
      substitute (row.known l.vars r.vars) r := by
  have hrestrict : (row.known l.vars (r.given (some e))).restrict r.exposed =
      (row.known l.vars r.vars).restrict r.exposed := by
    have hgiven : r.given (some e) =
        r.vars ++ e.vars.filter fun v => (Variable.column? r.vars v).isNone := by
      have hn : e.vars.Nodup := Variable.nodup_append .nil
      rw [given, Variable.union_pair r.nodup_vars, Variable.append_eq_filter hn]
    have hnone : Substitution.restrict (row.known l.vars
        (e.vars.filter fun v => (Variable.column? r.vars v).isNone)) r.exposed = [] := by
      refine List.filter_eq_nil_iff.mpr fun x hx => ?_
      obtain ⟨v, hv, hx⟩ := List.mem_filterMap.mp hx
      obtain ⟨t, ht, rfl⟩ := Option.map_eq_some_iff.mp hx
      obtain ⟨he, hr⟩ := List.mem_filter.mp hv
      have hl : v ∈ l.vars := (Row.within_assignment l.vars row).mem ht
      have hnot : v ∉ r.vars := by simpa using hr
      simpa using fun hexposed => hnot (h.exposed v he hl hexposed)
    rw [hgiven, Row.known, List.filterMap_append, Substitution.restrict, List.filter_append]
    exact (congrArg _ hnone).trans (List.append_nil _)
  have hsubset := List.Subset.refl r.exposed
  rw [substitute, ← substitute?_restrict r hsubset, hrestrict, substitute?_restrict r hsubset,
    substitute]

/-- Only the conditions of a filter see what is not pushed below it. -/
theorem pushed_given (h : ConditionApart l r e) (row : Row) (s : Substitution) :
    r.pushed ((filter r [e]).early (row.known l.vars (r.given (some e)))) s =
      r.pushed (row.known l.vars (r.given (some e))) s := by
  cases r with
  | filter p es =>
    rw [pushed, pushed]
    congr 1
    refine List.map_congr_left fun f hf => ?_
    have hfind (v : Variable) (hv : v ∈ f.vars) :
        ((filter (filter p es) [e]).early
          (row.known l.vars ((filter p es).given (some e)))).find? v =
          (row.known l.vars ((filter p es).given (some e))).find? v := by
      rw [find?_early, defers_filter]
      split
      · rename_i hunbound
        cases hvalue : (row.known l.vars ((filter p es).given (some e))).find? v with
        | none => rfl
        | some t =>
          have hl : v ∈ l.vars :=
            (Row.within_assignment l.vars row).mem (Row.find?_known_eq_some.mp hvalue).2
          cases (h.bound p es rfl f hf v hv hl).symm.trans hunbound
      · rfl
    rw [Expression.substitute, Expression.substitute?_congr hfind, Expression.substitute]
  | _ => rfl

theorem mergesWith_specialisedFor (hc : c.Reliable stored) (h : ConditionApart l r e) (row : Row) :
    mergesWith (row.assignment l.vars)
        ((r.specialisedFor (row.assignment l.vars) (r.given (some e))).found c) =
      ((substitute (row.known l.vars r.vars) r).found c).map (merge (row.assignment l.vars)) := by
  let σ := row.known l.vars (r.given (some e))
  have hfunctional : σ.Functional := Row.functional_known (Variable.nodup_union _)
  have hearly : r.early ((filter r [e]).early σ) = r.early σ := by
    unfold early
    rw [List.filter_filter]
    refine List.filter_congr fun x _ => ?_
    have hbound (h : r.defers x.1 = false) : r.maybeUnbound x.1 = false :=
      (Bool.or_eq_false_iff.mp h).1
    rw [defers_filter]
    cases hd : r.defers x.1 with
    | false => simp [hbound hd]
    | true => simp
  have hknown (v : Variable) (t : Term) (ht : σ.find? v = some t) :
      row.assignment l.vars v = some t := (Row.find?_known_eq_some.mp ht).2
  have hpart (v : Variable) (t : Term) (ht : ((filter r [e]).early σ).find? v = some t) :
      row.assignment l.vars v = some t := hknown v t (find?_of_early ht)
  rw [← substitute_early_filter r e,
    mergesWith_substitute hc (functional_early _ hfunctional) hpart, hearly, h.pushed_given,
    ← mergesWith_substitute hc hfunctional hknown, h.substitute_given, mergesWith_known (List.Subset.refl _)]

/-- A condition that meets nothing on the right side filters the matches. -/
theorem matches_eq_filter (hc : c.Reliable stored) (h : ConditionApart l r e) (row : Row) :
    optionalMatches c l r (some e) row = (optionalMatches c l r none row).filter fun m =>
      e.holds (m.assignment (leftJoin l r none).vars) := by
  have hnone : optionalMatches c l r none row =
      (((substitute (row.known l.vars r.vars) r).found c).map
        (merge (row.assignment l.vars))).map (Row.ofAssignment (leftJoin l r none).vars) := by
    rw [optionalMatches_eq, List.map_map]
    rfl
  rw [matches_condition hc, h.mergesWith_specialisedFor hc, hnone]
  refine Eq.trans ?_ List.filter_map.symm
  refine congrArg _ (List.filter_congr fun ρ hρ => ?_)
  obtain ⟨ν, hν, rfl⟩ := List.mem_map.mp hρ
  obtain ⟨q, -, rfl⟩ := List.mem_map.mp hν
  have hwithin : Within (leftJoin l r none).vars (merge (row.assignment l.vars)
      (q.assignment (substitute (row.known l.vars r.vars) r).vars)) := by
    refine (Row.within_assignment _ _).merge (Row.within_assignment _ _) ?_ ?_
    · exact fun v hv => mem_vars_leftJoin.mpr (.inl hv)
    · exact fun v hv => mem_vars_leftJoin.mpr (.inr (mem_vars_of_substitute hv).1)
  rw [Function.comp_apply, Row.assignment_ofAssignment, hwithin.restrict_eq]

end ConditionApart

/-- An optional join emits the matches of each left row, or the row without one. With a condition,
the matches are sought in a right side that is specialised by what the left row says about the
variables of the condition too. If these meet nothing else there, the condition filters the matches
that there are without it, and changes nothing where it is true of each of them. -/
theorem condition_filters_matches (s : Contents) (config : Config) (l r : Plan) (e : Expression) :
    let c := s.context config
    let header := (leftJoin l r none).vars
    ∃ left, l.collect c = .ok left ∧
      (∀ condition, (leftJoin l r condition).collect c =
        .ok (left.flatMap fun row => orUnmatched l r row (optionalMatches c l r condition row))) ∧
      (∀ row, optionalMatches c l r (some e) row =
        ((mergesWith (row.assignment l.vars)
          ((r.specialisedFor (row.assignment l.vars) (r.given (some e))).found c)).filter
            fun ν => e.holds ν).map (Row.ofAssignment header)) ∧
      (ConditionApart l r e →
        (∀ row, optionalMatches c l r (some e) row =
          (optionalMatches c l r none row).filter fun m => e.holds (m.assignment header)) ∧
        ((∀ row ∈ left, ∀ m ∈ optionalMatches c l r none row, e.holds (m.assignment header)) →
          (leftJoin l r (some e)).collect c = (leftJoin l r none).collect c)) := by
  intro c header
  have hc := (s.holds config).toReliable
  have hcollect (condition : Option Expression) : (leftJoin l r condition).collect c =
      .ok ((l.rows c).flatMap fun row =>
        orUnmatched l r row (optionalMatches c l r condition row)) := by
    rw [collect_eq_rows hc, rows_leftJoin hc]
  refine ⟨l.rows c, collect_eq_rows hc l, hcollect, matches_condition hc l r e, fun h => ?_⟩
  refine ⟨h.matches_eq_filter hc, fun hall => ?_⟩
  rw [hcollect, hcollect]
  refine congrArg _ (List.flatMap_congr fun row hrow => ?_)
  rw [h.matches_eq_filter hc, List.filter_eq_self.mpr (hall row hrow)]

/-- The right side has a filter, and the condition is about the left side only. -/
theorem condition_filters_matches_two_edges :
    let c := Contents.path.context {}
    let l := edge (.var ⟨"x"⟩) (.var ⟨"y"⟩)
    let r := filter (edge (.var ⟨"y"⟩) (.var ⟨"z"⟩)) [.bound ⟨"z"⟩]
    let e := .bound ⟨"x"⟩
    ConditionApart l r e ∧
    (∀ row ∈ l.rows c, ∀ m ∈ optionalMatches c l r none row,
      e.holds (m.assignment (leftJoin l r none).vars)) ∧
    (leftJoin l r (some e)).collect c = (leftJoin l r none).collect c := by
  intro c l r e
  have hc := (Contents.path.holds {}).toReliable
  have hapart : ConditionApart l r e := by
    refine ⟨fun v hv _ hr => ?_, fun p es hp f hf v hv hl => ?_⟩
    · obtain rfl := List.mem_singleton.mp hv
      exact absurd hr (by decide)
    · obtain ⟨rfl, rfl⟩ := filter.inj hp
      obtain rfl := List.mem_singleton.mp hf
      obtain rfl := List.mem_singleton.mp hv
      exact absurd hl (by decide)
  obtain ⟨left, hleft, -, -, hfilters⟩ := condition_filters_matches Contents.path {} l r e
  have hrows : l.rows c = left := Except.ok.inj ((collect_eq_rows hc l).symm.trans hleft)
  have htrue : ∀ row ∈ l.rows c, ∀ m ∈ optionalMatches c l r none row,
      e.holds (m.assignment (leftJoin l r none).vars) := by
    have hl : l.rows c = [[some (.iri "a"), some (.iri "b")], [some (.iri "b"), some (.iri "c")]] :=
      (rows_edge ..).trans (by decide)
    rw [hl]
    intro row hrow m hm
    rw [optionalMatches_eq] at hm
    obtain ⟨ν, -, rfl⟩ := List.mem_map.mp hm
    rw [Row.assignment_ofAssignment]
    rcases List.mem_pair.mp hrow with rfl | rfl <;> rfl
  exact ⟨hapart, htrue, (hfilters hapart).2 (hrows ▸ htrue)⟩

/-- The right side finds an edge that has an edge behind it. The end of the edge behind is not a
variable of the outer pattern, but a condition that is true of every match gives it the value of the
left side. -/
theorem condition_reaches_into_exists :
    let c := Contents.path.context {}
    let l := edge (.var ⟨"v"⟩) (.term (.iri "b"))
    let r := semijoin (edge (.var ⟨"x"⟩) (.var ⟨"y"⟩)) (edge (.var ⟨"y"⟩) (.var ⟨"v"⟩))
    let e := .bound ⟨"v"⟩
    let joined : Row := [some (.iri "a"), some (.iri "a"), some (.iri "b")]
    (leftJoin l r none).collect c = .ok [joined] ∧
    e.holds (joined.assignment (leftJoin l r none).vars) ∧
    (leftJoin l r (some e)).collect c = .ok [[some (.iri "a"), none, none]] := by
  intro c l r e joined
  have hc := (Contents.path.holds {}).toReliable
  have hcollect (condition : Option Expression) : (leftJoin l r condition).collect c =
      .ok (orUnmatched l r [some (.iri "a")]
        (optionalMatches c l r condition [some (.iri "a")])) := by
    have hl : l.rows c = [[some (.iri "a")]] := (rows_edge ..).trans (by decide)
    rw [collect_eq_rows hc, rows_leftJoin hc, hl, List.flatMap_singleton]
  let outer := edge (.var ⟨"x"⟩) (.var ⟨"y"⟩)
  have houter : outer.rows c =
      [[some (.iri "a"), some (.iri "b")], [some (.iri "b"), some (.iri "c")]] :=
    (rows_edge ..).trans (by decide)
  have htest (x : Slot) (hx : x = .var ⟨"v"⟩ ∨ x = .term (.iri "a")) (u t : Term) :
      (edge (.var ⟨"y"⟩) x).bind outer.vars
        ((List.range outer.vars.length).map (Row.value [some u, some t])) = edge (.term t) x := by
    rcases hx with rfl | rfl <;> rfl
  have hfree : optionalMatches c l r none [some (.iri "a")] = [joined] := by
    have hbind : substitute (Row.known l.vars (r.given none) [some (.iri "a")])
        (r.conditioned none) = r := rfl
    rw [optionalMatches_eq, hbind, found, rows_semijoin hc, houter, List.filter_cons,
      List.filter_cons, htest _ (.inl rfl), htest _ (.inl rfl), rows_edge, rows_edge]
    decide
  have hbound : optionalMatches c l r (some e) [some (.iri "a")] = [] := by
    -- the value of `v` reaches the inner pattern, which then asks for an edge that ends at `a`
    have hbind : substitute (Row.known l.vars (r.given (some e)) [some (.iri "a")])
        (r.conditioned (some e)) =
          filter (semijoin outer (edge (.var ⟨"y"⟩) (.term (.iri "a"))))
            [.const (.boolean true)] := rfl
    rw [optionalMatches_eq, hbind, found_filter hc, found, rows_semijoin hc, houter,
      List.filter_cons, List.filter_cons, htest _ (.inr rfl), htest _ (.inr rfl), rows_edge,
      rows_edge]
    decide
  refine ⟨(hcollect none).trans ?_, rfl, (hcollect (some e)).trans ?_⟩
  · rw [hfree]
    rfl
  · rw [hbound]
    rfl

end Plan
end TripleAlgebra
