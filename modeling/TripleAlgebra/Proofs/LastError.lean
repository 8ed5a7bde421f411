import TripleAlgebra.Proofs.Restart

/-! Errors among the items of a result. Every operator ends with its first error or passes on what
its operand delivers; alternatives follow one another whether or not one of them has failed. -/
namespace TripleAlgebra
open Store

namespace Event
variable {is js : List Item}

/-- No item follows an error. -/
def ErrorLast (is : List Item) : Prop := is.Pairwise fun i _ => ∃ r, i = .ok r

/-- The items form so many stretches, one behind the other, each of which ends with its first
error. -/
inductive Stretches : Nat → List Item → Prop
  | nil : Stretches 0 []
  | append {n} {is js : List Item} (h : ErrorLast is) (hrest : Stretches n js) :
    Stretches (n + 1) (is ++ js)

theorem ErrorLast.stretches (h : ErrorLast is) : Stretches 1 is := by
  rw [← List.append_nil is]
  exact .append h .nil

theorem Stretches.and_then {m n : Nat} (h : Stretches m is) (h' : Stretches n js) :
    Stretches (m + n) (is ++ js) := by
  induction h with
  | nil => rwa [Nat.zero_add]
  | @append k is is' hfirst _ ih =>
    rw [List.append_assoc, Nat.add_right_comm]
    exact .append hfirst ih

theorem Stretches.sublist {n : Nat} (h : Stretches n is) (hs : js.Sublist is) :
    Stretches n js := by
  induction h generalizing js with
  | nil =>
    rw [List.sublist_nil.mp hs]
    exact .nil
  | append hfirst _ ih =>
    obtain ⟨js₁, js₂, rfl, hs₁, hs₂⟩ := List.sublist_append_iff.mp hs
    exact .append (List.Pairwise.sublist hs₁ hfirst) (ih hs₂)

theorem Stretches.map {n : Nat} (h : Stretches n is) (f : Row → Row) :
    Stretches n (is.map (Except.map f)) := by
  induction h with
  | nil => exact .nil
  | append hfirst _ ih =>
    rw [List.map_append]
    refine .append (List.pairwise_map.mpr (hfirst.imp ?_)) ih
    rintro _ _ ⟨r, rfl⟩
    exact ⟨f r, rfl⟩

theorem Stretches.errorLast {n : Nat} (h : Stretches n is) (hn : n ≤ 1) : ErrorLast is := by
  cases h with
  | nil => exact .nil
  | append hfirst hrest =>
    cases hrest with
    | nil => rwa [List.append_nil]
    | append _ _ => omega

/-- The errors among items. -/
def errors (is : List Item) : List Problem :=
  is.filterMap fun
    | .ok _ => none
    | .error e => some e

theorem ErrorLast.length_errors (h : ErrorLast is) : (errors is).length ≤ 1 := by
  induction is with
  | nil => exact Nat.zero_le 1
  | cons i is ih =>
    obtain ⟨hfirst, hrest⟩ := List.pairwise_cons.mp h
    cases i with
    | ok r => exact ih hrest
    | error e =>
      have hnone : is = [] := List.eq_nil_iff_forall_not_mem.mpr fun j hj => by
        obtain ⟨r, hr⟩ := hfirst j hj
        cases hr
      subst hnone
      exact Nat.le_refl 1

theorem Stretches.length_errors {n : Nat} (h : Stretches n is) : (errors is).length ≤ n := by
  induction h with
  | nil => exact Nat.le_refl 0
  | append hfirst _ ih =>
    have hone := hfirst.length_errors
    simp only [errors, List.filterMap_append, List.length_append] at hone ih ⊢
    omega

theorem errorLast_untilError (es : List Event) : ErrorLast (items (untilError es).1) := by
  induction es with
  | nil => exact .nil
  | cons e es ih =>
    rcases e with a | e | r
    · exact ih
    · exact List.pairwise_singleton _ _
    · exact List.pairwise_cons.mpr ⟨fun _ _ => ⟨r, rfl⟩, ih⟩

theorem errorLast_fuse (es : List Event) : ErrorLast (items (fuse es)) := by
  rw [items_fuse]
  exact errorLast_untilError es

end Event

theorem JoinPlan.errorLast_events {limit : Nat} (p : JoinPlan limit)
    (run : (q : Plan) → q.rank < limit → Attempt Solutions) (header : List Variable)
    (es : List Event) : Event.ErrorLast (Event.items (p.events run header es)) := by
  rw [events_eq]
  exact Event.errorLast_untilError _

namespace Plan

mutual

/-- How many stretches of items a result consists of. Alternatives are not joined into one. -/
def alternatives : Plan → Nat
  | .union ps => alternativesEach ps
  | .filter p _ | .project p _ | .assign p _ _ | .distinct p | .weakDistinct p => alternatives p
  | _ => 1

def alternativesEach : List Plan → Nat
  | [] => 0
  | p :: ps => alternatives p + alternativesEach ps

end

end Plan

/-- The answers of the store end with their first error. -/
structure Context.EndsWithErrors (c : Context) : Prop extends c.Fresh where
  last : ∀ t s, c.store.lookup t = .ok s → Event.ErrorLast (Event.items s.run.events)

/-- A store that loses what follows the first row of an answer. -/
def TripleStore.cutShort : TripleStore where
  lookup t := .ok (.ofItems t.vars .generator
    [.ok (t.vars.map fun _ => some (.iri "a")), .error (.storage (.other "lost"))])
  estimate _ := 0

theorem TripleStore.endsWithErrors_cutShort (config : Config) :
    Context.EndsWithErrors ⟨.cutShort, config, .builtin⟩ where
  registry_eq := rfl
  lookup := by
    rintro t _ ⟨⟩
    exact Solutions.isFresh_ofItems _ _
  last := by
    rintro t _ ⟨⟩
    rw [Solutions.items_ofItems]
    exact List.pairwise_pair.mpr ⟨_, rfl⟩

namespace Solutions
variable {s : Solutions}

/-- The solutions deliver so many stretches of items. -/
def HasStretches (n : Nat) (s : Solutions) : Prop := Event.Stretches n (Event.items s.run.events)

theorem hasStretches_deliver {n : Nat} {m : Mode} {header : List Variable} {hot : Bool} {r : Run}
    (h : (deliver m header hot r).outcome = .ok s) (hr : Event.Stretches n (Event.items r.events)) :
    s.HasStretches n := by
  obtain ⟨s', hs', -, he⟩ := exists_deliver m header hot r
  cases h.symm.trans hs'
  unfold HasStretches
  rwa [he]

theorem HasStretches.aligned {n : Nat} (h : s.HasStretches n) (header : List Variable) :
    Event.Stretches n (Event.items (s.aligned header)) := by
  unfold Solutions.aligned
  dsimp only
  split
  · exact h
  · rw [Event.items_mapRows]
    exact h.map _

/-- A test answers with one item at most. -/
theorem hasStretches_test {m : Mode} {header : List Variable} {t : Solutions}
    (h : (s.test m header).outcome = .ok t) : t.HasStretches 1 := by
  have hone (is : List Item) : Event.Stretches 1
      (Event.items (Event.mapRows (fun _ => .empty) (Event.ofItems (is.take 1)))) := by
    rw [Event.items_mapRows, Event.items_ofItems]
    refine Event.ErrorLast.stretches ?_
    cases is with
    | nil => exact .nil
    | cons i is => exact List.pairwise_singleton _ _
  have hdone := hone (Event.items s.run.events)
  rw [← Event.items_demand] at hdone
  cases m with
  | pull => exact hasStretches_deliver h hdone
  | push =>
    refine hasStretches_deliver h ?_
    rw [Event.items_append, Event.items_acts]
    exact hdone

end Solutions

namespace Plan
variable {c : Context} {p : Plan} {s : Solutions}

theorem stretches_evaluateAlternatives {run : Dispatcher p} {ps : List Plan}
    {h : ∀ q ∈ ps, q.rank < p.rank}
    (hrun : ∀ q hq, q ∈ ps → ∀ t, (run q hq).outcome = .ok t → t.HasStretches q.alternatives)
    {ss : List Solutions} (hss : (evaluateAlternatives run ps h).outcome = .ok ss)
    (header : List Variable) :
    Event.Stretches (alternativesEach ps) (Event.items (ss.flatMap (·.aligned header))) := by
  induction ps generalizing ss with
  | nil =>
    cases hss
    exact .nil
  | cons q qs ih =>
    rw [evaluateAlternatives] at hss
    obtain ⟨t, ht, hss⟩ := Attempt.outcome_bind_iff.mp hss
    obtain ⟨ts, hts, hss⟩ := Attempt.outcome_bind_iff.mp hss
    cases hss
    have hfirst := (hrun q _ List.mem_cons_self t ht).aligned header
    have hrest := ih (fun r hr hm => hrun r hr (List.mem_cons_of_mem q hm)) hts
    rw [List.flatMap_cons, Event.items_append]
    exact hfirst.and_then hrest

theorem hasStretches_runJoin {m : Mode} {header : List Variable} {run : Dispatcher p}
    {head : { q : Plan // q.rank < p.rank }} {plan : JoinPlan p.rank}
    (h : (runJoin m header run head plan).outcome = .ok s) : s.HasStretches 1 := by
  obtain ⟨t, -, hs⟩ := Attempt.outcome_bind_iff.mp h
  exact Solutions.hasStretches_deliver hs (plan.errorLast_events _ _ _).stretches

/-- An operator ends with its first error, passes on the stretches of its operand, or puts those of
its alternatives one behind the other. -/
theorem hasStretches_dispatch (hc : c.EndsWithErrors) (h : (dispatch c p).outcome = .ok s) :
    s.HasStretches p.alternatives := by
  induction p using inductChildren generalizing s with
  | _ p ih =>
    have hs := evaluate_of_dispatch hc.registry_eq h
    generalize c.config.mode p.kind = m at hs
    cases p with
    | triple t =>
      obtain ⟨s', hs', hs⟩ := Attempt.outcome_bind_iff.mp hs
      have hlast := (hc.last t s' (Attempt.mapError_eq_ok_iff.mp hs')).stretches
      cases m with
      | pull =>
        cases hs
        exact hlast
      | push => exact Solutions.hasStretches_deliver hs hlast
    | identity =>
      have hone : Event.Stretches 1 [.ok .empty] :=
        Event.ErrorLast.stretches (List.pairwise_singleton _ _)
      cases m with
      | pull =>
        cases hs
        exact hone
      | push => exact Solutions.hasStretches_deliver hs hone
    | join ps =>
      have hs : (evaluateJoin c m (.join ps) fun q _ => dispatch c q).outcome = .ok s := hs
      rw [evaluateJoin_eq] at hs
      split at hs
      · exact hasStretches_runJoin hs
      · exact hasStretches_runJoin hs
    | leftJoin l r condition => exact hasStretches_runJoin hs
    | values q vs rows =>
      exact Solutions.hasStretches_deliver hs (JoinPlan.errorLast_events _ _ _ _).stretches
    | union ps =>
      obtain ⟨ss, hss, hs⟩ := Attempt.outcome_bind_iff.mp hs
      exact Solutions.hasStretches_deliver hs
        (stretches_evaluateAlternatives (fun q _ hq t ht => ih q hq ht) hss _)
    | filter q cs =>
      obtain ⟨t, ht, hs⟩ := Attempt.outcome_bind_iff.mp hs
      refine Solutions.hasStretches_deliver hs ?_
      rw [Event.items_filterRows]
      exact (ih q (by simp [children]) ht).sublist List.filter_sublist
    | assign q v e =>
      obtain ⟨t, ht, hs⟩ := Attempt.outcome_bind_iff.mp hs
      refine Solutions.hasStretches_deliver hs ?_
      rw [Event.items_mapRows]
      exact (ih q (by simp [children]) ht).map _
    | project q vs =>
      obtain ⟨t, ht, hs⟩ := Attempt.outcome_bind_iff.mp hs
      have hown := ih q (by simp [children]) ht
      have hs : (t.project m (project q vs).vars).outcome = .ok s := hs
      unfold Solutions.project at hs
      dsimp only at hs
      split at hs
      · cases hs
        exact hown
      · refine Solutions.hasStretches_deliver hs ?_
        rw [Event.items_mapRows]
        exact hown.map _
    | distinct q | weakDistinct q =>
      obtain ⟨t, ht, hs⟩ := Attempt.outcome_bind_iff.mp hs
      exact Solutions.hasStretches_deliver hs ((ih q (by simp [children]) ht).sublist
        ((Event.distinct_sublist _ _).filterMap _))
    | limit q n | offset q n | slice q n count | semijoin q r | antijoin q r =>
      obtain ⟨t, -, hs⟩ := Attempt.outcome_bind_iff.mp hs
      exact Solutions.hasStretches_deliver hs (Event.errorLast_fuse _).stretches
    | minus l r b =>
      obtain ⟨t, -, hs⟩ := Attempt.outcome_bind_iff.mp hs
      dsimp only at hs
      cases hminus : c.config.minus with
      | bind =>
        rw [hminus] at hs
        exact Solutions.hasStretches_deliver hs (Event.errorLast_fuse _).stretches
      | set =>
        rw [hminus] at hs
        obtain ⟨right, -, hs⟩ := Attempt.outcome_bind_iff.mp hs
        exact Solutions.hasStretches_deliver hs (Event.errorLast_fuse _).stretches
    | ask q =>
      obtain ⟨t, -, hs⟩ := Attempt.outcome_bind_iff.mp hs
      exact Solutions.hasStretches_test hs

/-- No item of a result follows an error, unless the plan has alternatives. Each of these ends with
its first error, and so there are at most as many errors as alternatives. -/
theorem errors_end_results (hc : c.EndsWithErrors) (h : (p.execute c).outcome = .ok s) :
    Event.Stretches p.alternatives (s.take none).value ∧
      (Event.errors (s.take none).value).length ≤ p.alternatives ∧
      (p.alternatives ≤ 1 → Event.ErrorLast (s.take none).value) := by
  rw [execute_eq hc.registry_eq] at h
  rw [Solutions.take_none (isFresh_dispatch hc.toFresh h).memo_eq]
  have hstretches : Event.Stretches p.alternatives (Event.items s.run.events) :=
    hasStretches_dispatch hc h
  exact ⟨hstretches, hstretches.length_errors, hstretches.errorLast⟩

/-- A slice of two alternatives ends with the error of the first one. -/
theorem errors_end_results_slice :
    let c : Context := ⟨.cutShort, { defaultMode := .push }, .builtin⟩
    let e := edge (.var ⟨"x"⟩) (.var ⟨"y"⟩)
    let p := slice (union [e, e]) 0 (some 3)
    c.EndsWithErrors ∧ p.alternatives ≤ 1 ∧
      ∃ s, (p.execute c).outcome = .ok s ∧ Event.ErrorLast (s.take none).value := by
  intro c e p
  have hc : c.EndsWithErrors := TripleStore.endsWithErrors_cutShort _
  have hhot : (p.execute c).outcome.map Solutions.isHot = .ok true := by
    rw [execute_eq_dispatchWithin rfl (dispatch c)]
    rfl
  cases hs : (p.execute c).outcome with
  | error e => simp [hs, Except.map] at hhot
  | ok s =>
    obtain ⟨-, -, hlast⟩ := errors_end_results hc hs
    exact ⟨hc, Nat.le_refl 1, s, rfl, hlast (Nat.le_refl 1)⟩

/-- The second of two alternatives is delivered although the first one has failed. -/
theorem alternatives_go_on_after_error :
    let c : Context := ⟨.cutShort, {}, .builtin⟩
    let e := edge (.var ⟨"x"⟩) (.var ⟨"y"⟩)
    c.EndsWithErrors ∧ ∃ s, ((union [e, e]).execute c).outcome = .ok s ∧
      (Event.errors (s.take none).value).length = 2 ∧ ¬ Event.ErrorLast (s.take none).value := by
  intro c e
  have hc : c.EndsWithErrors := TripleStore.endsWithErrors_cutShort _
  have hitems : ((union [e, e]).execute c).outcome.map
      (fun s => (Event.errors (s.take none).value).length) = .ok 2 := by
    rw [execute_eq_dispatchWithin rfl (dispatch c)]
    rfl
  cases hs : ((union [e, e]).execute c).outcome with
  | error e => simp [hs, Except.map] at hitems
  | ok s =>
    have htwo : (Event.errors (s.take none).value).length = 2 := by
      simpa [hs, Except.map] using hitems
    exact ⟨hc, s, rfl, htwo, fun hlast => absurd hlast.length_errors (by omega)⟩

end Plan
end TripleAlgebra
