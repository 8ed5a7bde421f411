import TripleAlgebra.Expression.Prepared
import TripleAlgebra.Proofs.Substitution

/-! Prepared expressions have the values that the plain ones have, and substituted terms count as
the values of columns. -/
namespace TripleAlgebra
open Assignment

namespace PatternCache

theorem compile?_of_find? {c : PatternCache} {pattern flags : String} {r : Regex}
    (h : c.find? pattern flags = some r) : Regex.compile? pattern flags = some r :=
  c.compiled _ (mem_of_lookup h)

/-- What the cache contains makes no difference to a search. -/
theorem search?_eq (c : PatternCache) : c.search? = Regex.search? := by
  funext pattern flags text
  unfold search?
  split
  · rename_i r h
    rw [Regex.search?, compile?_of_find? h, Option.map_some]
  · rfl

end PatternCache

namespace PreparedExpression
variable {header : List Variable} {e : Expression} {r : Row}

theorem evaluate_eq (p : PreparedExpression) (r : Row) :
    p.evaluate r = p.expression.eval (p.assignment r) := by
  rw [evaluate, p.patterns.search?_eq, Expression.eval]

theorem column?_ofHeader (hn : header.Nodup) (v : Variable) :
    (ofHeader e header).column? v = Variable.column? header v := by
  have hcolumns : (ofHeader e header).columns = header.zipIdx := rfl
  cases h : (ofHeader e header).column? v with
  | none =>
    refine (Variable.column?_eq_none.mpr fun hv => ?_).symm
    obtain ⟨i, hi⟩ := List.mem_iff_getElem?.mp hv
    rw [column?, List.lookup_eq_none_iff, hcolumns] at h
    simpa using h (v, i) (List.mem_reverse.mpr (List.mk_mem_zipIdx_iff_getElem?.mpr hi))
  | some i =>
    have hi : (v, i) ∈ header.zipIdx := List.mem_reverse.mp (mem_of_lookup h)
    exact (Variable.column?_of_getElem? hn (List.mk_mem_zipIdx_iff_getElem?.mp hi)).symm

theorem assignment_ofHeader (hn : header.Nodup) :
    (ofHeader e header).assignment r = r.assignment header := by
  funext v
  rw [assignment, column?_ofHeader hn, Row.assignment]

/-- What is prepared for a header without repetitions has the value that the header gives. -/
theorem evaluate_ofHeader (hn : header.Nodup) :
    (ofHeader e header).evaluate r = e.eval (r.assignment header) := by
  rw [evaluate_eq, assignment_ofHeader hn]
  rfl

/-- A prepared condition is true if the condition holds under the values that it sees. -/
theorem isTrue_eq (p : PreparedExpression) (r : Row) :
    p.isTrue r = p.expression.holds (p.assignment r) := by
  rw [isTrue, evaluate_eq]
  rfl

theorem all_isTrue_ofHeader (hn : header.Nodup) (es : List Expression) (r : Row) :
    (es.map (ofHeader · header)).all (·.isTrue r) = es.all (·.holds (r.assignment header)) := by
  rw [List.all_map]
  congr 1
  funext e
  rw [Function.comp_apply, isTrue_eq, assignment_ofHeader hn]
  rfl

/-- All that is prepared for one header sees the same values. -/
theorem exists_all_isTrue (header : List Variable) (r : Row) : ∃ s : Assignment,
    ∀ es : List Expression, (es.map (ofHeader · header)).all (·.isTrue r) = es.all (·.holds s) := by
  refine ⟨(ofHeader default header).assignment r, fun es => ?_⟩
  rw [List.all_map]
  exact congrArg es.all (funext fun e => isTrue_eq (ofHeader e header) r)

end PreparedExpression

namespace Substitution

/-- The columns that hold the terms of a substitution give its variables these terms. -/
theorem assignment_columns (s : Substitution) :
    Row.assignment (s.map (·.1)) (s.map fun e => some e.2) = s.find? := by
  induction s with
  | nil => rfl
  | cons e s ih =>
    funext v
    rw [List.map_cons, List.map_cons, Row.assignment_cons, ih, find?_cons]
    simp [eq_comm]

variable {s : Substitution} {header : List Variable}

theorem nodup_extended (hs : s.Functional) (hheader : header.Nodup)
    (hfresh : ∀ v ∈ header, s.find? v = none) : (header ++ s.map (·.1)).Nodup := by
  refine List.nodup_append.mpr ⟨hheader, hs, ?_⟩
  rintro v hv _ hb rfl
  obtain ⟨⟨w, t⟩, hmem, rfl⟩ := List.mem_map.mp hb
  exact find?_eq_none.mp (hfresh w hv) t hmem

/-- A row that goes on with the terms of a substitution gives what the row and the substitution
give. -/
theorem assignment_extended {r : Row} (hr : r.length = header.length)
    (hfresh : ∀ v ∈ header, s.find? v = none) :
    (r ++ s.map fun e => some e.2).assignment (header ++ s.map (·.1)) =
      merge s.find? (r.assignment header) := by
  rw [Row.assignment_append hr, assignment_columns]
  funext v
  split
  · rename_i hv
    rw [merge, hfresh v hv, Option.none_or]
  · rename_i hv
    rw [merge, Row.within_assignment header r v hv, Option.or_none]

end Substitution

namespace Expression

theorem entry_cons (w : Variable) (vs : List Variable) (x : Option Term) (ts : List (Option Term))
    (v : Variable) : entry (w :: vs) (x :: ts) v = if w = v then x else entry vs ts v := by
  by_cases h : w = v <;> simp [entry, h]

/-- The values of distinct variables hide no other ones. -/
theorem entry_eq_find? {vs : List Variable} (hn : vs.Nodup) (ts : List (Option Term)) :
    entry vs ts = (Substitution.ofValues vs ts).find? := by
  funext v
  induction vs generalizing ts with
  | nil => rfl
  | cons w vs ih =>
    obtain ⟨hw, hvs⟩ := List.nodup_cons.mp hn
    cases ts with
    | nil => rfl
    | cons x ts =>
      rw [entry_cons, ih hvs, Substitution.ofValues_cons]
      cases x with
      | some t =>
        rw [Option.map_some, Option.toList_some, List.singleton_append, Substitution.find?_cons]
        simp only [eq_comm]
      | none =>
        refine ite_eq_right_iff.mpr ?_
        rintro rfl
        exact (Substitution.find?_ofValues_eq_none.mpr fun t ht =>
          hw (List.of_mem_zip ht).1).symm

/-- Evaluating an expression in which the values of distinct variables have been substituted is
evaluating the expression itself on a row with a column more for each bound variable, and is what
the expression says about the row and the values, no matter which patterns are compiled beforehand.
What is substituted does not occur any more, and an expression without such a variable is kept. -/
theorem evaluate_bind (e : Expression) (vs : List Variable) (ts : List (Option Term))
    (header : List Variable) (r : Row) (hvs : vs.Nodup) (hheader : header.Nodup)
    (hr : r.length = header.length) (hfresh : ∀ v ∈ header, ∀ t, (v, some t) ∉ vs.zip ts) :
    let bound := Substitution.ofValues vs ts
    let substituted := (e.bind? vs ts).getD e
    (PreparedExpression.ofHeader substituted header).evaluate r =
        (PreparedExpression.ofHeader e (header ++ bound.map (·.1))).evaluate
          (r ++ bound.map fun b => some b.2) ∧
      (PreparedExpression.ofHeader substituted header).evaluate r =
        e.eval (merge bound.find? (r.assignment header)) ∧
      (e.bind? vs ts = none ↔ ∀ v ∈ e.vars, ∀ t, (v, some t) ∉ vs.zip ts) ∧
      substituted.vars = e.vars.filter fun v => (vs.zip ts).all fun b => b.1 ≠ v || b.2.isNone := by
  intro bound substituted
  have hnone : ∀ v, bound.find? v = none ↔ ∀ t, (v, some t) ∉ vs.zip ts := fun v =>
    Substitution.find?_ofValues_eq_none
  have hunbound : ∀ v ∈ header, bound.find? v = none := fun v hv => (hnone v).mpr (hfresh v hv)
  have hentry : entry vs ts = bound.find? := entry_eq_find? hvs ts
  have hsubstituted : substituted = substitute bound.find? e := by
    rw [← hentry]
    rfl
  have hvalue : (PreparedExpression.ofHeader substituted header).evaluate r =
      e.eval (merge bound.find? (r.assignment header)) := by
    rw [PreparedExpression.evaluate_ofHeader hheader, hsubstituted, eval_substitute]
  refine ⟨?_, hvalue, ?_, ?_⟩
  · have hextended : (header ++ bound.map (·.1)).Nodup :=
      Substitution.nodup_extended (Substitution.functional_ofValues hvs ts) hheader hunbound
    rw [hvalue, PreparedExpression.evaluate_ofHeader hextended,
      Substitution.assignment_extended hr hunbound]
  · rw [bind?, hentry, substitute?_eq_none]
    exact forall₂_congr fun v _ => hnone v
  · rw [hsubstituted, vars_substitute, ← Substitution.remaining_ofValues]
    rfl

/-- The pattern that a variable stands for is compiled when its text is substituted, and the search
gives the same answer as with the pattern in a column. -/
theorem evaluate_bind_of_search :
    let e : Expression := .binary .and (.bound ⟨"p"⟩) (.call .regex [.var ⟨"t"⟩, .var ⟨"p"⟩])
    let vs : List Variable := [⟨"p"⟩, ⟨"q"⟩]
    let ts : List (Option Term) := [some (.plain "a+"), none]
    let prepared := PreparedExpression.ofHeader ((e.bind? vs ts).getD e) [⟨"t"⟩]
    (prepared.patterns.find? "a+" "").isSome ∧ prepared.expression.vars = [⟨"t"⟩] ∧
      prepared.evaluate [some (.plain "baa")] = .ok (.boolean true) ∧
      (PreparedExpression.ofHeader e [⟨"t"⟩, ⟨"p"⟩]).evaluate
        [some (.plain "baa"), some (.plain "a+")] = .ok (.boolean true) := by
  intro e vs ts prepared
  obtain ⟨hvalue, -, -, hvars⟩ := evaluate_bind e vs ts [⟨"t"⟩] [some (.plain "baa")] (by decide)
    (by decide) rfl (by simp [vs, ts])
  have hcompiled : (prepared.patterns.find? "a+" "").isSome := by rfl
  have htrue : prepared.evaluate [some (.plain "baa")] = .ok (.boolean true) := by rfl
  exact ⟨hcompiled, hvars, htrue, hvalue.symm.trans htrue⟩

end Expression
end TripleAlgebra
