import TripleAlgebra.Query.Support

/-! The queries that have a plan are the supported ones. Where there is no plan, the problem is a
flaw of the query. -/
namespace TripleAlgebra

namespace Function

theorem mem_all (f : Function) : f ∈ all := by
  cases f <;> decide

theorem ofName?_name (f : Function) : ofName? f.name = some f := by
  cases f <;> rfl

theorem ofName?_eq_some {name : String} {f : Function} : ofName? name = some f ↔ f.name = name := by
  constructor
  · intro h
    simpa using List.find?_some h
  · rintro rfl
    exact f.ofName?_name

end Function

/-- A call has no flaws if it is one of a known function with as many arguments as it takes. -/
theorem callFlaws_eq_nil {call : String × Nat} : callFlaws call = [] ↔
    ∃ f ∈ Function.all, f.name = call.1 ∧ f.arity.1 ≤ call.2 ∧ call.2 ≤ f.arity.2 := by
  unfold callFlaws
  split
  · rename_i hnone
    simp only [List.cons_ne_nil, false_iff]
    rintro ⟨f, -, hname, -⟩
    cases hnone.symm.trans (Function.ofName?_eq_some.mpr hname)
  · rename_i f hf
    have hname := Function.ofName?_eq_some.mp hf
    constructor
    · intro h
      refine ⟨f, f.mem_all, hname, ?_⟩
      simpa [Function.accepts] using h
    · rintro ⟨f', -, hname', hcount⟩
      obtain rfl : f = f' :=
        Option.some.inj (hf.symm.trans (Function.ofName?_eq_some.mpr hname'))
      simpa [Function.accepts] using hcount

theorem placeFlaws_eq_nil {b : Bool} : placeFlaws b = [] ↔ b = true := by
  cases b <;> simp [placeFlaws]

@[simp] theorem mem_placeFlaws_and {a b : Bool} {e : LoweringProblem} :
    e ∈ placeFlaws (a && b) ↔ e ∈ placeFlaws a ∨ e ∈ placeFlaws b := by
  cases a <;> cases b <;> simp [placeFlaws]

@[simp] theorem mem_placeFlaws_append {ps qs : List GraphPattern} {e : LoweringProblem} :
    e ∈ placeFlaws (ps ++ qs).isEmpty ↔ e ∈ placeFlaws ps.isEmpty ∨ e ∈ placeFlaws qs.isEmpty := by
  have hempty : (ps ++ qs).isEmpty = (ps.isEmpty && qs.isEmpty) := by
    cases ps <;> rfl
  rw [hempty, mem_placeFlaws_and]

@[simp] theorem mem_flawsOf_append {ps qs : List GraphPattern} {cs ds : List (String × Nat)}
    {e : LoweringProblem} :
    e ∈ flawsOf (ps ++ qs) (cs ++ ds) ↔ e ∈ flawsOf ps cs ∨ e ∈ flawsOf qs ds := by
  simp only [flawsOf, List.flatMap_append, List.mem_append]
  exact or_or_or_comm

@[simp] theorem mem_flawsOf_cons {p : GraphPattern} {ps : List GraphPattern}
    {cs : List (String × Nat)} {e : LoweringProblem} :
    e ∈ flawsOf (p :: ps) cs ↔ e ∈ p.ownFlaws ∨ e ∈ flawsOf ps cs := by
  simp [flawsOf]

@[simp] theorem mem_flawsOf_call {ps : List GraphPattern} {call : String × Nat}
    {cs : List (String × Nat)} {e : LoweringProblem} :
    e ∈ flawsOf ps (call :: cs) ↔ e ∈ callFlaws call ∨ e ∈ flawsOf ps cs := by
  simp only [flawsOf, List.flatMap_cons, List.mem_append]
  exact or_left_comm

@[simp] theorem flawsOf_nil : flawsOf [] [] = [] := rfl

/-- A supported pattern is one without flaws. -/
theorem GraphPattern.supported_iff {p : GraphPattern} : p.Supported ↔ p.flaws = [] := by
  have hown (q : GraphPattern) :
      q.ownFlaws = [] ↔ q.unsupported? = none ∧ q.asksInPlace = true := by
    simp [ownFlaws, placeFlaws_eq_nil]
  constructor
  · intro h
    simp only [flaws, flawsOf, List.append_eq_nil_iff, List.flatMap_eq_nil_iff]
    exact ⟨fun q hq => (hown q).mpr ⟨h.forms q hq, h.places q hq⟩,
      fun call hcall => callFlaws_eq_nil.mpr (h.calls call hcall)⟩
  · intro h
    simp only [flaws, flawsOf, List.append_eq_nil_iff, List.flatMap_eq_nil_iff] at h
    exact ⟨fun q hq => ((hown q).mp (h.1 q hq)).1, fun q hq => ((hown q).mp (h.1 q hq)).2,
      fun call hcall => callFlaws_eq_nil.mp (h.2 call hcall)⟩

instance (p : GraphPattern) : Decidable p.Supported :=
  decidable_of_iff (p.flaws = []) GraphPattern.supported_iff.symm

namespace Lowering

/-- The lowering succeeds if there are no flaws and fails with one of them if there are some. -/
def Reports {α : Type} (m : Lowering α) (fs : List LoweringProblem) : Prop :=
  ∀ ls, (fs = [] ∧ ∃ r, m ls = .ok r) ∨ ∃ e ∈ fs, m ls = .error e

namespace Reports
variable {α γ : Type} {m : Lowering α} {fs gs : List LoweringProblem}

theorem pure (a : α) : Reports (Pure.pure a) [] := fun ls => .inl ⟨rfl, (a, ls), rfl⟩

theorem throw {e : LoweringProblem} (h : e ∈ fs) : Reports (throw e : Lowering α) fs :=
  fun _ => .inr ⟨e, h, rfl⟩

theorem bind {f : α → Lowering γ} (hm : Reports m fs) (hf : ∀ a, Reports (f a) gs) :
    Reports (m >>= f) (fs ++ gs) := by
  intro ls
  rcases hm ls with ⟨rfl, ⟨a, ls'⟩, hok⟩ | ⟨e, he, herr⟩
  · have hstep : (m >>= f) ls = f a ls' := by
      simp [Bind.bind, StateT.bind, Except.bind, hok]
    rw [hstep]
    exact hf a ls'
  · have hstep : (m >>= f) ls = .error e := by
      simp [Bind.bind, StateT.bind, Except.bind, herr]
    exact .inr ⟨e, List.mem_append_left _ he, hstep⟩

/-- How often and in which order flaws are listed does not matter. -/
theorem congr (hm : Reports m fs) (h : ∀ e, e ∈ fs ↔ e ∈ gs) : Reports m gs := by
  intro ls
  rcases hm ls with ⟨rfl, hok⟩ | ⟨e, he, herr⟩
  · refine .inl ⟨List.eq_nil_iff_forall_not_mem.mpr fun e he => ?_, hok⟩
    exact List.not_mem_nil ((h e).mpr he)
  · exact .inr ⟨e, (h e).mp he, herr⟩

/-- A last step that cannot fail adds no flaws. -/
theorem map {f : α → γ} (hm : Reports m fs) :
    Reports (m >>= fun a => Pure.pure (f a)) fs := by
  simpa using hm.bind fun a => pure (f a)

end Reports

theorem reports_slot (s : Slot) : Reports (slot s) [] := by
  rcases s with _ | _ | label | _
  · exact .pure _
  · exact .pure _
  · refine Reports.map (m := variableFor label) fun ls => .inl ⟨rfl, ?_⟩
    unfold variableFor
    split <;> exact ⟨_, rfl⟩
  · exact .pure _

theorem reports_patterns (ts : List Pattern) : Reports (patterns ts) [] := by
  induction ts with
  | nil => exact .pure _
  | cons t ts ih =>
    have hpattern : Reports (pattern t) [] :=
      (reports_slot t.subject).bind fun _ => (reports_slot t.object).bind fun _ => .pure _
    exact hpattern.bind fun _ => ih.bind fun _ => .pure _

theorem reports_function (name : String) (count : Nat) :
    Reports (function name count) (callFlaws (name, count)) := by
  unfold function callFlaws
  cases Function.ofName? name with
  | none => exact .throw (by simp)
  | some f =>
    dsimp only
    split
    · exact .pure _
    · exact .throw (by simp)

end Lowering

/-- As an expression, a condition has no place for patterns. Split into its conjuncts, it has one
for each conjunct that is a question for a pattern or its negation. -/
structure Readings.Reports (r : Readings) (c : Condition) : Prop where
  expression : Lowering.Reports r.expression (placeFlaws c.existsFree ++ c.flaws)
  conjuncts : Lowering.Reports r.conjuncts
    (placeFlaws (c.conjuncts.all fun d => d.isTest || d.existsFree) ++ c.flaws)

namespace Readings
variable {c : Condition}

theorem reports_atom {m : Lowering Expression} {fs : List LoweringProblem}
    (hc : c.conjuncts = [c]) (ht : c.isTest = false) (h : Lowering.Reports m fs)
    (hfs : ∀ e, e ∈ fs ↔ e ∈ placeFlaws c.existsFree ∨ e ∈ c.flaws) : Reports (atom m) c := by
  have hm : Lowering.Reports m (placeFlaws c.existsFree ++ c.flaws) :=
    h.congr (by simpa using hfs)
  refine ⟨hm, ?_⟩
  have hall : (c.conjuncts.all fun d => d.isTest || d.existsFree) = c.existsFree := by
    simp [hc, ht]
  rw [hall]
  exact Lowering.Reports.map (f := fun e => [Conjunct.holds e]) hm

theorem reports_pattern {m : Lowering Conjunct} (hc : c.conjuncts = [c]) (ht : c.isTest = true)
    (hfree : c.existsFree = false) (h : Lowering.Reports m c.flaws) : Reports (pattern m) c := by
  have hall : (c.conjuncts.all fun d => d.isTest || d.existsFree) = true := by
    simp [hc, ht]
  refine ⟨.throw (by simp [hfree, placeFlaws]), ?_⟩
  rw [hall]
  exact Lowering.Reports.map (f := fun d => [d]) h

end Readings

theorem GraphPattern.survey_ne_nil (p : GraphPattern) :
    p.survey (fun q => [q]) (fun _ => []) ≠ [] := by
  cases p <;> simp

namespace Condition

/-- Lists of expressions have no place for patterns either. -/
def expressionsFlaws (es : List Condition) : List LoweringProblem :=
  placeFlaws (surveyAll (fun q => [q]) (fun _ => []) es).isEmpty ++
    flawsOf (surveyAll (fun q => [q]) (fun _ => []) es) (surveyAll (fun _ => []) ownCall es)

end Condition

section
open GraphPattern Condition

mutual

theorem GraphPattern.reports_lower : ∀ p : GraphPattern, Lowering.Reports p.lower p.flaws
  | .triples ts => (Lowering.reports_patterns ts).map
  | .values vs rows => .pure _
  | .path .. | .graph _ | .orderBy .. | .group .. | .service _ =>
    .throw (by simp [GraphPattern.flaws, flawsOf, ownFlaws, unsupported?])
  | .join l r | .optional l r | .union l r | .minus l r =>
    (l.reports_lower.bind fun _ => r.reports_lower.map).congr
      (by simp [GraphPattern.flaws, ownFlaws, unsupported?, asksInPlace, placeFlaws])
  | .optionalIf l r c =>
    (l.reports_lower.bind fun _ => r.reports_lower.bind fun _ =>
      c.reports_readings.expression.map).congr
      (by
        simp [GraphPattern.flaws, Condition.flaws, existsFree, ownFlaws, unsupported?, asksInPlace]
        grind)
  | .filter c p =>
    (p.reports_lower.bind fun _ => c.reports_readings.conjuncts.map).congr
      (by
        simp [GraphPattern.flaws, Condition.flaws, existsFree, ownFlaws, unsupported?, asksInPlace]
        grind)
  | .extend p v e =>
    (p.reports_lower.bind fun _ => e.reports_readings.expression.map).congr
      (by
        simp [GraphPattern.flaws, Condition.flaws, existsFree, ownFlaws, unsupported?, asksInPlace]
        grind)
  | .project p _ | .distinct p | .reduced p | .slice p _ _ => p.reports_lower.map

theorem Condition.reports_readings : ∀ c : Condition, c.readings.Reports c
  | .var _ | .const _ | .bound _ =>
    Readings.reports_atom rfl rfl (.pure _) (by simp [existsFree, Condition.flaws, placeFlaws])
  | .unary op e => by
      have he (op : UnaryOp) := e.reports_readings.expression.map (f := Expression.unary op)
      cases op with
      | not =>
        cases e with
        | «exists» p =>
          exact Readings.reports_pattern rfl rfl
            (by simp [existsFree, GraphPattern.survey_ne_nil]) p.reports_lower.map
        | _ =>
          exact Readings.reports_atom rfl rfl (he .not) (by simp [existsFree, Condition.flaws])
      | _ => exact Readings.reports_atom rfl rfl (he _) (by simp [existsFree, Condition.flaws])
  | .binary op l r => by
      have he : Lowering.Reports
          (do return Expression.binary op (← l.readings.expression) (← r.readings.expression))
          (placeFlaws (Condition.binary op l r).existsFree ++ (Condition.binary op l r).flaws) :=
        (l.reports_readings.expression.bind fun _ => r.reports_readings.expression.map).congr
          (by simp [existsFree, Condition.flaws]; grind)
      cases op with
      | and =>
        refine ⟨he, (l.reports_readings.conjuncts.bind fun _ =>
          r.reports_readings.conjuncts.map).congr ?_⟩
        simp [existsFree, conjuncts, Condition.flaws]
        grind
      | _ => exact Readings.reports_atom rfl rfl he (by simp)
  | .member e es =>
    Readings.reports_atom rfl rfl (e.reports_readings.expression.bind fun _ =>
      (Condition.reports_expressions es).map)
      (by simp [existsFree, Condition.flaws, expressionsFlaws]; grind)
  | .conditional c t e =>
    Readings.reports_atom rfl rfl (c.reports_readings.expression.bind fun _ =>
      t.reports_readings.expression.bind fun _ => e.reports_readings.expression.map)
      (by simp [existsFree, Condition.flaws]; grind)
  | .coalesce es =>
    Readings.reports_atom rfl rfl (Condition.reports_expressions es).map
      (by simp [existsFree, Condition.flaws, expressionsFlaws])
  | .call name es =>
    Readings.reports_atom rfl rfl ((Lowering.reports_function name es.length).bind
      fun _ => (Condition.reports_expressions es).map)
      (by simp [existsFree, Condition.flaws, expressionsFlaws]; grind)
  | .exists p =>
    Readings.reports_pattern rfl rfl
      (by simp [existsFree, GraphPattern.survey_ne_nil]) p.reports_lower.map

theorem Condition.reports_expressions : ∀ es : List Condition,
    Lowering.Reports (Condition.expressions es) (expressionsFlaws es)
  | [] => .pure _
  | e :: es =>
    (e.reports_readings.expression.bind fun _ => (Condition.reports_expressions es).map).congr
      (by simp [existsFree, Condition.flaws, expressionsFlaws]; grind)

end

end

theorem GraphPattern.plan_reports (p : GraphPattern) :
    (p.flaws = [] ∧ ∃ plan, p.plan = .ok plan) ∨ ∃ e ∈ p.flaws, p.plan = .error e := by
  rcases p.reports_lower [] with ⟨hnil, r, hr⟩ | ⟨e, he, herr⟩
  · exact .inl ⟨hnil, r.1, by simp [GraphPattern.plan, StateT.run, hr, Except.map]⟩
  · exact .inr ⟨e, he, by simp [GraphPattern.plan, StateT.run, herr, Except.map]⟩

namespace Query

theorem supported_iff {q : Query} : q.Supported ↔ q.flaws = [] := by
  have hform : (if q.form = .select ∨ q.form = .ask then [] else [LoweringProblem.form q.form]) = []
      ↔ q.form = .select ∨ q.form = .ask := by
    split <;> simp_all
  have hdataset : (if q.hasDataset then [LoweringProblem.dataset] else []) = []
      ↔ q.hasDataset = false := by
    cases q.hasDataset <;> simp
  simp only [flaws, List.append_eq_nil_iff, hform, hdataset, ← GraphPattern.supported_iff]
  exact ⟨fun h => ⟨h.form, h.dataset, h.pattern⟩, fun h => ⟨h.1, h.2.1, h.2.2⟩⟩

instance (q : Query) : Decidable q.Supported := decidable_of_iff (q.flaws = []) supported_iff.symm

theorem plan_reports (q : Query) :
    (q.flaws = [] ∧ ∃ plan, q.plan = .ok plan) ∨ ∃ e ∈ q.flaws, q.plan = .error e := by
  obtain ⟨form, dataset, pattern⟩ := q
  cases form with
  | construct => exact .inr ⟨_, by simp [flaws], rfl⟩
  | describe => exact .inr ⟨_, by simp [flaws], rfl⟩
  | select =>
    cases dataset with
    | true => exact .inr ⟨.dataset, by simp [flaws], rfl⟩
    | false => simpa [flaws, Query.plan] using pattern.plan_reports
  | ask =>
    cases dataset with
    | true => exact .inr ⟨.dataset, by simp [flaws], rfl⟩
    | false =>
      rcases pattern.plan_reports with ⟨hnil, plan, hplan⟩ | ⟨e, he, herr⟩
      · exact .inl ⟨by simp [flaws, hnil], .ask plan, by simp [Query.plan, hplan, Except.map]⟩
      · exact .inr ⟨e, by simp [flaws, he], by simp [Query.plan, herr, Except.map]⟩

/-- Exactly the supported queries have a plan. For any other the problem is one of its flaws. -/
theorem plan_iff_supported (q : Query) :
    ((∃ plan, q.plan = .ok plan) ↔ q.Supported) ∧
      (q.Supported ∨ ∃ e ∈ q.flaws, q.plan = .error e) := by
  rw [supported_iff]
  rcases q.plan_reports with ⟨hnil, hplan⟩ | ⟨e, he, herr⟩
  · exact ⟨⟨fun _ => hnil, fun _ => hplan⟩, .inl hnil⟩
  · have hne : q.flaws ≠ [] := List.ne_nil_of_mem he
    refine ⟨⟨?_, fun h => absurd h hne⟩, .inr ⟨e, he, herr⟩⟩
    rintro ⟨plan, hplan⟩
    cases herr.symm.trans hplan

-- A question for a pattern may stand below the conjunctions of a filter, but not in an extension.
example :
    let named : GraphPattern := .triples [⟨.var ⟨"x"⟩, .term (.iri "http://e/name"), .var ⟨"n"⟩⟩]
    let test : Condition := .binary .and (.bound ⟨"x"⟩) (.unary .not (.exists named))
    Query.Supported ⟨.select, false, .filter test named⟩ ∧
      ¬ Query.Supported ⟨.select, false, .extend named ⟨"v"⟩ test⟩ := by
  decide

end Query

end TripleAlgebra
