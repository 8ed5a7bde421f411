import TripleAlgebra.Proofs.LoweredPatterns
import TripleAlgebra.Proofs.Numbering

/-! A plan has variables for the blank nodes of its query, one for each label. -/
namespace TripleAlgebra

namespace Lowering

theorem blankVariable_injective {i j : Nat} (h : blankVariable i = blankVariable j) : i = j := by
  have hnames := congrArg Variable.name h
  rw [blankVariable, blankVariable, String.append_right_inj] at hnames
  have hdigits := congrArg (fun s => Nat.ofDigitChars 10 s.toList 0) hnames
  simpa [Nat.toList_repr] using hdigits

/-- What `m` lowers has blank nodes with the labels `bs`, and `m' β` lowers the same with the
variable `β l` in place of each blank node `l`. The first numbers labels after those met `before`,
the second meets none. Both have the same result if `β` agrees with the numbers. -/
def Names {α : Type} (bs : List String) (m : Lowering α) (m' : (String → Variable) → Lowering α) :
    Prop :=
  ∀ (before ls : List String) (β : String → Variable),
    (∀ l ∈ bs, β l = blankVariable ((before ++ bs).eraseDups.idxOf l)) →
    match m before.eraseDups with
    | .ok (a, after) => after = (before ++ bs).eraseDups ∧ m' β ls = .ok (a, ls)
    | .error e => m' β ls = .error e

namespace Names
variable {α γ : Type} {bs cs : List String}

theorem pure (a : α) : Names [] (pure a) fun _ => pure a := by
  intro before ls β _
  exact ⟨by rw [List.append_nil], rfl⟩

theorem throw (e : LoweringProblem) : Names (α := α) bs (throw e) fun _ => throw e :=
  fun _ _ _ _ => rfl

theorem bind {m : Lowering α} {m' : (String → Variable) → Lowering α} {f : α → Lowering γ}
    {f' : (String → Variable) → α → Lowering γ} (hm : Names bs m m')
    (hf : ∀ a, Names cs (f a) fun β => f' β a) :
    Names (bs ++ cs) (m >>= f) fun β => m' β >>= f' β := by
  intro before ls β hβ
  have hfirst : ∀ l ∈ bs, β l = blankVariable ((before ++ bs).eraseDups.idxOf l) := by
    intro l hl
    rw [hβ l (List.mem_append_left _ hl), ← List.append_assoc,
      idxOf_eraseDups_append (List.mem_append_right _ hl)]
  have hsecond : ∀ l ∈ cs, β l = blankVariable ((before ++ bs ++ cs).eraseDups.idxOf l) := by
    intro l hl
    rw [hβ l (List.mem_append_right _ hl), List.append_assoc]
  have h := hm before ls β hfirst
  simp only [Bind.bind, StateT.bind, Except.bind]
  cases hstep : m before.eraseDups with
  | error e =>
    simp only [hstep] at h
    simp only [h]
  | ok r =>
    obtain ⟨a, after⟩ := r
    simp only [hstep] at h
    obtain ⟨rfl, h'⟩ := h
    simp only [h', ← List.append_assoc]
    exact hf a (before ++ bs) ls β hsecond

theorem map {m : Lowering α} {m' : (String → Variable) → Lowering α} (hm : Names bs m m')
    (f : α → γ) : Names bs (do return f (← m)) fun β => do return f (← m' β) := by
  have h := hm.bind fun a => Names.pure (f a)
  rwa [List.append_nil] at h

end Names

theorem names_variableFor (label : String) :
    Names [label] (variableFor label) fun β => return β label := by
  intro before ls β hβ
  have hlabel : β label = blankVariable ((before ++ [label]).eraseDups.idxOf label) :=
    hβ label (List.mem_singleton_self label)
  unfold variableFor
  obtain ⟨hfound, hnext, hnumber⟩ | ⟨n, hfound, hsame, hnumber⟩ :=
    eraseDups_concat_cases before label
  all_goals
    rw [hnumber] at hlabel
    simp only [hfound, hlabel]
  · exact ⟨hnext.symm, rfl⟩
  · exact ⟨hsame.symm, rfl⟩

theorem names_slot : ∀ s : Slot, Names s.blanks (slot s) fun β => slot (s.nameBlanks β)
  | .var v => .pure (Slot.var v)
  | .term (.iri n) => .pure (Slot.term (.iri n))
  | .term (.blank label) => (names_variableFor label).map Slot.var
  | .term (.literal l) => .pure (Slot.term (.literal l))

theorem names_pattern (p : Pattern) :
    Names p.blanks (pattern p) fun β => pattern (p.nameBlanks β) :=
  (names_slot p.subject).bind fun s => (names_slot p.object).map fun o => Pattern.mk s p.predicate o

theorem names_patterns : ∀ ps : List Pattern, Names (ps.flatMap Pattern.blanks) (patterns ps)
    fun β => patterns (ps.map (Pattern.nameBlanks β))
  | [] => .pure []
  | p :: ps => (names_pattern p).bind fun q => (names_patterns ps).map (q :: ·)

theorem names_function (name : String) (count : Nat) :
    Names [] (function name count) fun _ => function name count := by
  unfold function
  split
  · exact .throw _
  · split
    · exact .pure _
    · exact .throw _

end Lowering

/-- The readings of a condition, against those of a condition with variables for its blank nodes. -/
structure Readings.Names (bs : List String) (r : Readings) (r' : (String → Variable) → Readings) :
    Prop where
  expression : Lowering.Names bs r.expression fun β => (r' β).expression
  conjuncts : Lowering.Names bs r.conjuncts fun β => (r' β).conjuncts

namespace Readings
variable {bs : List String}

theorem names_atom {m : Lowering Expression} {m' : (String → Variable) → Lowering Expression}
    (h : Lowering.Names bs m m') : Names bs (atom m) fun β => atom (m' β) where
  expression := h
  conjuncts := h.map fun e => [Conjunct.holds e]

theorem names_pattern {m : Lowering Conjunct} {m' : (String → Variable) → Lowering Conjunct}
    (h : Lowering.Names bs m m') : Names bs (pattern m) fun β => pattern (m' β) where
  expression := .throw _
  conjuncts := h.map fun c => [c]

end Readings

namespace GraphPattern
variable (p : GraphPattern) (vs : List Variable)

theorem blanks_extend (v : Variable) (e : Condition) :
    (extend p v e).blanks = p.blanks ++ e.blanks := by
  simp [blanks, Condition.blanks]

theorem blanks_values (rows : List Row) : (values vs rows).blanks = [] := by
  simp [blanks]

theorem blanks_project : (project p vs).blanks = p.blanks := by
  simp [blanks]

end GraphPattern

theorem Condition.length_nameAllBlanks (β : String → Variable) (es : List Condition) :
    (nameAllBlanks β es).length = es.length := by
  induction es with
  | nil => rfl
  | cons e es ih => rw [nameAllBlanks, List.length_cons, List.length_cons, ih]

/-! By induction on patterns and conditions. The labels met before are arbitrary, so that the parts
of a pattern follow each other by `Names.bind`. -/

mutual

theorem GraphPattern.names_lower : ∀ p : GraphPattern,
    Lowering.Names p.blanks p.lower fun β => (p.nameBlanks β).lower
  | .triples ts => (Lowering.names_patterns ts).map Plan.ofPatterns
  | .join l r => l.names_lower.bind fun p => r.names_lower.map p.joinWith
  | .optional l r => l.names_lower.bind fun p => r.names_lower.map fun q => Plan.leftJoin p q none
  | .optionalIf l r c => l.names_lower.bind fun p => r.names_lower.bind fun q =>
      c.names_readings.expression.map fun e => Plan.leftJoin p q (some e)
  | .filter c p => p.names_lower.bind fun q => c.names_readings.conjuncts.map (Conjunct.restrict q)
  | .union l r => l.names_lower.bind fun p => r.names_lower.map p.unionWith
  | .extend p v e => by
      rw [GraphPattern.blanks_extend]
      exact p.names_lower.bind fun q => e.names_readings.expression.map fun f => Plan.assign q v f
  | .minus l r => l.names_lower.bind fun p => r.names_lower.map p.minusOf
  | .values vs rows => by
      rw [GraphPattern.blanks_values]
      exact .pure (Plan.ofTable vs rows)
  | .project p vs => by
      rw [GraphPattern.blanks_project]
      exact p.names_lower.map fun q => Plan.project q vs
  | .distinct p => p.names_lower.map Plan.distinct
  | .reduced p => p.names_lower.map Plan.weakDistinct
  | .slice p start count => p.names_lower.map fun q => q.sliceTo start count
  | .path .. | .graph _ | .orderBy .. | .group .. | .service _ => .throw _

theorem Condition.names_readings : ∀ c : Condition,
    Readings.Names c.blanks c.readings fun β => (c.nameBlanks β).readings
  | .var _ | .const _ | .bound _ => Readings.names_atom (.pure _)
  | .unary op e => by
      have he := Readings.names_atom (e.names_readings.expression.map (Expression.unary op))
      -- only the negation of a pattern is read in another way than by its operand
      cases op with
      | not =>
        cases e with
        | «exists» p => exact Readings.names_pattern (p.names_lower.map Conjunct.hasNone)
        | _ => exact he
      | plus => exact he
      | minus => exact he
  | .binary op l r => by
      have he := l.names_readings.expression.bind fun a =>
        r.names_readings.expression.map (Expression.binary op a)
      have hcs := l.names_readings.conjuncts.bind fun cs => r.names_readings.conjuncts.map (cs ++ ·)
      cases op with
      | and => exact ⟨he, hcs⟩
      | _ => exact Readings.names_atom he
  | .member e es => Readings.names_atom <| e.names_readings.expression.bind fun f =>
      (Condition.names_expressions es).map fun fs => Expression.member f fs
  | .conditional c t e => Readings.names_atom <| c.names_readings.expression.bind fun c =>
      t.names_readings.expression.bind fun t =>
        e.names_readings.expression.map fun e => Expression.conditional c t e
  | .coalesce es => Readings.names_atom <|
      (Condition.names_expressions es).map Expression.coalesce
  | .call name es => by
      have hcount : (fun β => (Condition.nameBlanks β (.call name es)).readings) = fun β =>
          Readings.atom do
            let f ← Lowering.function name es.length
            return .call f (← Condition.expressions (Condition.nameAllBlanks β es)) := by
        funext β
        rw [Condition.nameBlanks, Condition.readings, Condition.length_nameAllBlanks]
      rw [hcount]
      exact Readings.names_atom <| (Lowering.names_function name es.length).bind fun f =>
        (Condition.names_expressions es).map fun fs => Expression.call f fs
  | .exists p => Readings.names_pattern (p.names_lower.map Conjunct.hasSolution)

theorem Condition.names_expressions : ∀ es : List Condition,
    Lowering.Names (Condition.gatherAll Pattern.blanks (fun _ => []) es) (Condition.expressions es)
      fun β => Condition.expressions (Condition.nameAllBlanks β es)
  | [] => .pure []
  | e :: es => e.names_readings.expression.bind fun f =>
      (Condition.names_expressions es).map (f :: ·)

end

namespace GraphPattern

theorem plan_nameBlanks (p : GraphPattern) : (p.nameBlanks p.blankName).plan = p.plan := by
  have h := p.names_lower [] [] p.blankName fun l _ => rfl
  unfold plan StateT.run
  cases hlower : p.lower [] with
  | error e =>
    simp only [List.eraseDups_nil, hlower] at h
    rw [h]
  | ok r =>
    obtain ⟨q, ls⟩ := r
    simp only [List.eraseDups_nil, hlower] at h
    rw [h.2]
    rfl

theorem blankName_injective {p : GraphPattern} {l l' : String} (hl : l ∈ p.blanks)
    (h : p.blankName l = p.blankName l') : l = l' :=
  (List.idxOf_inj (List.mem_eraseDups.mpr hl)).mp (Lowering.blankVariable_injective h)

/-- The variables of the blank nodes are the first ones, as many as there are labels. -/
theorem exists_blankName {p : GraphPattern} {v : Variable} :
    (∃ l ∈ p.blanks, p.blankName l = v) ↔
      ∃ i < p.blanks.eraseDups.length, Lowering.blankVariable i = v := by
  constructor
  · rintro ⟨l, hl, rfl⟩
    exact ⟨_, List.idxOf_lt_length_of_mem (List.mem_eraseDups.mpr hl), rfl⟩
  · rintro ⟨i, hi, rfl⟩
    refine ⟨p.blanks.eraseDups[i], List.mem_eraseDups.mp (List.getElem_mem hi), ?_⟩
    rw [blankName, (nodup_eraseDups p.blanks).idxOf_getElem i hi]

theorem patterns_of_plan {p : GraphPattern} {q : Plan} (h : p.plan = .ok q) :
    q.patterns = p.patterns.map (Pattern.nameBlanks p.blankName) := by
  rw [← plan_nameBlanks, plan] at h
  cases hlower : (p.nameBlanks p.blankName).lower.run [] with
  | error e => simp [hlower, Except.map] at h
  | ok r =>
    rw [hlower] at h
    cases h
    exact p.gives_lower p.blankName [] r.1 r.2 hlower

theorem patterns_of_query {p : GraphPattern} {form : QueryForm} {hasDataset : Bool} {q : Plan}
    (h : Query.plan ⟨form, hasDataset, p⟩ = .ok q) :
    q.patterns = p.patterns.map (Pattern.nameBlanks p.blankName) := by
  cases hasDataset with
  | true => cases form <;> cases h
  | false =>
    cases form with
    | select => exact patterns_of_plan h
    | ask =>
      change p.plan.map .ask = .ok q at h
      cases hplan : p.plan with
      | error e =>
        rw [hplan] at h
        cases h
      | ok r =>
        rw [hplan] at h
        cases h
        rw [Plan.patterns]
        exact patterns_of_plan hplan
    | construct => cases h
    | describe => cases h

/-- A pattern lowers as it does with variables for its blank nodes, and these are the variables in
its plan. A label has the same variable at all places, also in conditions, and different labels have
different ones. They are new to the query unless it has one of the first numbered variables itself,
as many as there are labels. -/
theorem blank_nodes_become_variables (p : GraphPattern) :
    (∀ l ∈ p.blanks, ∀ l' ∈ p.blanks, p.blankName l = p.blankName l' → l = l') ∧
      (p.nameBlanks p.blankName).plan = p.plan ∧
      (∀ form hasDataset, Query.plan ⟨form, hasDataset, p.nameBlanks p.blankName⟩ =
        Query.plan ⟨form, hasDataset, p⟩) ∧
      (∀ q, (p.plan = .ok q ∨ ∃ form hasDataset, Query.plan ⟨form, hasDataset, p⟩ = .ok q) →
        q.patterns = p.patterns.map (Pattern.nameBlanks p.blankName)) ∧
      ((∀ l ∈ p.blanks, p.blankName l ∉ p.vars) ↔
        ∀ i < p.blanks.eraseDups.length, Lowering.blankVariable i ∉ p.vars) := by
  refine ⟨fun l hl l' _ h => blankName_injective hl h, p.plan_nameBlanks,
    fun form hasDataset => ?_, ?_, ?_, ?_⟩
  · unfold Query.plan
    rw [p.plan_nameBlanks]
  · rintro q (h | ⟨form, hasDataset, h⟩)
    · exact patterns_of_plan h
    · exact patterns_of_query h
  · intro hfresh i hi
    obtain ⟨l, hl, hname⟩ := exists_blankName.mpr ⟨i, hi, rfl⟩
    exact hname ▸ hfresh l hl
  · intro hfree l hl
    obtain ⟨i, hi, hname⟩ := exists_blankName.mp ⟨l, hl, rfl⟩
    exact hname ▸ hfree i hi

/-- A label shared with a condition has one variable, and the other label another one. -/
theorem blank_nodes_become_variables_exists :
    let p : GraphPattern :=
      .filter (.exists (.triples [⟨.term (.blank "x"), .term (.iri "p"), .term (.blank "y")⟩]))
        (.triples [⟨.term (.blank "x"), .term (.iri "p"), .var ⟨"o"⟩⟩])
    p.blankName "x" ≠ p.blankName "y" ∧ (∀ l ∈ p.blanks, p.blankName l ∉ p.vars) ∧
      ∃ q, p.plan = .ok q ∧ q.patterns = p.patterns.map (Pattern.nameBlanks p.blankName) := by
  intro p
  obtain ⟨hinj, -, -, hpatterns, hfresh⟩ := blank_nodes_become_variables p
  have hx : "x" ∈ p.blanks := by decide
  have hy : "y" ∈ p.blanks := by decide
  refine ⟨fun h => absurd (hinj "x" hx "y" hy h) (by decide), hfresh.mpr ?_,
    _, rfl, hpatterns _ (.inl rfl)⟩
  decide

/-- A query may have the variable of a blank node as its own. -/
theorem blank_node_taken_for_variable :
    let p : GraphPattern :=
      .triples [⟨.term (.blank "x"), .term (.iri "http://e/p"), .var ⟨"_bnode_0"⟩⟩]
    ∃ q, p.plan = .ok q ∧ ¬ ∃ β : String → Variable,
      (∀ l ∈ p.blanks, ∀ l' ∈ p.blanks, β l = β l' → l = l') ∧
      q.patterns = p.patterns.map (Pattern.nameBlanks β) ∧ ∀ l ∈ p.blanks, β l ∉ p.vars := by
  intro p
  refine ⟨_, rfl, ?_⟩
  rintro ⟨β, -, hpatterns, hfresh⟩
  have hx : β "x" = ⟨"_bnode_0"⟩ := by
    injection hpatterns with hpattern
    injection hpattern with hsubject
    injection hsubject with hvariable
    exact hvariable.symm
  refine hfresh "x" (List.mem_singleton_self "x") ?_
  rw [hx]
  decide

end GraphPattern
end TripleAlgebra
