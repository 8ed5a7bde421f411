import TripleAlgebra.Plan.Patterns
import TripleAlgebra.Query.Blank

/-! The triple patterns of a plan are those of the query that it comes from, in their order. -/
namespace TripleAlgebra

namespace Conjunct

def patterns : Conjunct → List Pattern
  | .holds _ => []
  | .hasSolution p | .hasNone p => p.patterns

theorem patterns_filterAll (p : Plan) (cs : List Conjunct) :
    (cs.foldl filterBy p).patterns = p.patterns := by
  induction cs generalizing p with
  | nil => rfl
  | cons c cs ih =>
    rw [List.foldl_cons, ih]
    cases c <;> simp [filterBy]

theorem patterns_correlateAll (p : Plan) (cs : List Conjunct) :
    (cs.foldl correlate p).patterns = p.patterns ++ cs.flatMap patterns := by
  induction cs generalizing p with
  | nil => simp
  | cons c cs ih =>
    rw [List.foldl_cons, ih]
    cases c <;> simp [correlate, patterns]

/-- Conditions on a row have no patterns, so they come first without a trace. -/
@[simp] theorem patterns_restrict (p : Plan) (cs : List Conjunct) :
    (restrict p cs).patterns = p.patterns ++ cs.flatMap patterns := by
  rw [restrict, patterns_correlateAll, patterns_filterAll]

end Conjunct
namespace Lowering

/-- What holds of every result of a lowering that succeeds. -/
def Gives {α : Type} (m : Lowering α) (Q : α → Prop) : Prop :=
  ∀ ls a ls', m ls = .ok (a, ls') → Q a

namespace Gives
variable {α γ : Type} {P : α → Prop} {Q : γ → Prop}

theorem pure {a : α} (h : P a) : Gives (pure a) P := by
  rintro ls b ls' hb
  cases hb
  exact h

theorem throw (e : LoweringProblem) : Gives (throw e) P := by
  rintro ls b ls' hb
  cases hb

theorem bind {m : Lowering α} {f : α → Lowering γ} (hm : Gives m P)
    (hf : ∀ a, P a → Gives (f a) Q) : Gives (m >>= f) Q := by
  intro ls b ls' hb
  simp only [Bind.bind, StateT.bind, Except.bind] at hb
  cases hstep : m ls with
  | error e => simp [hstep] at hb
  | ok r =>
    rw [hstep] at hb
    exact hf r.1 (hm ls r.1 r.2 hstep) r.2 b ls' hb

theorem anything (m : Lowering α) : Gives m fun _ => True := fun _ _ _ _ => trivial

end Gives

variable (β : String → Variable)

theorem gives_slot (s : Slot) : Gives (slot (s.nameBlanks β)) (· = s.nameBlanks β) := by
  rcases s with _ | _ | _ | _ <;> exact .pure rfl

theorem gives_pattern (p : Pattern) :
    Gives (pattern (p.nameBlanks β)) (· = p.nameBlanks β) :=
  (gives_slot β p.subject).bind fun s hs => (gives_slot β p.object).bind fun o ho =>
    .pure (by rw [hs, ho]; rfl)

theorem gives_patterns (ps : List Pattern) :
    Gives (patterns (ps.map (Pattern.nameBlanks β))) (· = ps.map (Pattern.nameBlanks β)) := by
  induction ps with
  | nil => exact .pure rfl
  | cons p ps ih =>
    exact (gives_pattern β p).bind fun q hq => ih.bind fun qs hqs => .pure (by rw [hq, hqs]; rfl)

end Lowering

/-- The patterns of a condition are those of its parts. A condition that is an expression has
none. -/
structure Readings.Gives (r : Readings) (ts : List Pattern) : Prop where
  expression : Lowering.Gives r.expression fun _ => ts = []
  conjuncts : Lowering.Gives r.conjuncts fun cs => cs.flatMap Conjunct.patterns = ts

namespace Readings
variable {ts : List Pattern}

theorem gives_atom {m : Lowering Expression} (h : Lowering.Gives m fun _ => ts = []) :
    Gives (atom m) ts where
  expression := h
  conjuncts := h.bind fun e he => .pure (by simp [Conjunct.patterns, he])

theorem gives_pattern {m : Lowering Conjunct} (h : Lowering.Gives m fun c => c.patterns = ts) :
    Gives (pattern m) ts where
  expression := .throw _
  conjuncts := h.bind fun c hc => .pure (by simp [hc])

end Readings

section
variable (β : String → Variable)

mutual

theorem GraphPattern.gives_lower : ∀ p : GraphPattern, Lowering.Gives (p.nameBlanks β).lower
    fun q => q.patterns = (p.gather (fun t => [t]) fun _ => []).map (Pattern.nameBlanks β)
  | .triples ts => (Lowering.gives_patterns β ts).bind fun us hus => .pure (by simp [hus])
  | .join l r | .optional l r | .union l r | .minus l r =>
    l.gives_lower.bind fun p hp => r.gives_lower.bind fun q hq => .pure (by simp [hp, hq])
  | .optionalIf l r c => l.gives_lower.bind fun p hp => r.gives_lower.bind fun q hq =>
      c.gives_readings.expression.bind fun e he => .pure (by simp [hp, hq, he])
  | .filter c p => p.gives_lower.bind fun q hq => c.gives_readings.conjuncts.bind fun cs hcs =>
      .pure (by simp [hq, hcs])
  | .extend p v e => p.gives_lower.bind fun q hq => e.gives_readings.expression.bind fun f hf =>
      .pure (by simp [hq, hf])
  | .values vs rows => .pure (by simp)
  | .project p _ | .distinct p | .reduced p | .slice p _ _ =>
    p.gives_lower.bind fun q hq => .pure (by simp [hq])
  | .path .. | .graph _ | .orderBy .. | .group .. | .service _ => .throw _

theorem Condition.gives_readings : ∀ c : Condition,
    Readings.Gives (c.nameBlanks β).readings
      ((c.gather (fun t => [t]) fun _ => []).map (Pattern.nameBlanks β))
  | .var _ | .const _ | .bound _ => Readings.gives_atom (.pure (by simp))
  | .unary op e => by
      have he := Readings.gives_atom
        (e.gives_readings.expression.bind fun f hf => .pure (a := Expression.unary op f) hf)
      -- only the negation of a pattern is read in another way than by its operand
      cases op with
      | not =>
        cases e with
        | «exists» p => exact Readings.gives_pattern (p.gives_lower.bind fun q hq => .pure hq)
        | _ => exact he
      | plus => exact he
      | minus => exact he
  | .binary op l r => by
      cases op with
      | and =>
        exact {
          expression := l.gives_readings.expression.bind fun a ha =>
            r.gives_readings.expression.bind fun b hb => .pure (by simp [ha, hb])
          conjuncts := l.gives_readings.conjuncts.bind fun as has =>
            r.gives_readings.conjuncts.bind fun bs hbs => .pure (by simp [has, hbs]) }
      | _ =>
        exact Readings.gives_atom <| l.gives_readings.expression.bind fun a ha =>
          r.gives_readings.expression.bind fun b hb => .pure (by simp [ha, hb])
  | .member e es => Readings.gives_atom <| e.gives_readings.expression.bind fun f hf =>
      (Condition.gives_expressions es).bind fun fs hfs => .pure (by simp [hf, hfs])
  | .conditional c t e => Readings.gives_atom <| c.gives_readings.expression.bind fun c hc =>
      t.gives_readings.expression.bind fun t ht => e.gives_readings.expression.bind fun e he =>
        .pure (by simp [hc, ht, he])
  | .coalesce es => Readings.gives_atom <|
      (Condition.gives_expressions es).bind fun _ h => .pure h
  | .call name es => Readings.gives_atom <|
      (Lowering.Gives.anything _).bind fun f _ =>
        (Condition.gives_expressions es).bind fun _ h => .pure h
  | .exists p => Readings.gives_pattern (p.gives_lower.bind fun q hq => .pure hq)

theorem Condition.gives_expressions : ∀ es : List Condition,
    Lowering.Gives (Condition.expressions (Condition.nameAllBlanks β es)) fun _ =>
      (Condition.gatherAll (fun t => [t]) (fun _ => []) es).map (Pattern.nameBlanks β) = []
  | [] => .pure rfl
  | e :: es => e.gives_readings.expression.bind fun _ he =>
      (Condition.gives_expressions es).bind fun _ hes => .pure (by simp [he, hes])

end
end

end TripleAlgebra
