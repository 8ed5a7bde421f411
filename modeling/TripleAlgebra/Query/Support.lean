import TripleAlgebra.Query.Lower

/-! What may stand where in a query that has a plan, and what is wrong with one that has none. -/
namespace TripleAlgebra

section survey
variable {α : Type} (f : GraphPattern → List α) (g : Condition → List α)

mutual

/-- What patterns and conditions contribute, at any depth. -/
@[simp] def GraphPattern.survey : GraphPattern → List α
  | .triples ts => f (.triples ts)
  | .path s p o => f (.path s p o)
  | .join l r => f (.join l r) ++ (l.survey ++ r.survey)
  | .optional l r => f (.optional l r) ++ (l.survey ++ r.survey)
  | .optionalIf l r c => f (.optionalIf l r c) ++ (l.survey ++ (r.survey ++ c.survey))
  | .filter c p => f (.filter c p) ++ (p.survey ++ c.survey)
  | .union l r => f (.union l r) ++ (l.survey ++ r.survey)
  | .graph p => f (.graph p) ++ p.survey
  | .extend p v e => f (.extend p v e) ++ (p.survey ++ e.survey)
  | .minus l r => f (.minus l r) ++ (l.survey ++ r.survey)
  | .values vs rows => f (.values vs rows)
  | .orderBy p v => f (.orderBy p v) ++ p.survey
  | .project p vs => f (.project p vs) ++ p.survey
  | .distinct p => f (.distinct p) ++ p.survey
  | .reduced p => f (.reduced p) ++ p.survey
  | .slice p start count => f (.slice p start count) ++ p.survey
  | .group p vs => f (.group p vs) ++ p.survey
  | .service p => f (.service p) ++ p.survey

@[simp] def Condition.survey : Condition → List α
  | .var v => g (.var v)
  | .const t => g (.const t)
  | .bound v => g (.bound v)
  | .unary op e => g (.unary op e) ++ e.survey
  | .binary op l r => g (.binary op l r) ++ (l.survey ++ r.survey)
  | .member e es => g (.member e es) ++ (e.survey ++ Condition.surveyAll es)
  | .conditional c t e => g (.conditional c t e) ++ (c.survey ++ (t.survey ++ e.survey))
  | .coalesce es => g (.coalesce es) ++ Condition.surveyAll es
  | .call name es => g (.call name es) ++ Condition.surveyAll es
  | .exists p => g (.exists p) ++ p.survey

@[simp] def Condition.surveyAll : List Condition → List α
  | [] => []
  | e :: es => e.survey ++ Condition.surveyAll es

end

end survey

namespace Condition

/-- The parts between the outermost conjunctions. -/
def conjuncts : Condition → List Condition
  | .binary .and l r => l.conjuncts ++ r.conjuncts
  | c => [c]

/-- The patterns in a condition, at any depth. -/
@[simp] def asked (c : Condition) : List GraphPattern := c.survey (fun q => [q]) fun _ => []

def existsFree (c : Condition) : Bool := c.asked.isEmpty

/-- Whether the condition is the question for a pattern, or its negation. -/
def isTest : Condition → Bool
  | .exists _ | .unary .not (.exists _) => true
  | _ => false

/-- The function that is called and the number of its arguments. -/
@[simp] def ownCall : Condition → List (String × Nat)
  | .call name es => [(name, es.length)]
  | _ => []

/-- The calls in a condition, at any depth. -/
@[simp] def calls (c : Condition) : List (String × Nat) := c.survey (fun _ => []) ownCall

end Condition

namespace GraphPattern

/-- The pattern and the patterns in it, at any depth. -/
@[simp] def parts (p : GraphPattern) : List GraphPattern := p.survey (fun q => [q]) fun _ => []

/-- The calls in all expressions, at any depth. -/
@[simp] def calls (p : GraphPattern) : List (String × Nat) :=
  p.survey (fun _ => []) Condition.ownCall

/-- The construct for which a pattern has no plan, whatever its parts are. -/
def unsupported? : GraphPattern → Option UnsupportedPattern
  | .path .. => some .path
  | .graph _ => some .graph
  | .orderBy .. => some .orderBy
  | .group .. => some .group
  | .service _ => some .service
  | _ => none

/-- Whether the conditions of the pattern itself ask for patterns only where they may: a filter as a
whole conjunct, all others nowhere. -/
def asksInPlace : GraphPattern → Bool
  | .filter c _ => c.conjuncts.all fun d => d.isTest || d.existsFree
  | .optionalIf _ _ c | .extend _ _ c => c.existsFree
  | _ => true

structure Supported (p : GraphPattern) : Prop where
  forms : ∀ q ∈ p.parts, q.unsupported? = none
  places : ∀ q ∈ p.parts, q.asksInPlace
  calls : ∀ call ∈ p.calls,
    ∃ f ∈ Function.all, f.name = call.1 ∧ f.arity.1 ≤ call.2 ∧ call.2 ≤ f.arity.2

end GraphPattern

structure Query.Supported (q : Query) : Prop where
  form : q.form = .select ∨ q.form = .ask
  dataset : q.hasDataset = false
  pattern : q.pattern.Supported

/-! What is wrong with a query, at all places. -/

/-- What is wrong with the place of a question for a pattern. -/
def placeFlaws (inPlace : Bool) : List LoweringProblem :=
  if inPlace then [] else [.expression .nestedExists]

def callFlaws (call : String × Nat) : List LoweringProblem :=
  match Function.ofName? call.1 with
  | none => [.expression (.function call.1)]
  | some f => if f.accepts call.2 then [] else [.expression (.arity f call.2)]

def GraphPattern.ownFlaws (p : GraphPattern) : List LoweringProblem :=
  p.unsupported?.toList.map .pattern ++ placeFlaws p.asksInPlace

/-- What is wrong with each of some patterns itself, and with some calls. -/
def flawsOf (parts : List GraphPattern) (calls : List (String × Nat)) : List LoweringProblem :=
  parts.flatMap GraphPattern.ownFlaws ++ calls.flatMap callFlaws

def GraphPattern.flaws (p : GraphPattern) : List LoweringProblem := flawsOf p.parts p.calls

def Condition.flaws (c : Condition) : List LoweringProblem := flawsOf c.asked c.calls

def Query.flaws (q : Query) : List LoweringProblem :=
  (if q.form = .select ∨ q.form = .ask then [] else [.form q.form]) ++
    ((if q.hasDataset then [.dataset] else []) ++ q.pattern.flaws)

end TripleAlgebra
