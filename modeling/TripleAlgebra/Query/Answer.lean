import TripleAlgebra.Evaluation.Dispatch
import TripleAlgebra.Query.Lower

/-! Answers of queries. -/
namespace TripleAlgebra

inductive QueryProblem
  | configuration (m : MissingEvaluator)
  | lowering (p : LoweringProblem)
  | evaluation (p : Problem)

def QueryProblem.message : QueryProblem → String
  | .configuration m => m.message
  | .lowering p => p.message
  | .evaluation p => p.message

inductive QueryAnswer
  | solutions (s : Solutions)
  | boolean (b : Bool)

def QueryAnswer.inspect : QueryAnswer → String
  | .solutions s => "Solutions(" ++ Variable.inspectAll s.header ++ ")"
  | .boolean b => "Boolean(" ++ toString b ++ ")"

namespace Query

/-- The solutions of a plan, provided that every kind of node has its evaluator. -/
def solutions (c : Context) (p : Plan) : Except QueryProblem Solutions := do
  (c.registry.validate c.config).mapError .configuration
  (p.execute c).outcome.mapError .evaluation

/-- A test is answered by whether its plan has a row, a selection by its solutions. -/
def answer (c : Context) (q : Query) : Except QueryProblem QueryAnswer := do
  (c.registry.validate c.config).mapError .configuration
  let p ← q.plan.mapError .lowering
  let s ← solutions c p
  match q.form with
  | .ask => return .boolean (← s.ask.value.mapError .evaluation)
  | _ => return .solutions s

end Query
end TripleAlgebra
