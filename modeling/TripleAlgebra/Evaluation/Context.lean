import TripleAlgebra.Evaluation.Attempt
import TripleAlgebra.Evaluation.Registry
import TripleAlgebra.Plan.Reorder
import TripleAlgebra.Store.Lookup

/-! What an evaluation depends on beside its plan, and how its results are delivered. -/
namespace TripleAlgebra

structure Context where
  store : TripleStore
  config : Config
  registry : Registry

namespace Context

/-- The weight of plans by which join operands are reordered, if they are. -/
def weight? (c : Context) : Option (Plan → Nat) :=
  match c.config.reorder with
  | .disabled => none
  | .shape => some (Plan.weight Pattern.shapeWeight)
  | .cardinality => some (Plan.weight c.store.estimate)

end Context

namespace Solutions

/-- The result of an evaluator. A pulled result begins with each consumption unless a part of it is
hot; it then begins at once, as a pushed result always does. -/
def deliver (m : Mode) (header : List Variable) (hot : Bool) (r : Run) : Attempt Solutions :=
  let hotRun : Run := ⟨[], r.events⟩
  match m, hot with
  | .pull, false => pure { header, source := .generator, run := r }
  | .pull, true => do
    Attempt.perform r.opening
    return { header, source := .iterator, run := hotRun }
  | .push, _ => do
    Attempt.perform r.opening
    return { header, source := .stream, run := hotRun }

end Solutions
end TripleAlgebra
