import TripleAlgebra.Evaluation.Context
import TripleAlgebra.Expression.Prepared
import TripleAlgebra.RowSet

/-! Operators that treat the rows of their operands one by one. -/
namespace TripleAlgebra
namespace Event

/-- Keeps the rows that a set accepts. -/
def distinct (s : RowSet) : List Event → List Event
  | [] => []
  | .item (.ok r) :: es =>
    match s.insert r with
    | (true, s) => .item (.ok r) :: distinct s es
    | (false, s) => distinct s es
  | e :: es => e :: distinct s es

/-- Skips `start` rows and ends with the row that reaches the limit. Errors are neither skipped nor
counted. -/
def slice (start : Nat) (limit : Option Nat) : List Event → List Event
  | [] => []
  | e :: es =>
    if limit = some 0 then []
    else
      match e, start with
      | .item (.ok _), start + 1 => slice start limit es
      | .item (.ok r), 0 => .item (.ok r) :: slice 0 (limit.map (· - 1)) es
      | e, start => e :: slice start limit es

end Event

namespace Solutions

/-- Keeps the rows that satisfy all conditions. -/
def filter (m : Mode) (header : List Variable) (conditions : List Expression) (s : Solutions) :
    Attempt Solutions :=
  let prepared := conditions.map (PreparedExpression.ofHeader · s.header)
  let keep (r : Row) : Bool := prepared.all (·.isTrue r)
  deliver m header s.isHot { s.run with events := Event.filterRows keep s.run.events }

/-- Sets the column of the target to the value of an expression. A failure leaves it unbound. -/
def assign (m : Mode) (header : List Variable) (target : Variable) (value : Expression)
    (s : Solutions) : Attempt Solutions :=
  let column := (Variable.column? s.header target).getD s.header.length
  let prepared := PreparedExpression.ofHeader value s.header
  let extended (r : Row) : Row := r.withValue column (prepared.evaluate r).toOption
  deliver m header s.isHot { s.run with events := Event.mapRows extended s.run.events }

/-- Selects columns. Pulled solutions that have these columns already are passed on as they are. -/
def project (m : Mode) (header : List Variable) (s : Solutions) : Attempt Solutions :=
  let columns := Variable.columns s.header header
  if m = .pull ∧ Variable.isIdentity columns s.header.length then pure s
  else
    deliver m header s.isHot { s.run with events := Event.mapRows (·.project columns) s.run.events }

def distinct (m : Mode) (header : List Variable) (rule : DuplicateRule) (s : Solutions) :
    Attempt Solutions :=
  deliver m header s.isHot { s.run with events := Event.distinct (.ofRule rule) s.run.events }

def slice (m : Mode) (header : List Variable) (start : Nat) (limit : Option Nat) (s : Solutions) :
    Attempt Solutions :=
  deliver m header s.isHot
    { s.run with events := Event.fuse (Event.slice start limit s.run.events) }

/-- The solutions of an alternative under the header of all. -/
def aligned (header : List Variable) (s : Solutions) : List Event :=
  let columns := Variable.columns s.header header
  if Variable.isIdentity columns s.header.length then s.run.events
  else Event.mapRows (·.project columns) s.run.events

/-- All alternatives begin together and follow one another. -/
def union (m : Mode) (header : List Variable) (ss : List Solutions) : Attempt Solutions :=
  deliver m header (ss.any isHot)
    ⟨ss.flatMap (·.run.opening), ss.flatMap (aligned header)⟩

/-- At most one item is taken. A row becomes the empty row. A pulled test is made when its
consumption begins, a pushed one when its answer is demanded. -/
def test (m : Mode) (header : List Variable) (s : Solutions) : Attempt Solutions :=
  let done := (Event.demand 1 s.run.events).1
  let acts := match s.known with
    | some _ => []
    | none => s.run.opening ++ Event.acts done
  let answer := Event.mapRows (fun _ => .empty) ((Event.items done).map .item)
  match m with
  | .pull => deliver m header s.isHot ⟨acts, answer⟩
  | .push => deliver m header s.isHot ⟨[], acts.map .act ++ answer⟩

end Solutions
end TripleAlgebra
