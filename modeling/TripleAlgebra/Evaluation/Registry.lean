import TripleAlgebra.Problem

/-! Which evaluator takes which kind of node in which mode. -/
namespace TripleAlgebra

/-- Kinds of nodes that are evaluated alike have one family. -/
inductive Family
  | triple | join | union | filter | project | distinct | slice | values | assign | correlated
  | minus | ask | identity
  deriving DecidableEq, Repr

def NodeKind.family : NodeKind → Family
  | .triple => .triple
  | .join | .leftJoin => .join
  | .union => .union
  | .filter => .filter
  | .project => .project
  | .distinct | .weakDistinct => .distinct
  | .limit | .offset | .slice => .slice
  | .values => .values
  | .assign => .assign
  | .semijoin | .antijoin => .correlated
  | .minus => .minus
  | .ask => .ask
  | .identity => .identity

/-- A fixed evaluator has no solutions, whatever the node. -/
inductive Evaluator
  | builtin (family : Family) (mode : Mode)
  | fixed (header : List Variable)
  deriving DecidableEq, Repr

structure Registry where
  entries : List ((NodeKind × Mode) × Evaluator)
  deriving Repr

namespace Registry

def empty : Registry := ⟨[]⟩

/-- Both evaluators of every kind. -/
def builtin : Registry :=
  ⟨NodeKind.all.flatMap fun k => [.pull, .push].map fun m => ((k, m), .builtin k.family m)⟩

def find? (r : Registry) (k : NodeKind) (m : Mode) : Option Evaluator := r.entries.lookup (k, m)

/-- Removes an evaluator. The flag says that there was one. -/
def erase (r : Registry) (k : NodeKind) (m : Mode) : Bool × Registry :=
  ((r.find? k m).isSome, ⟨r.entries.filter (·.1 ≠ (k, m))⟩)

/-- Sets an evaluator. The flag says that it replaces one. -/
def insert (r : Registry) (k : NodeKind) (m : Mode) (e : Evaluator) : Bool × Registry :=
  let (replaced, rest) := r.erase k m
  (replaced, ⟨((k, m), e) :: rest.entries⟩)

def size (r : Registry) : Nat := r.entries.length

/-- Succeeds if every kind has an evaluator in its mode. Else the first kind without one counts. -/
def validate (r : Registry) (c : Config) : Except MissingEvaluator Unit :=
  match NodeKind.all.find? fun k => (r.find? k (c.mode k)).isNone with
  | some k => .error ⟨k, c.mode k⟩
  | none => .ok ()

end Registry
end TripleAlgebra
