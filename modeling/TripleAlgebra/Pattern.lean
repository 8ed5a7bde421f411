import TripleAlgebra.Variable

/-! Triples and the patterns that select them. -/
namespace TripleAlgebra

structure Triple where
  subject : Term
  predicate : Term
  object : Term
  deriving DecidableEq, Repr

/-- A position of a pattern: a variable, or the term that it demands. -/
inductive Slot
  | var (v : Variable)
  | term (t : Term)
  deriving DecidableEq, Repr, Inhabited

namespace Slot

def render : Slot → String
  | .var v => v.render
  | .term t => t.render

def vars : Slot → List Variable
  | .var v => [v]
  | .term _ => []

def term? : Slot → Option Term
  | .var _ => none
  | .term t => some t

end Slot

structure Pattern where
  subject : Slot
  predicate : Slot
  object : Slot
  deriving DecidableEq, Repr, Inhabited

namespace Pattern

def render (p : Pattern) : String :=
  p.subject.render ++ " " ++ p.predicate.render ++ " " ++ p.object.render

/-- The distinct variables in subject, predicate, object order. -/
def vars (p : Pattern) : List Variable :=
  Variable.append [] (p.subject.vars ++ (p.predicate.vars ++ p.object.vars))

theorem nodup_vars (p : Pattern) : p.vars.Nodup := Variable.nodup_append .nil

end Pattern
end TripleAlgebra
