import TripleAlgebra.Query.Lower

/-! The blank nodes and the variables of a query, and a query that has variables for its blank
nodes. -/
namespace TripleAlgebra

namespace Slot

def blanks : Slot → List String
  | .term (.blank label) => [label]
  | _ => []

def nameBlanks (β : String → Variable) : Slot → Slot
  | .term (.blank label) => .var (β label)
  | s => s

end Slot

namespace Pattern

/-- No blank node is a predicate. -/
def blanks (p : Pattern) : List String := p.subject.blanks ++ p.object.blanks

def nameBlanks (β : String → Variable) (p : Pattern) : Pattern :=
  ⟨p.subject.nameBlanks β, p.predicate, p.object.nameBlanks β⟩

end Pattern

section gather
variable {α : Type} (f : Pattern → List α) (g : Variable → List α)

mutual

/-- What triple patterns and variables contribute, wherever they stand, in the order in which a
query is lowered. -/
@[simp] def GraphPattern.gather : GraphPattern → List α
  | .triples ts => ts.flatMap f
  | .path s p o => f ⟨s, .term (.iri p), o⟩
  | .join l r | .optional l r | .union l r | .minus l r => l.gather ++ r.gather
  | .optionalIf l r c => l.gather ++ (r.gather ++ c.gather)
  | .filter c p => p.gather ++ c.gather
  | .extend p v e => p.gather ++ (e.gather ++ g v)
  | .values vs _ => vs.flatMap g
  | .orderBy p v => p.gather ++ g v
  | .project p vs | .group p vs => p.gather ++ vs.flatMap g
  | .graph p | .distinct p | .reduced p | .slice p _ _ | .service p => p.gather

@[simp] def Condition.gather : Condition → List α
  | .var v | .bound v => g v
  | .const _ => []
  | .unary _ e => e.gather
  | .binary _ l r => l.gather ++ r.gather
  | .member e es => e.gather ++ Condition.gatherAll es
  | .conditional c t e => c.gather ++ (t.gather ++ e.gather)
  | .coalesce es | .call _ es => Condition.gatherAll es
  | .exists p => p.gather

@[simp] def Condition.gatherAll : List Condition → List α
  | [] => []
  | e :: es => e.gather ++ Condition.gatherAll es

end

end gather

section nameBlanks
variable (β : String → Variable)

mutual

/-- Blank nodes give way to variables, also in conditions. -/
@[simp] def GraphPattern.nameBlanks : GraphPattern → GraphPattern
  | .triples ts => .triples (ts.map (Pattern.nameBlanks β))
  | .path s p o => .path (s.nameBlanks β) p (o.nameBlanks β)
  | .join l r => .join l.nameBlanks r.nameBlanks
  | .optional l r => .optional l.nameBlanks r.nameBlanks
  | .optionalIf l r c => .optionalIf l.nameBlanks r.nameBlanks c.nameBlanks
  | .filter c p => .filter c.nameBlanks p.nameBlanks
  | .union l r => .union l.nameBlanks r.nameBlanks
  | .graph p => .graph p.nameBlanks
  | .extend p v e => .extend p.nameBlanks v e.nameBlanks
  | .minus l r => .minus l.nameBlanks r.nameBlanks
  | .values vs rows => .values vs rows
  | .orderBy p v => .orderBy p.nameBlanks v
  | .project p vs => .project p.nameBlanks vs
  | .distinct p => .distinct p.nameBlanks
  | .reduced p => .reduced p.nameBlanks
  | .slice p start count => .slice p.nameBlanks start count
  | .group p vs => .group p.nameBlanks vs
  | .service p => .service p.nameBlanks

@[simp] def Condition.nameBlanks : Condition → Condition
  | .var v => .var v
  | .const t => .const t
  | .bound v => .bound v
  | .unary op e => .unary op e.nameBlanks
  | .binary op l r => .binary op l.nameBlanks r.nameBlanks
  | .member e es => .member e.nameBlanks (Condition.nameAllBlanks es)
  | .conditional c t e => .conditional c.nameBlanks t.nameBlanks e.nameBlanks
  | .coalesce es => .coalesce (Condition.nameAllBlanks es)
  | .call name es => .call name (Condition.nameAllBlanks es)
  | .exists p => .exists p.nameBlanks

@[simp] def Condition.nameAllBlanks : List Condition → List Condition
  | [] => []
  | e :: es => e.nameBlanks :: Condition.nameAllBlanks es

end

end nameBlanks

def Condition.blanks (c : Condition) : List String := c.gather Pattern.blanks fun _ => []

namespace GraphPattern

/-- The labels of the blank nodes at all their places. -/
def blanks (p : GraphPattern) : List String := p.gather Pattern.blanks fun _ => []

/-- The triple patterns at all their places. -/
def patterns (p : GraphPattern) : List Pattern := p.gather (fun t => [t]) fun _ => []

/-- The variables at all their places. -/
def vars (p : GraphPattern) : List Variable := p.gather Pattern.vars fun v => [v]

/-- Blank nodes are numbered in the order in which their labels are first met. -/
def blankName (p : GraphPattern) (label : String) : Variable :=
  Lowering.blankVariable (p.blanks.eraseDups.idxOf label)

end GraphPattern
end TripleAlgebra
