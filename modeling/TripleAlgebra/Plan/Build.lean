import TripleAlgebra.Plan.Basic

/-! Composing plans. Nested joins, unions and filters are merged as they are built. -/
namespace TripleAlgebra.Plan

/-- The operands that a plan contributes to a join. The empty solution contributes none. -/
def joinOperands : Plan → List Plan
  | .join ps => ps
  | .identity => []
  | p => [p]

def joinWith (p q : Plan) : Plan := .join (p.joinOperands ++ q.joinOperands)

/-- Appends an alternative. Only a union on the left is merged. -/
def unionWith : Plan → Plan → Plan
  | .union ps, q => .union (ps ++ [q])
  | p, q => .union [p, q]

def filterBy : Plan → Expression → Plan
  | .filter p cs, c => .filter p (cs ++ [c])
  | p, c => .filter p [c]

/-- The simplest operator that skips and cuts rows. -/
def sliceTo (p : Plan) : Nat → Option Nat → Plan
  | 0, none => p
  | 0, some n => .limit p n
  | start, none => .offset p start
  | start, some n => .slice p start (some n)

def minusOf (p q : Plan) : Plan := .minus p q false

/-- The join of a list of patterns. No pattern gives the empty solution, one gives itself. -/
def ofPatterns : List Pattern → Plan
  | [] => .identity
  | [t] => .triple t
  | ts => .join (ts.map .triple)

def ofTable (vs : List Variable) (rows : List Row) : Plan := .values .identity vs rows

end TripleAlgebra.Plan
