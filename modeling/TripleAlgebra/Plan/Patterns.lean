import TripleAlgebra.Plan.Build

/-! The triple patterns of a plan. Composing plans keeps them in their order. -/
namespace TripleAlgebra.Plan

mutual

/-- The triple patterns at the leaves, from left to right. -/
@[simp] def patterns : Plan → List Pattern
  | .triple t => [t]
  | .join ps | .union ps => patternsEach ps
  | .leftJoin l r _ | .semijoin l r | .antijoin l r | .minus l r _ => l.patterns ++ r.patterns
  | .filter p _ | .project p _ | .distinct p | .weakDistinct p | .limit p _ | .offset p _
  | .slice p _ _ | .values p _ _ | .assign p _ _ | .ask p => p.patterns
  | .identity => []

def patternsEach : List Plan → List Pattern
  | [] => []
  | p :: ps => p.patterns ++ patternsEach ps

end

@[simp] theorem patternsEach_eq (ps : List Plan) : patternsEach ps = ps.flatMap patterns := by
  induction ps with
  | nil => rfl
  | cons p ps ih => rw [patternsEach, ih, List.flatMap_cons]

theorem patterns_joinOperands (p : Plan) : p.joinOperands.flatMap patterns = p.patterns := by
  cases p <;> simp [joinOperands]

@[simp] theorem patterns_joinWith (p q : Plan) :
    (p.joinWith q).patterns = p.patterns ++ q.patterns := by
  simp [joinWith, patterns_joinOperands]

@[simp] theorem patterns_unionWith (p q : Plan) :
    (p.unionWith q).patterns = p.patterns ++ q.patterns := by
  cases p <;> simp [unionWith]

@[simp] theorem patterns_filterBy (p : Plan) (e : Expression) :
    (p.filterBy e).patterns = p.patterns := by
  cases p <;> rfl

@[simp] theorem patterns_sliceTo (p : Plan) (start : Nat) (count : Option Nat) :
    (p.sliceTo start count).patterns = p.patterns := by
  unfold sliceTo
  split <;> rfl

@[simp] theorem patterns_minusOf (p q : Plan) :
    (p.minusOf q).patterns = p.patterns ++ q.patterns := rfl

@[simp] theorem patterns_ofPatterns (ts : List Pattern) : (ofPatterns ts).patterns = ts := by
  unfold ofPatterns
  split
  · rfl
  · rfl
  · simp [List.flatMap_map]

@[simp] theorem patterns_ofTable (vs : List Variable) (rows : List Row) :
    (ofTable vs rows).patterns = [] := rfl

end TripleAlgebra.Plan
