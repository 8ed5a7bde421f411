import TripleAlgebra.Expression.Render
import TripleAlgebra.Plan.Basic

/-! Plans as an indented tree, one operator a line. -/
namespace TripleAlgebra.Plan

/-- What follows the kind of an operator on its line. -/
def details : Plan → String
  | .triple t => ": " ++ t.render
  | .leftJoin _ _ (some c) => ": " ++ c.render
  | .filter _ [] => ":"
  | .filter _ cs => ": " ++ ", ".intercalate (cs.map Expression.render)
  | .project _ vs => ":" ++ String.join (vs.map fun v => " " ++ v.render)
  | .limit _ n | .offset _ n => ": " ++ toString n
  | .slice _ n none => ": offset=" ++ toString n
  | .slice _ n (some c) => ": offset=" ++ toString n ++ " limit=" ++ toString c
  | .values _ vs rows =>
    ": (" ++ " ".intercalate (vs.map Variable.render) ++ ")" ++
      String.join (rows.map fun r => " " ++ r.render)
  | .assign _ v e => ": " ++ v.render ++ " := " ++ e.render
  | .minus _ _ true => ": bound overlap"
  | _ => ""

mutual

/-- The lines of a plan at a depth. -/
def lines (depth : Nat) (p : Plan) : List String :=
  (String.ofList (List.replicate (2 * depth) ' ') ++ p.kind.name ++ p.details) ::
    match p with
    | .triple _ | .identity => []
    | .join ps | .union ps => linesEach (depth + 1) ps
    | .leftJoin l r _ | .minus l r _ | .semijoin l r | .antijoin l r =>
      lines (depth + 1) l ++ lines (depth + 1) r
    | .filter q _ | .project q _ | .distinct q | .weakDistinct q | .limit q _ | .offset q _
    | .slice q _ _ | .values q _ _ | .assign q _ _ | .ask q => lines (depth + 1) q

def linesEach (depth : Nat) : List Plan → List String
  | [] => []
  | p :: ps => lines depth p ++ linesEach depth ps

end

def render (p : Plan) : String := "\n".intercalate (lines 0 p)

end TripleAlgebra.Plan
