import TripleAlgebra.Evaluation.Minus

/-! Rows that are kept because a pattern has a solution for them, or has none. -/
namespace TripleAlgebra

/-- The outer rows for which the existence of an inner solution is as wanted. All outer variables
are substituted into the inner plan. -/
def Event.correlate (outer : List Variable) (inner : Plan) (wanted : Bool)
    (run : (q : Plan) → q.rank ≤ inner.rank → Attempt Solutions) (es : List Event) : List Event :=
  Event.fuse <| Event.expand (fun r =>
    let binding := (Binding.ofHeader outer).load r (List.range outer.length)
    let attempt := run (binding.apply inner) (Plan.rank_bind_le ..)
    let effects := Event.ofEffects attempt.effects
    match attempt.outcome with
    | .error e => effects ++ [.item (.error e)]
    | .ok s =>
      let (done, found) := MinusPlan.firstRow s
      effects ++ done ++ match found with
        | .error e => [.item (.error e)]
        | .ok found => if found = wanted then [.item (.ok r)] else []) es

end TripleAlgebra
