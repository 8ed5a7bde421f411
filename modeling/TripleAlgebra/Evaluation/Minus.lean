import TripleAlgebra.Evaluation.Context
import TripleAlgebra.Join.Chain

/-! Differences: left rows that agree with a right row on what both bind are removed. -/
namespace TripleAlgebra

/-- Whether two keys agree wherever both are bound, and both are bound somewhere if an overlap is
required. -/
def compatible (left right : Row) (overlapRequired : Bool) : Bool :=
  let both := (left.zip right).filter fun (l, r) => l.isSome && r.isSome
  both.all (fun (l, r) => l = r) && (!both.isEmpty || !overlapRequired)

/-- The keys of the right rows: those that bind every shared variable, and the others. -/
structure MinusTable where
  complete : List Row
  part : List Row

namespace MinusTable

def isComplete (key : Row) : Bool := key.all Option.isSome

def ofKeys (keys : List Row) : MinusTable := ⟨keys.filter isComplete, keys.filter (!isComplete ·)⟩

/-- Whether a left key is removed. A complete key matches a complete one only if they are equal. -/
def removes (t : MinusTable) (key : Row) (overlapRequired : Bool) : Bool :=
  (isComplete key && (!overlapRequired || !key.isEmpty) && t.complete.contains key) ||
    (t.part ++ if isComplete key then [] else t.complete).any (compatible key · overlapRequired)

end MinusTable

/-- The shared variables of a difference and where they stand on either side. Those that every right
row binds are substituted into the right side, the others are compared with each of its rows. -/
structure MinusPlan where
  right : Plan
  boundOverlap : Bool
  leftKey : List (Option Nat)
  rightKey : List (Option Nat)
  substituted : List Variable
  substitutedColumns : List Nat
  compared : List Variable
  comparedKey : List (Option Nat)

namespace MinusPlan

def ofSides (left right : Plan) (boundOverlap : Bool) : MinusPlan :=
  let shared := left.vars.filter (· ∈ right.vars)
  let substituted := shared.filter (· ∈ right.certain)
  let compared := shared.filter (· ∉ right.certain)
  { right, boundOverlap, substituted, compared
    leftKey := Variable.columns left.vars shared
    rightKey := Variable.columns right.vars shared
    substitutedColumns := substituted.filterMap (Variable.column? left.vars)
    comparedKey := Variable.columns left.vars compared }

/-- What happens until a right row is found that removes the left row, and whether one is. -/
def search (keyColumns : List (Option Nat)) (leftKey : Row) (overlapRequired : Bool) :
    List Event → List Event × Except Problem Bool
  | [] => ([], .ok false)
  | .act a :: es =>
    let (done, r) := search keyColumns leftKey overlapRequired es
    (.act a :: done, r)
  | .item (.error e) :: _ => ([], .error e)
  | .item (.ok r) :: es =>
    if compatible leftKey (r.project keyColumns) overlapRequired then ([], .ok true)
    else search keyColumns leftKey overlapRequired es

/-- Whether there is a row at all. -/
def firstRow (s : Solutions) : List Event × Except Problem Bool :=
  let (done, _) := Event.demand 1 s.run.started
  (Event.ofEffects (Event.effects done),
    match Event.items done with
    | .error e :: _ => .error e
    | .ok _ :: _ => .ok true
    | [] => .ok false)

/-- Whether a left row is removed, by the right side specialised for it. A row that cannot overlap
with any right row is kept without evaluation. -/
def removesBound (p : MinusPlan) (run : (q : Plan) → q.rank ≤ p.right.rank → Attempt Solutions)
    (row : Row) : List Event × Except Problem Bool :=
  let binding := (Binding.ofHeader p.substituted).load row p.substitutedColumns
  let leftKey := row.project p.comparedKey
  let overlapRequired := !p.boundOverlap && binding.values.all Option.isNone
  if overlapRequired && leftKey.all Option.isNone then ([], .ok false)
  else
    let attempt := run (binding.apply p.right) (Plan.rank_bind_le ..)
    let effects := Event.ofEffects attempt.effects
    match attempt.outcome with
    | .error e => (effects, .error e)
    | .ok s =>
      let (done, found) :=
        if p.compared.isEmpty then firstRow s
        else
          search (Variable.columns s.header p.compared) leftKey overlapRequired
            (Event.settle s.run.started)
      (effects ++ done, found)

/-- The left rows that are not removed. -/
def boundEvents (p : MinusPlan) (run : (q : Plan) → q.rank ≤ p.right.rank → Attempt Solutions)
    (es : List Event) : List Event :=
  Event.fuse <| Event.expand (fun r =>
    let (done, removed) := p.removesBound run r
    done ++ match removed with
      | .error e => [.item (.error e)]
      | .ok true => []
      | .ok false => [.item (.ok r)]) es

/-- Gathers the right rows when the first left row is there, once for all consumptions. -/
def beforeFirstRow (once : List Effect) : List Event → List Event
  | [] => []
  | .item (.ok r) :: es => .act (.once once) :: .item (.ok r) :: es
  | e :: es => e :: beforeFirstRow once es

/-- The left rows that no right row removes. A failure to gather the right rows takes the place of
each left row. -/
def setEvents (p : MinusPlan) (right : Solutions) (es : List Event) : List Event :=
  let gathered := right.gather
  Event.fuse <| Event.expand (fun r =>
    match gathered.value with
    | .error e => [.item (.error e)]
    | .ok rows =>
      let table := MinusTable.ofKeys (rows.map (·.project p.rightKey))
      if table.removes (r.project p.leftKey) (!p.boundOverlap) then [] else [.item (.ok r)])
    (beforeFirstRow gathered.effects es)

end MinusPlan
end TripleAlgebra
