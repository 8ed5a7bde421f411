import TripleAlgebra.Config
import TripleAlgebra.Row

/-! Sets of rows that decide which rows are duplicates. -/
namespace TripleAlgebra

/-- The accepted rows that new rows are compared with. A window holds its rows oldest first. -/
inductive RowSet
  | all (members : List Row)
  | window (size : Nat) (queue : List Row) (members : List Row)

namespace RowSet

def ofRule : DuplicateRule → RowSet
  | .all => .all []
  | .window size => .window size.rows [] []

/-- Creates a window for so many rows, unless memory for them cannot be reserved. -/
def window? (n : Nat) : Option RowSet := (WindowSize.ofNat? n).map fun size => ofRule (.window size)

/-- A full window forgets its oldest row before it looks at the next one. -/
def evict (size : Nat) (queue members : List Row) : List Row × List Row :=
  if queue.length = size then
    match queue with
    | r :: rs => (rs, members.erase r)
    | [] => ([], members)
  else (queue, members)

/-- Accepts a row unless it is a member. -/
def insert (r : Row) : RowSet → Bool × RowSet
  | .all members => if r ∈ members then (false, .all members) else (true, .all (r :: members))
  | .window 0 queue members => (true, .window 0 queue members)
  | .window size queue members =>
    let (queue, members) := evict size queue members
    if r ∈ members then (false, .window size queue members)
    else (true, .window size (queue ++ [r]) (r :: members))

/-- Which of the rows are accepted, one after the other. -/
def accepts (s : RowSet) : List Row → List Bool
  | [] => []
  | r :: rs =>
    let (accepted, s) := s.insert r
    accepted :: accepts s rs

end RowSet
end TripleAlgebra
