import TripleAlgebra.Solutions.Basic

/-! Solutions over a history of uses. -/
namespace TripleAlgebra

/-- What can be done with solutions: items are taken and the rest is dropped, all rows are gathered,
or it is asked whether there is a row. The rows are pulled or pushed. -/
inductive Use
  | take (m : Mode) (n : Option Nat)
  | gather (m : Mode)
  | ask (m : Mode)
  | isHot
  deriving DecidableEq, Repr

inductive Reply
  | items (is : List Item)
  | rows (r : Except Problem (List Row))
  | found (r : Except Problem Bool)
  | hot (b : Bool)

def Answer.map {α β : Type} (f : α → β) (a : Answer α) : Answer β := ⟨a.effects, f a.value, a.next⟩

namespace Solutions

/-- Both modes have the same effects and replies. -/
def perform (s : Solutions) : Use → Answer Reply
  | .take _ n => (s.take n).map .items
  | .gather _ => s.gather.map .rows
  | .ask _ => s.ask.map .found
  | .isHot => ⟨[], .hot s.isHot, s⟩

/-- One use after the other. -/
def history (s : Solutions) : List Use → Answer (List Reply)
  | [] => ⟨[], [], s⟩
  | u :: us =>
    let first := s.perform u
    let others := first.next.history us
    ⟨first.effects ++ others.effects, first.value :: others.value, others.next⟩

end Solutions
end TripleAlgebra
