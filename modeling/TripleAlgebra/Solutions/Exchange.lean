import TripleAlgebra.Solutions.Subscription

/-! A subscription over a schedule of turns of its consumer and its producer. -/
namespace TripleAlgebra

/-- A turn of the consumer, who asks for rows, receives without asking or cancels, or of the
producer. -/
inductive Turn
  | request (n : Nat)
  | receive
  | cancel
  | produce
  deriving DecidableEq, Repr

namespace Turn

def asks : Turn → Nat
  | .request n => n
  | _ => 0

/-- How many rows a schedule asks for. -/
def requested : List Turn → Nat
  | [] => 0
  | t :: ts => t.asks + requested ts

end Turn

def Receipt.item? : Receipt → Option Item
  | .item i => some i
  | .nothingYet | .ended => none

/-- What the producer made happen, what the consumer received, and the subscription afterwards. -/
structure Exchange where
  done : List Event
  receipts : List Receipt
  next : Subscription

namespace Exchange

/-- The items that the producer has sent. -/
def produced (x : Exchange) : List Item := Event.items x.done

def received (x : Exchange) : List Item := x.receipts.filterMap Receipt.item?

/-- One exchange and then another. -/
def andThen (x y : Exchange) : Exchange := ⟨x.done ++ y.done, x.receipts ++ y.receipts, y.next⟩

@[simp] theorem produced_andThen (x y : Exchange) :
    (x.andThen y).produced = x.produced ++ y.produced := by
  simp [produced, andThen]

@[simp] theorem received_andThen (x y : Exchange) :
    (x.andThen y).received = x.received ++ y.received := by
  simp [received, andThen]

end Exchange

namespace Subscription

def turn (s : Subscription) : Turn → Exchange
  | .request n => ⟨[], [], s.request n⟩
  | .receive => ⟨[], [s.receive.1], s.receive.2⟩
  | .cancel => ⟨[], [], s.cancel⟩
  | .produce => ⟨s.advance.1, [], s.advance.2⟩

/-- One turn after the other. -/
def run (s : Subscription) : List Turn → Exchange
  | [] => ⟨[], [], s⟩
  | t :: ts => (s.turn t).andThen ((s.turn t).next.run ts)

end Subscription
end TripleAlgebra
