import TripleAlgebra.Solutions.Basic

/-! Solutions that are produced only as far as their consumer asks for rows. -/
namespace TripleAlgebra

/-- The largest demand that is kept. -/
def demandLimit : Nat := 0xFFFFFFFFFFFFFFFF

/-- A producer with the events still to come, the demand it has to meet, and the items that it has
sent and that are not yet received. Without a demand it waits until it is signalled. Once it has
finished it sends nothing more. -/
structure Subscription where
  header : List Variable
  pending : List Event
  demand : Nat := 0
  cancelled : Bool := false
  waiting : Bool := false
  signalled : Bool := false
  finished : Bool := false
  buffer : List Item := []

/-- What a consumer receives. -/
inductive Receipt
  | item (i : Item)
  | nothingYet
  | ended

namespace Subscription

/-- Subscribing begins the next consumption. -/
def ofSolutions (s : Solutions) : List Effect × Subscription :=
  let r := s.nextRun
  (r.opening.flatMap Act.effects, { header := s.header, pending := r.events })

/-- Asks for more rows. -/
def request (s : Subscription) (n : Nat) : Subscription :=
  if n = 0 then s else { s with demand := min demandLimit (s.demand + n), signalled := true }

/-- Stops the producer at its next turn. What it has sent can still be received. -/
def cancel (s : Subscription) : Subscription := { s with cancelled := true, signalled := true }

/-- Sends items as long as they are asked for. An error or the end of the items finishes the
producer, and only items meet a demand. -/
def produceFrom (demand : Nat) : List Event → List Event × Nat × Bool × List Event
  | [] => ([], demand, decide (0 < demand), [])
  | .act a :: es =>
    if demand = 0 then ([], 0, false, .act a :: es)
    else
      let (done, rest) := produceFrom demand es
      (.act a :: done, rest)
  | .item (.error e) :: es =>
    if demand = 0 then ([], 0, false, .item (.error e) :: es)
    else ([.item (.error e)], demand - 1, true, es)
  | .item (.ok r) :: es =>
    if demand = 0 then ([], 0, false, .item (.ok r) :: es)
    else
      let (done, rest) := produceFrom (demand - 1) es
      (.item (.ok r) :: done, rest)

/-- A turn of the producer: it runs until it waits or has finished. A producer that waits has a turn
only if it is signalled. -/
def advance (s : Subscription) : List Event × Subscription :=
  if s.finished || (s.waiting && !s.signalled) then ([], s)
  else if s.cancelled then ([], { s with finished := true })
  else
    let (done, demand, finished, rest) := produceFrom s.demand s.pending
    (done, { s with
      pending := rest
      demand
      finished
      waiting := !finished
      signalled := false
      buffer := s.buffer ++ Event.items done })

/-- The effects of a turn of the producer. -/
def produce (s : Subscription) : List Effect × Subscription :=
  let (done, s) := s.advance
  (Event.effects done, s)

/-- Receives without asking. The end comes when the producer has finished. -/
def receive (s : Subscription) : Receipt × Subscription :=
  match s.buffer with
  | i :: is => (.item i, { s with buffer := is })
  | [] => (if s.finished then .ended else .nothingYet, s)

/-- Looks for something to receive. A channel may fail to answer although there is something, when
its consumer has used up its share of the time. -/
def receiveIf (s : Subscription) (answers : Bool) : Receipt × Subscription :=
  if answers then s.receive else (.nothingYet, s)

/-- Asks for one row if none is asked for. -/
def demandOne (s : Subscription) : Subscription :=
  if s.demand = 0 && !s.cancelled then s.request 1 else s

/-- Looks for something to receive, and if nothing comes, asks for one row and looks again. The
flags say whether the channel answers the first and the second time. -/
def poll (s : Subscription) (first second : Bool) : Receipt × Subscription :=
  match s.receiveIf first with
  | (.nothingYet, s) => s.demandOne.receiveIf second
  | r => r

end Subscription
end TripleAlgebra
