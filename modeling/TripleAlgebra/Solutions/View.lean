import TripleAlgebra.Solutions.Exchange

/-! A subscription that is only polled, beside a producer whose source can be pending. -/
namespace TripleAlgebra

/-- A poll of the consumer, whose channel answers or fails to answer each of its two calls, or a turn
of the producer whose source is ready for some events and pending behind them. -/
inductive Beat
  | poll (first second : Bool)
  | produce (ready : Nat)
  deriving DecidableEq, Repr

namespace Beat

/-- How many polls find that the channel fails although the producer has had a turn since the poll
before. `turned` says that it has had one before the first beat. -/
def missed (turned : Bool) : List Beat → Nat
  | [] => 0
  | .poll first _ :: bs => (if turned && !first then 1 else 0) + missed false bs
  | .produce _ :: bs => missed true bs

/-- The channel answers the first poll behind every turn of the producer. It fails a consumer only
when that has used up its share of the time within one turn of its own. On one thread such a turn
ends before the producer has one, and a consumer that does nothing but poll begins the next turn with
its whole share. -/
def Prompt (bs : List Beat) : Prop := missed false bs = 0

end Beat

namespace Subscription

/-- Sends items as long as they are asked for and the source is ready. It takes a last event to
learn that a source has ended. -/
def produceWithin (demand : Nat) : Nat → List Event → List Event × Nat × Bool × List Event
  | 0, es => ([], demand, false, es)
  | _ + 1, [] => ([], demand, decide (0 < demand), [])
  | ready + 1, .act a :: es =>
    if demand = 0 then ([], 0, false, .act a :: es)
    else
      let (done, rest) := produceWithin demand ready es
      (.act a :: done, rest)
  | _ + 1, .item (.error e) :: es =>
    if demand = 0 then ([], 0, false, .item (.error e) :: es)
    else ([.item (.error e)], demand - 1, true, es)
  | ready + 1, .item (.ok r) :: es =>
    if demand = 0 then ([], 0, false, .item (.ok r) :: es)
    else
      let (done, rest) := produceWithin (demand - 1) ready es
      (.item (.ok r) :: done, rest)

/-- A turn of the producer: it runs until its source is pending, it waits or it has finished. Only
a producer without a demand waits to be signalled. -/
def advanceWithin (s : Subscription) (ready : Nat) : List Event × Subscription :=
  if s.finished || (s.waiting && !s.signalled) then ([], s)
  else if s.cancelled then ([], { s with finished := true })
  else
    let (done, demand, finished, rest) := produceWithin s.demand ready s.pending
    (done, { s with
      pending := rest
      demand
      finished
      waiting := !finished && decide (demand = 0)
      signalled := false
      buffer := s.buffer ++ Event.items done })

def beat (s : Subscription) : Beat → Exchange
  | .poll first second => ⟨[], [(s.poll first second).1], (s.poll first second).2⟩
  | .produce ready => ⟨(s.advanceWithin ready).1, [], (s.advanceWithin ready).2⟩

/-- One beat after the other. -/
def view (s : Subscription) : List Beat → Exchange
  | [] => ⟨[], [], s⟩
  | b :: bs => (s.beat b).andThen ((s.beat b).next.view bs)

end Subscription
end TripleAlgebra
