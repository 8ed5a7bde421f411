import TripleAlgebra.Solutions.Event

/-! Solutions under a header. They can be consumed again if they are cold and once if they are hot;
rows that have been gathered once are remembered. -/
namespace TripleAlgebra

/-- Tables and generators are cold, iterators and streams are hot. -/
inductive SourceKind
  | table | generator | iterator | stream
  deriving DecidableEq, Repr

namespace SourceKind

def name : SourceKind → String
  | .table => "Materialized"
  | .generator => "Generator"
  | .iterator => "Iterator"
  | .stream => "Stream"

def isHot : SourceKind → Bool
  | .iterator | .stream => true
  | .table | .generator => false

end SourceKind

/-- `run` is the next consumption. A hot source has none left after the first. -/
structure Solutions where
  header : List Variable
  source : SourceKind
  run : Run
  memo : Option (List Row) := none

/-- The effects of an operation on solutions, its answer, and the solutions afterwards. -/
structure Answer (α : Type) where
  effects : List Effect
  value : α
  next : Solutions

namespace Solutions

def ofRows (header : List Variable) (rows : List Row) : Solutions :=
  { header, source := .table, run := .ofRows rows }

def ofBool (b : Bool) : Solutions := ofRows [] (if b then [.empty] else [])

/-- The single empty solution. -/
def identity : Solutions := ofBool true

/-- Solutions from any source that say nothing about effects but that each item is taken. -/
def ofItems (header : List Variable) (source : SourceKind) (items : List Item) : Solutions :=
  { header, source, run := ⟨[], items.flatMap fun i => [.act (.always (.take i)), .item i]⟩ }

def isHot (s : Solutions) : Bool := s.memo.isNone && s.source.isHot

/-- The rows that are known without evaluation. -/
def known (s : Solutions) : Option (List Row) :=
  match s.memo, s.source with
  | some rows, _ => some rows
  | none, .table => some ((Event.items s.run.events).filterMap Except.toOption)
  | none, _ => none

/-- The solutions after a consumption that made `done` happen and left `rest`. -/
def consumed (s : Solutions) (done rest : List Event) : Solutions :=
  if s.isHot then { s with run := .empty }
  else if s.known.isSome then s
  else { s with run := ⟨Act.spent s.run.opening, Event.spent done ++ rest⟩ }

/-- The consumption that starts next. -/
def nextRun (s : Solutions) : Run :=
  match s.memo with
  | some rows => .ofRows rows
  | none => s.run

/-- Takes at most `n` items, or all, and drops the rest. -/
def take (s : Solutions) (n : Option Nat) : Answer (List Item) :=
  let r := s.nextRun
  let (done, rest) := match n with
    | some n => Event.demand n r.events
    | none => (r.events, [])
  { effects := r.opening.flatMap Act.effects ++ Event.effects done
    value := Event.items done
    next := s.consumed done rest }

/-- Gathers all rows and remembers them. The first error ends this and nothing is remembered. -/
def gather (s : Solutions) : Answer (Except Problem (List Row)) :=
  match s.known with
  | some rows => ⟨[], .ok rows, s⟩
  | none =>
    let (done, rest) := Event.untilError s.run.events
    let rows := Event.collect (Event.items done)
    let next := s.consumed done rest
    { effects := s.run.opening.flatMap Act.effects ++ Event.effects done
      value := rows
      next := { next with memo := rows.toOption } }

/-- Whether there is a row. At most one item is taken; a hot source gets its row back. -/
def ask (s : Solutions) : Answer (Except Problem Bool) :=
  match s.known with
  | some rows => ⟨[], .ok (!rows.isEmpty), s⟩
  | none =>
    let (done, rest) := Event.demand 1 s.run.events
    let effects := s.run.opening.flatMap Act.effects ++ Event.effects done
    match Event.items done with
    | .error e :: _ => ⟨effects, .error e, s.consumed done rest⟩
    | .ok r :: _ =>
      let next :=
        if s.isHot then { s with run := ⟨[], .item (.ok r) :: rest⟩ } else s.consumed done rest
      ⟨effects, .ok true, next⟩
    | [] => ⟨effects, .ok false, s.consumed done rest⟩

/-- A description in full detail. -/
def inspect (s : Solutions) : String :=
  "SolutionSequence \x7b variables: " ++ Variable.inspectAll s.header ++ ", source: " ++
    quoted s.source.name ++ ", memoized: " ++ toString s.memo.isSome ++ " \x7d"

end Solutions
end TripleAlgebra
