import TripleAlgebra.Store.Memory

/-! A store over a history of changes. -/
namespace TripleAlgebra.Store

/-- One triple is added, or a batch of triples. -/
inductive Change
  | insert (t : Triple)
  | extend (ts : List Triple)
  deriving DecidableEq, Repr

/-- Whether a triple was new, or how many triples of a batch were. -/
inductive Outcome
  | isNew (b : Bool)
  | added (n : Nat)
  deriving DecidableEq, Repr

def Change.triples : Change → List Triple
  | .insert t => [t]
  | .extend ts => ts

namespace Memory

def apply (m : Memory) : Change → Except StorageProblem Outcome × Memory
  | .insert t => ((m.insert t).1.map .isNew, (m.insert t).2)
  | .extend ts => ((m.extend ts).1.map .added, (m.extend ts).2)

/-- One change after the other. A change that fails ends none of those behind it. -/
def journal (m : Memory) : List Change → List (Except StorageProblem Outcome) × Memory
  | [] => ([], m)
  | c :: cs =>
    let (o, m) := m.apply c
    let (os, m) := journal m cs
    (o :: os, m)

/-- The terms behind the numbers of a triple. -/
def decode (m : Memory) (k : Three Id) : Except StorageProblem Triple := do
  let s ← m.ids.decode k.1
  let p ← m.ids.decode k.2.1
  let o ← m.ids.decode k.2.2
  return ⟨s, p, o⟩

end Memory

/-- The triples of an index in subject, predicate, object order. -/
def Index.triples (i : Index) : List (Three Id) := i.keys.map i.order.restore

end TripleAlgebra.Store
