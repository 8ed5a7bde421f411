import TripleAlgebra.Problem
import TripleAlgebra.Store.Index

/-! The numbers of terms, kept in both directions. -/
namespace TripleAlgebra.Store

/-- The number that the next new term takes, the terms of numbers and the numbers of terms. Later
entries of a map are in front. -/
structure Dictionary where
  next : UInt64 := 0
  termOf : List (Id × Term) := []
  idOf : List (Term × Id) := []

namespace Dictionary

/-- The number of a term if it is known. -/
def id? (d : Dictionary) (t : Term) : Option Id := d.idOf.lookup t

/-- Why a new term cannot be numbered. -/
def exhausted (n : UInt64) : StorageProblem :=
  .other ("Object id " ++ toString n ++ " exceeds the id space of the store.")

/-- The number of a term. A new term takes the next one, which is used up even if it is too
large. -/
def obtainId (d : Dictionary) (t : Term) : Except StorageProblem Id × Dictionary :=
  match d.id? t with
  | some n => (.ok n, d)
  | none =>
    let n := d.next.toNat
    if n ≤ maxId then
      (.ok n, { next := d.next + 1, termOf := (n, t) :: d.termOf, idOf := (t, n) :: d.idOf })
    else (.error (exhausted d.next), { d with next := d.next + 1 })

/-- The numbers of the terms of a triple. Behind a term that cannot be numbered there are none. -/
def encode (d : Dictionary) (t : Triple) : Except StorageProblem (Three Id) × Dictionary :=
  match d.obtainId t.subject with
  | (.error e, d) => (.error e, d)
  | (.ok s, d) =>
    match d.obtainId t.predicate with
    | (.error e, d) => (.error e, d)
    | (.ok p, d) =>
      match d.obtainId t.object with
      | (.error e, d) => (.error e, d)
      | (.ok o, d) => (.ok (s, p, o), d)

/-- The term of a number. -/
def decode (d : Dictionary) (n : Id) : Except StorageProblem Term :=
  match d.termOf.lookup n with
  | some t => .ok t
  | none => .error (.corruption ("Unknown object id " ++ toString n))

end Dictionary
end TripleAlgebra.Store
