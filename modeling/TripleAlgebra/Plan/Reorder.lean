import TripleAlgebra.Plan.Header

/-! The order in which the operands of a join are evaluated. -/
namespace TripleAlgebra

/-- Weights are capped at the largest 64-bit number. -/
def weightLimit : Nat := 0xFFFFFFFFFFFFFFFF

def addWeights (a b : Nat) : Nat := min weightLimit (a + b)

/-- The expected number of rows of a pattern by the positions that it fixes. -/
def Pattern.shapeWeight (p : Pattern) : Nat :=
  match p.subject.term?.isSome, p.predicate.term?.isSome, p.object.term?.isSome with
  | true, true, true => 1
  | true, false, true => 2
  | true, true, false => 10
  | true, false, false => 100
  | false, true, true => 10000
  | false, false, true => 100000
  | false, true, false => 1000000
  | false, false, false => 1000000000

namespace Plan

mutual

/-- The expected number of rows, given that of a pattern. -/
def weight (ofPattern : Pattern → Nat) : Plan → Nat
  | .triple t => ofPattern t
  | .identity => 1
  | .values p _ rows => addWeights (min weightLimit rows.length) (weight ofPattern p)
  | .join ps | .union ps => weightEach ofPattern 0 ps
  | .leftJoin l r _ | .minus l r _ | .semijoin l r | .antijoin l r =>
    addWeights (addWeights 0 (weight ofPattern l)) (weight ofPattern r)
  | .filter p _ | .project p _ | .distinct p | .weakDistinct p | .limit p _ | .offset p _
  | .slice p _ _ | .assign p _ _ | .ask p => addWeights 0 (weight ofPattern p)

def weightEach (ofPattern : Pattern → Nat) (sum : Nat) : List Plan → Nat
  | [] => sum
  | p :: ps => weightEach ofPattern (addWeights sum (weight ofPattern p)) ps

end
end Plan

/-- `permutation` lists the operands in the order of their evaluation. `projection` says where each
declared variable stands in the columns of that order, unless they are in place. -/
structure Reordering where
  permutation : List Nat
  projection : Option (List Nat)
  deriving DecidableEq, Repr

namespace Reordering
variable {α : Type}

/-- The first element that satisfies the test, and the list with `a` in its place. -/
def exchange (test : α → Bool) (a : α) : List α → Option (α × List α)
  | [] => none
  | b :: bs =>
    if test b then some (b, a :: bs)
    else (exchange test a bs).map fun (c, cs) => (c, b :: cs)

theorem length_exchange {test : α → Bool} {a c : α} {bs cs : List α}
    (h : exchange test a bs = some (c, cs)) : cs.length = bs.length := by
  induction bs generalizing c cs with
  | nil => simp [exchange] at h
  | cons b bs ih =>
    rw [exchange] at h
    split at h
    · simp only [Option.some.injEq, Prod.mk.injEq] at h
      simp [← h.2]
    · obtain ⟨⟨d, ds⟩, hd, he⟩ := Option.map_eq_some_iff.1 h
      simp only [Prod.mk.injEq] at he
      simp [← he.2, ih hd]

/-- Whether an operand shares a variable with those before it. -/
def connected (header : α → List Variable) (placed : List Variable) (a : α) : Bool :=
  (header a).any (· ∈ placed)

/-- Where an operand is not connected to those before it, the next one that is changes places with
it. -/
def connect (header : α → List Variable) (placed : List Variable) : List α → List α
  | [] => []
  | a :: as =>
    let swapped :=
      if connected header placed a then none else exchange (connected header placed) a as
    match h : swapped with
    | some (b, bs) =>
      have : bs.length < as.length + 1 := by
        have h : (if connected header placed a then none
          else exchange (connected header placed) a as) = some (b, bs) := h
        split at h
        · cases h
        · rw [length_exchange h]; omega
      b :: connect header (Variable.append placed (header b)) bs
    | none => a :: connect header (Variable.append placed (header a)) as
  termination_by as => as.length

/-- The operands with their positions: lighter ones first, each connected to those before it if
possible. -/
def arrange (weight : Plan → Nat) (operands : List Plan) : List (Plan × Nat) :=
  match operands.zipIdx.mergeSort fun a b => weight a.1 ≤ weight b.1 with
  | [] => []
  | a :: as => a :: connect (·.1.vars) a.1.vars as

end Reordering

namespace Plan

/-- The evaluation order of a join of at least two operands, if it is not the declared one. -/
def reorder? (weight : Plan → Nat) (p : Plan) : Option Reordering :=
  match p with
  | .join (a :: b :: ps) =>
    let arranged := Reordering.arrange weight (a :: b :: ps)
    let permutation := arranged.map (·.2)
    if permutation = List.range permutation.length then none
    else
      let produced := Variable.union (arranged.map (·.1.vars))
      (p.vars.mapM (Variable.column? produced)).map fun columns =>
        ⟨permutation, if columns = List.range columns.length then none else some columns⟩
  | _ => none

end Plan
end TripleAlgebra
