import TripleAlgebra.Expression.Substitute
import TripleAlgebra.Plan.Header

/-! Specialising plans: bound variables become constants and leave the header. -/
namespace TripleAlgebra

/-- Variables with the terms that replace them. The first entry of a variable counts. -/
abbrev Substitution := List (Variable × Term)

namespace Substitution

/-- The pairs of variables and values in which the value is bound. -/
def ofValues (vs : List Variable) (ts : List (Option Term)) : Substitution :=
  (vs.zip ts).filterMap fun (v, t) => t.map (v, ·)

def find? (s : Substitution) (v : Variable) : Option Term := s.lookup v

def restrict (s : Substitution) (vs : List Variable) : Substitution := s.filter (·.1 ∈ vs)

/-- The variables that are left when the substituted ones are gone. -/
def remaining (s : Substitution) (vs : List Variable) : List Variable :=
  vs.filter fun v => (s.find? v).isNone

end Substitution

/-- The slot after substitution, if it changes. -/
def Slot.substitute? (s : Substitution) : Slot → Option Slot
  | .var v => (s.find? v).map .term
  | .term _ => none

namespace Expression

/-- The condition that a variable is unbound or is the given term. -/
def unboundOrSame (v : Variable) (t : Term) : Expression :=
  .binary .or (.unary .not (.bound v)) (.binary .sameTerm (.var v) (.const t))

end Expression

namespace Plan

/-- Only an IRI can be a predicate. A pattern whose predicate becomes another term has no
solutions. -/
def substituteTriple? (s : Substitution) (t : Pattern) : Option Plan :=
  match t.predicate.substitute? s with
  | some (.term (.blank _)) | some (.term (.literal _)) =>
    some (.values .identity (s.remaining t.vars) [])
  | predicate =>
    (Update.both t.subject (t.subject.substitute? s) (t.predicate, t.object)
      (Update.both t.predicate predicate t.object (t.object.substitute? s))).map
        fun (a, b, c) => .triple ⟨a, b, c⟩

/-- The bound columns of a table with their terms. -/
def boundColumns (s : Substitution) (vs : List Variable) : List (Nat × Term) :=
  vs.zipIdx.filterMap fun (v, i) => (s.find? v).map (i, ·)

/-- Keeps the rows that agree with the bound columns, without these columns. -/
def substituteTable (s : Substitution) (vs : List Variable) (rows : List Row) :
    List Variable × List Row :=
  let bound := boundColumns s vs
  let kept := (vs.zipIdx.filter fun (v, _) => (s.find? v).isNone).map (·.2)
  let agrees (r : Row) := bound.all fun (i, t) => (r.value i).all (· = t)
  (s.remaining vs, (rows.filter agrees).map fun r => r.project (kept.map some))

/-- Whether a bound variable is compared with the rows of a plan and not pushed into its operands:
rows may leave it unbound, or it is removed by a right side that may leave it unbound. -/
def defers (p : Plan) (v : Variable) : Bool :=
  p.maybeUnbound v ||
    match p with
    | .minus l r _ => v ∈ l.vars && r.maybeUnbound v
    | _ => false

/-- Keeps the rows of a plan that leave each variable unbound or bind it to its term, and drops
these variables. -/
def checkAfter (s : Substitution) (p : Plan) : Plan :=
  .project (.filter p (s.map fun (v, t) => Expression.unboundOrSame v t)) (s.remaining p.vars)

/-- Pushes what can be pushed into the operands of a plan and checks the rest on its rows. -/
def deferring (s : Substitution) (p : Plan) (push : Substitution → Option Plan) : Option Plan :=
  let deferred := s.filter fun (v, _) => p.defers v
  let pushed := s.filter fun (v, _) => !p.defers v
  if deferred.isEmpty then push s else some (checkAfter deferred ((push pushed).getD p))

/-- Substitution that changes only a single operand. -/
abbrev wrap (s : Substitution) (f : Plan → Plan) (p : Plan) (push : Substitution → Option Plan) :
    Option Plan :=
  deferring s (f p) fun s => (push s).map f

mutual

/-- The specialised plan, if it differs. The conditions of a filter see all bound terms, as they
would in a joined solution. -/
def substitute? (s : Substitution) : Plan → Option Plan
  | .triple t => deferring s (.triple t) fun s => substituteTriple? s t
  | .identity => none
  | .join ps => deferring s (.join ps) fun s => (substituteEach? s ps).map .join
  | .union ps => deferring s (.union ps) fun s => (substituteEach? s ps).map .union
  | .leftJoin l r c => deferring s (.leftJoin l r c) fun s =>
    (Update.both l (substitute? s l) (r, c)
      (Update.both r (substitute? s r) c (Update.within (Expression.substitute? s.find?) c))).map
        fun (l, r, c) => .leftJoin l r c
  | .filter p cs => deferring s (.filter p cs) fun pushed =>
    (Update.both p (substitute? pushed p) cs (Expression.substituteEach? s.find? cs)).map
      fun (p, cs) => .filter p cs
  | .project p vs => deferring s (.project p vs) fun s =>
    let restricted := s.restrict vs
    if restricted.isEmpty then none
    else some (.project ((substitute? restricted p).getD p) (restricted.remaining vs))
  | .distinct p => wrap s .distinct p fun s => substitute? s p
  | .weakDistinct p => wrap s .weakDistinct p fun s => substitute? s p
  | .limit p n => wrap s (.limit · n) p fun s => substitute? s p
  | .offset p n => wrap s (.offset · n) p fun s => substitute? s p
  | .slice p n c => wrap s (.slice · n c) p fun s => substitute? s p
  | .ask p => wrap s .ask p fun s => substitute? s p
  | .values p vs rows => deferring s (.values p vs rows) fun s =>
    let p' := substitute? s p
    if (boundColumns s vs).isEmpty && p'.isNone then none
    else
      let (vs, rows) := substituteTable s vs rows
      some (.values (p'.getD p) vs rows)
  | .assign p v e => deferring s (.assign p v e) fun s =>
    (Update.both p (substitute? s p) e (Expression.substitute? s.find? e)).map
      fun (p, e) => .assign p v e
  | .semijoin p q => deferring s (.semijoin p q) fun s =>
    (Update.both p (substitute? s p) q (substitute? s q)).map fun (p, q) => .semijoin p q
  | .antijoin p q => deferring s (.antijoin p q) fun s =>
    (Update.both p (substitute? s p) q (substitute? s q)).map fun (p, q) => .antijoin p q
  | .minus l r b => deferring s (.minus l r b) fun s =>
    let shared := (s.restrict l.vars).restrict r.vars
    let overlap := b || !shared.isEmpty
    let b' := if overlap = b then none else some overlap
    (Update.both l (substitute? s l) (r, b) (Update.both r (substitute? shared r) b b')).map
      fun (l, r, b) => .minus l r b

def substituteEach? (s : Substitution) : List Plan → Option (List Plan)
  | [] => none
  | p :: ps =>
    (Update.both p (substitute? s p) ps (substituteEach? s ps)).map fun (p, ps) => p :: ps

end

def substitute (s : Substitution) (p : Plan) : Plan := (substitute? s p).getD p

/-- The plan specialised by the bound ones of the values, if it differs. -/
def bind? (p : Plan) (vs : List Variable) (ts : List (Option Term)) : Option Plan :=
  substitute? (Substitution.ofValues vs ts) p

def bind (p : Plan) (vs : List Variable) (ts : List (Option Term)) : Plan := (p.bind? vs ts).getD p

end Plan
end TripleAlgebra
