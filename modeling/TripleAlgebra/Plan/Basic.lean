import TripleAlgebra.Expression.Basic
import TripleAlgebra.Pattern

/-! Plans: trees of operators on tables of rows. -/
namespace TripleAlgebra

inductive NodeKind
  | triple | join | leftJoin | union | filter | project | distinct | weakDistinct
  | limit | offset | slice | values | assign | semijoin | antijoin | minus | ask | identity
  deriving DecidableEq, Repr

namespace NodeKind

/-- Every kind once, in the order in which evaluators are checked. -/
def all : List NodeKind :=
  [.triple, .join, .leftJoin, .union, .filter, .project, .distinct, .weakDistinct, .limit,
    .offset, .slice, .values, .assign, .semijoin, .antijoin, .minus, .ask, .identity]

def name : NodeKind → String
  | .triple => "Triple"
  | .join => "Join"
  | .leftJoin => "LeftJoin"
  | .union => "Union"
  | .filter => "Filter"
  | .project => "Project"
  | .distinct => "Distinct"
  | .weakDistinct => "WeakDistinct"
  | .limit => "Limit"
  | .offset => "Offset"
  | .slice => "Slice"
  | .values => "Values"
  | .assign => "Assign"
  | .semijoin => "Exists"
  | .antijoin => "NotExists"
  | .minus => "Minus"
  | .ask => "Ask"
  | .identity => "Identity"

def ofName? (s : String) : Option NodeKind := all.find? (·.name = s)

end NodeKind

/-- A semijoin keeps the outer rows for which the inner plan has a solution, an antijoin the others.
With `boundOverlap`, both sides of a difference already agree on a shared variable. -/
inductive Plan
  | triple (pattern : Pattern)
  | join (operands : List Plan)
  | leftJoin (left right : Plan) (condition : Option Expression)
  | union (operands : List Plan)
  | filter (inner : Plan) (conditions : List Expression)
  | project (inner : Plan) (header : List Variable)
  | distinct (inner : Plan)
  | weakDistinct (inner : Plan)
  | limit (inner : Plan) (count : Nat)
  | offset (inner : Plan) (start : Nat)
  | slice (inner : Plan) (start : Nat) (count : Option Nat)
  | values (inner : Plan) (header : List Variable) (rows : List Row)
  | assign (inner : Plan) (target : Variable) (value : Expression)
  | semijoin (outer inner : Plan)
  | antijoin (outer inner : Plan)
  | minus (left right : Plan) (boundOverlap : Bool)
  | ask (inner : Plan)
  | identity
  deriving Repr, Inhabited

namespace Plan

/-- Induction in which the operands of a join or union give the hypothesis for each of them. -/
@[elab_as_elim]
theorem inductOperands {motive : Plan → Prop} (triple : ∀ t, motive (.triple t))
    (join : ∀ ps, (∀ p ∈ ps, motive p) → motive (.join ps))
    (leftJoin : ∀ l r c, motive l → motive r → motive (.leftJoin l r c))
    (union : ∀ ps, (∀ p ∈ ps, motive p) → motive (.union ps))
    (filter : ∀ p cs, motive p → motive (.filter p cs))
    (project : ∀ p vs, motive p → motive (.project p vs))
    (distinct : ∀ p, motive p → motive (.distinct p))
    (weakDistinct : ∀ p, motive p → motive (.weakDistinct p))
    (limit : ∀ p n, motive p → motive (.limit p n))
    (offset : ∀ p n, motive p → motive (.offset p n))
    (slice : ∀ p n c, motive p → motive (.slice p n c))
    (values : ∀ p vs rs, motive p → motive (.values p vs rs))
    (assign : ∀ p v e, motive p → motive (.assign p v e))
    (semijoin : ∀ p q, motive p → motive q → motive (.semijoin p q))
    (antijoin : ∀ p q, motive p → motive q → motive (.antijoin p q))
    (minus : ∀ l r b, motive l → motive r → motive (.minus l r b))
    (ask : ∀ p, motive p → motive (.ask p)) (identity : motive .identity) (p : Plan) : motive p :=
  Plan.rec triple join leftJoin union filter project distinct weakDistinct limit offset slice values
    assign semijoin antijoin minus ask identity (by simp)
    (fun _ _ hp hps => by simpa using ⟨hp, hps⟩) p

def kind : Plan → NodeKind
  | .triple _ => .triple
  | .join _ => .join
  | .leftJoin .. => .leftJoin
  | .union _ => .union
  | .filter .. => .filter
  | .project .. => .project
  | .distinct _ => .distinct
  | .weakDistinct _ => .weakDistinct
  | .limit .. => .limit
  | .offset .. => .offset
  | .slice .. => .slice
  | .values .. => .values
  | .assign .. => .assign
  | .semijoin .. => .semijoin
  | .antijoin .. => .antijoin
  | .minus .. => .minus
  | .ask _ => .ask
  | .identity => .identity

def children : Plan → List Plan
  | .triple _ | .identity => []
  | .join ps | .union ps => ps
  | .leftJoin l r _ | .minus l r _ | .semijoin l r | .antijoin l r => [l, r]
  | .filter p _ | .project p _ | .distinct p | .weakDistinct p | .limit p _ | .offset p _
  | .slice p _ _ | .values p _ _ | .assign p _ _ | .ask p => [p]

end Plan
end TripleAlgebra
