import TripleAlgebra.Expression.Call
import TripleAlgebra.Expression.Substitute

/-! The value of an expression on a row, or its failure. -/
namespace TripleAlgebra
open Number

/-- What a row gives to the variables of its header. -/
def Row.assignment (vs : List Variable) (r : Row) : Assignment := fun v =>
  (Variable.column? vs v).bind r.value

/-! Connectives on truth values of which some are unknown. -/
namespace Kleene

def or : Partial Bool → Partial Bool → Partial Bool
  | .ok true, _ | _, .ok true => .ok true
  | .ok false, .ok false => .ok false
  | _, _ => .error .failed

def and : Partial Bool → Partial Bool → Partial Bool
  | .ok false, _ | _, .ok false => .ok false
  | .ok true, .ok true => .ok true
  | _, _ => .error .failed

def not : Partial Bool → Partial Bool
  | .ok b => .ok (!b)
  | .error e => .error e

end Kleene

namespace Expression

def termTruth (t : Partial Term) : Partial Bool := do (Value.ofTerm (← t)).truth

def termNumeric (t : Partial Term) : Partial Numeric := do
  match Value.ofTerm (← t) with
  | .numeric n => .ok n
  | _ => .error .failed

def compareTerms (accept : Ordering → Bool) (a b : Partial Term) : Partial Term := do
  let a ← a
  let b ← b
  return .boolean (accept (← (Value.ofTerm a).order (Value.ofTerm b)))

def combineTerms (op : Numeric → Numeric → Option Numeric) (a b : Partial Term) : Partial Term := do
  let a ← termNumeric a
  let b ← termNumeric b
  return Value.numericTerm (← Partial.ofOption (op a b))

def applyUnary : UnaryOp → Partial Term → Partial Term
  | .not, t => (Kleene.not (termTruth t)).map .boolean
  | .plus, t => (termNumeric t).map Value.numericTerm
  | .minus, t => do
    let n ← termNumeric t
    return Value.numericTerm (← Partial.ofOption n.neg?)

/-- The connectives look at both operands, so that one may decide although the other fails. -/
def applyBinary : BinaryOp → Partial Term → Partial Term → Partial Term
  | .or, a, b => (Kleene.or (termTruth a) (termTruth b)).map .boolean
  | .and, a, b => (Kleene.and (termTruth a) (termTruth b)).map .boolean
  | .equal, a, b => do
    let a ← a
    let b ← b
    return .boolean (← (Value.ofTerm a).equal (Value.ofTerm b))
  | .sameTerm, a, b => do
    let a ← a
    let b ← b
    return .boolean (decide (a = b))
  | .greater, a, b => compareTerms Ordering.isGT a b
  | .greaterOrEqual, a, b => compareTerms Ordering.isGE a b
  | .less, a, b => compareTerms Ordering.isLT a b
  | .lessOrEqual, a, b => compareTerms Ordering.isLE a b
  | .add, a, b => combineTerms Numeric.add? a b
  | .subtract, a, b => combineTerms Numeric.sub? a b
  | .multiply, a, b => combineTerms Numeric.mul? a b
  | .divide, a, b => combineTerms Numeric.div? a b

/-- Looks for an equal candidate. Without one, a failing comparison makes the answer unknown. -/
def isMember (needle : Value) : List (Partial Term) → Partial Bool
  | [] => .ok false
  | c :: cs =>
    match c.bind fun t => needle.equal (Value.ofTerm t) with
    | .ok true => .ok true
    | .ok false => isMember needle cs
    | .error _ =>
      match isMember needle cs with
      | .ok true => .ok true
      | _ => .error .failed

/-- The first value that does not fail. -/
def firstValue : List (Partial Term) → Partial Term
  | [] => .error .failed
  | .ok t :: _ => .ok t
  | .error _ :: ts => firstValue ts

/-- All values, unless one fails. -/
def allValues : List (Partial Term) → Partial (List Term)
  | [] => .ok []
  | t :: ts => do
    let t ← t
    let ts ← allValues ts
    return t :: ts

mutual

/-- The value of an expression when texts are searched with `search`. -/
def evalWith (search : Regex.Search) (s : Assignment) : Expression → Partial Term
  | .var v => Partial.ofOption (s v)
  | .const t => .ok t
  | .bound v => .ok (.boolean (s v).isSome)
  | .unary op e => applyUnary op (evalWith search s e)
  | .binary op l r => applyBinary op (evalWith search s l) (evalWith search s r)
  | .member e es => do
    let needle ← evalWith search s e
    return .boolean (← isMember (Value.ofTerm needle) (evalEachWith search s es))
  | .conditional c t e => do
    if ← termTruth (evalWith search s c) then evalWith search s t else evalWith search s e
  | .coalesce es => firstValue (evalEachWith search s es)
  | .call f es => do f.apply search (← allValues (evalEachWith search s es))

def evalEachWith (search : Regex.Search) (s : Assignment) : List Expression → List (Partial Term)
  | [] => []
  | e :: es => evalWith search s e :: evalEachWith search s es

end

def eval : Assignment → Expression → Partial Term := evalWith Regex.search?

/-- The effective boolean value. -/
def truth (s : Assignment) (e : Expression) : Partial Bool := termTruth (eval s e)

/-- Whether the effective boolean value is known to be true. -/
def holds (s : Assignment) (e : Expression) : Bool :=
  match truth s e with
  | .ok b => b
  | .error _ => false

theorem evalEachWith_eq (search : Regex.Search) (s : Assignment) (es : List Expression) :
    evalEachWith search s es = es.map (evalWith search s) := by
  induction es with
  | nil => rfl
  | cons e es ih => simp [evalEachWith, ih]

section
variable (s : Assignment)

@[simp] theorem eval_var (v : Variable) : eval s (.var v) = Partial.ofOption (s v) := rfl

@[simp] theorem eval_const (t : Term) : eval s (.const t) = .ok t := rfl

@[simp] theorem eval_bound (v : Variable) : eval s (.bound v) = .ok (.boolean (s v).isSome) := rfl

theorem eval_unary (op : UnaryOp) (e : Expression) :
    eval s (.unary op e) = applyUnary op (eval s e) := rfl

theorem eval_binary (op : BinaryOp) (l r : Expression) :
    eval s (.binary op l r) = applyBinary op (eval s l) (eval s r) := rfl

theorem eval_member (e : Expression) (es : List Expression) :
    eval s (.member e es) = (do
      let needle ← eval s e
      return .boolean (← isMember (Value.ofTerm needle) (es.map (eval s)))) := by
  rw [eval, evalWith, evalEachWith_eq]

theorem eval_conditional (c t e : Expression) :
    eval s (.conditional c t e) =
      (do if ← termTruth (eval s c) then eval s t else eval s e) := rfl

theorem eval_coalesce (es : List Expression) :
    eval s (.coalesce es) = firstValue (es.map (eval s)) := by
  rw [eval, evalWith, evalEachWith_eq]

theorem eval_call (f : Function) (es : List Expression) :
    eval s (.call f es) = (do f.apply Regex.search? (← allValues (es.map (eval s)))) := by
  rw [eval, evalWith, evalEachWith_eq]

end

end Expression
end TripleAlgebra
