import TripleAlgebra.Expression.Basic
import TripleAlgebra.Update

/-! Replacing variables by terms in expressions. -/
namespace TripleAlgebra

/-- The values given to variables. -/
abbrev Assignment := Variable → Option Term

namespace Expression

mutual

/-- Replaces each variable that has a value. A variable with a value is known to be bound. -/
def substitute? (s : Assignment) : Expression → Option Expression
  | .var v => (s v).map .const
  | .const _ => none
  | .bound v => (s v).map fun _ => .const (.boolean true)
  | .unary op e => (substitute? s e).map (.unary op)
  | .binary op l r =>
    (Update.both l (substitute? s l) r (substitute? s r)).map fun (l, r) => .binary op l r
  | .member e es =>
    (Update.both e (substitute? s e) es (substituteEach? s es)).map fun (e, es) => .member e es
  | .conditional c t e =>
    (Update.both c (substitute? s c) (t, e)
      (Update.both t (substitute? s t) e (substitute? s e))).map
        fun (c, t, e) => .conditional c t e
  | .coalesce es => (substituteEach? s es).map .coalesce
  | .call f es => (substituteEach? s es).map (.call f)

def substituteEach? (s : Assignment) : List Expression → Option (List Expression)
  | [] => none
  | e :: es =>
    (Update.both e (substitute? s e) es (substituteEach? s es)).map fun (e, es) => e :: es

end

/-- The expression after substitution, changed or not. -/
def substitute (s : Assignment) (e : Expression) : Expression := (substitute? s e).getD e

/-- The value of the first entry of a variable. An entry without value hides later ones. -/
def entry (vs : List Variable) (ts : List (Option Term)) : Assignment := fun v =>
  ((vs.zip ts).find? (·.1 = v)).bind (·.2)

/-- Substitutes the variables by the values at the same positions. -/
def bind? (e : Expression) (vs : List Variable) (ts : List (Option Term)) : Option Expression :=
  e.substitute? (entry vs ts)

@[simp] theorem substituteEach?_getD (s : Assignment) (es : List Expression) :
    (substituteEach? s es).getD es = es.map (substitute s) := by
  induction es with
  | nil => rfl
  | cons e es ih =>
    simp only [substituteEach?, List.map_cons, ← ih, substitute]
    cases substitute? s e <;> cases substituteEach? s es <;> rfl

/-- Substitution replaces each operand by itself. -/
theorem substitute_binary (s : Assignment) (op : BinaryOp) (l r : Expression) :
    substitute s (.binary op l r) = .binary op (substitute s l) (substitute s r) := by
  simp only [substitute, substitute?]
  cases substitute? s l <;> cases substitute? s r <;> rfl

theorem substitute_unary (s : Assignment) (op : UnaryOp) (e : Expression) :
    substitute s (.unary op e) = .unary op (substitute s e) := by
  simp only [substitute, substitute?]
  cases substitute? s e <;> rfl

theorem substitute_conditional (s : Assignment) (c t e : Expression) :
    substitute s (.conditional c t e) =
      .conditional (substitute s c) (substitute s t) (substitute s e) := by
  simp only [substitute, substitute?]
  cases substitute? s c <;> cases substitute? s t <;> cases substitute? s e <;> rfl

theorem substitute_member (s : Assignment) (e : Expression) (es : List Expression) :
    substitute s (.member e es) = .member (substitute s e) (es.map (substitute s)) := by
  rw [← substituteEach?_getD]
  simp only [substitute, substitute?]
  cases substitute? s e <;> cases substituteEach? s es <;> rfl

theorem substitute_coalesce (s : Assignment) (es : List Expression) :
    substitute s (.coalesce es) = .coalesce (es.map (substitute s)) := by
  rw [← substituteEach?_getD]
  simp only [substitute, substitute?]
  cases substituteEach? s es <;> rfl

theorem substitute_call (s : Assignment) (f : Function) (es : List Expression) :
    substitute s (.call f es) = .call f (es.map (substitute s)) := by
  rw [← substituteEach?_getD]
  simp only [substitute, substitute?]
  cases substituteEach? s es <;> rfl

end Expression
end TripleAlgebra
