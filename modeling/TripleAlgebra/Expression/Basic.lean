import TripleAlgebra.Variable

/-! Expressions over the columns of a row. -/
namespace TripleAlgebra

inductive Function
  | isIri | isBlank | isLiteral | isNumeric
  | str | lang | datatype
  | strLen | upperCase | lowerCase
  | contains | strStarts | strEnds
  | regex
  deriving DecidableEq, Repr

namespace Function

def all : List Function :=
  [.isIri, .isBlank, .isLiteral, .isNumeric, .str, .lang, .datatype, .strLen, .upperCase,
    .lowerCase, .contains, .strStarts, .strEnds, .regex]

def name : Function → String
  | .isIri => "isIRI"
  | .isBlank => "isBLANK"
  | .isLiteral => "isLITERAL"
  | .isNumeric => "isNUMERIC"
  | .str => "STR"
  | .lang => "LANG"
  | .datatype => "DATATYPE"
  | .strLen => "STRLEN"
  | .upperCase => "UCASE"
  | .lowerCase => "LCASE"
  | .contains => "CONTAINS"
  | .strStarts => "STRSTARTS"
  | .strEnds => "STRENDS"
  | .regex => "REGEX"

def ofName? (s : String) : Option Function := all.find? (·.name = s)

/-- The least and the greatest number of arguments. -/
def arity : Function → Nat × Nat
  | .contains | .strStarts | .strEnds => (2, 2)
  | .regex => (2, 3)
  | _ => (1, 1)

def accepts (f : Function) (count : Nat) : Bool := f.arity.1 ≤ count && count ≤ f.arity.2

end Function

inductive UnaryOp
  | not | plus | minus
  deriving DecidableEq, Repr

inductive BinaryOp
  | or | and
  | equal | sameTerm | greater | greaterOrEqual | less | lessOrEqual
  | add | subtract | multiply | divide
  deriving DecidableEq, Repr

inductive Expression
  | var (v : Variable)
  | const (t : Term)
  | bound (v : Variable)
  | unary (op : UnaryOp) (e : Expression)
  | binary (op : BinaryOp) (l r : Expression)
  | member (e : Expression) (list : List Expression)
  | conditional (c t e : Expression)
  | coalesce (list : List Expression)
  | call (f : Function) (list : List Expression)
  deriving Repr, Inhabited

namespace Expression

/-- Induction in which a list of operands gives the hypothesis for each of its members. -/
@[elab_as_elim]
theorem inductMembers {motive : Expression → Prop}
    (var : ∀ v, motive (.var v)) (const : ∀ t, motive (.const t))
    (bound : ∀ v, motive (.bound v)) (unary : ∀ op e, motive e → motive (.unary op e))
    (binary : ∀ op l r, motive l → motive r → motive (.binary op l r))
    (member : ∀ e es, motive e → (∀ x ∈ es, motive x) → motive (.member e es))
    (conditional : ∀ c t e, motive c → motive t → motive e → motive (.conditional c t e))
    (coalesce : ∀ es, (∀ x ∈ es, motive x) → motive (.coalesce es))
    (call : ∀ f es, (∀ x ∈ es, motive x) → motive (.call f es)) (e : Expression) : motive e :=
  Expression.rec var const bound unary binary member conditional coalesce call
    (by simp) (fun x xs hx hxs => by simpa using ⟨hx, hxs⟩) e

mutual

/-- All variables in the order in which they are written, with repetitions. -/
def occurrences : Expression → List Variable
  | .var v | .bound v => [v]
  | .const _ => []
  | .unary _ e => occurrences e
  | .binary _ l r => occurrences l ++ occurrences r
  | .member e es => occurrences e ++ occurrencesEach es
  | .conditional c t e => occurrences c ++ (occurrences t ++ occurrences e)
  | .coalesce es | .call _ es => occurrencesEach es

def occurrencesEach : List Expression → List Variable
  | [] => []
  | e :: es => occurrences e ++ occurrencesEach es

end

/-- The distinct variables in the order of their first occurrence. -/
def vars (e : Expression) : List Variable := Variable.append [] e.occurrences

theorem occurrencesEach_eq (es : List Expression) :
    occurrencesEach es = es.flatMap occurrences := by
  induction es with
  | nil => rfl
  | cons e es ih => simp [occurrencesEach, ih]

theorem mem_vars {e : Expression} {v : Variable} : v ∈ e.vars ↔ v ∈ e.occurrences := by
  simp [vars, Variable.mem_append]

end Expression
end TripleAlgebra
