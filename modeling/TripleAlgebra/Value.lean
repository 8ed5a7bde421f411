import TripleAlgebra.Number.Numeric
import TripleAlgebra.Term

/-! The values that terms denote, with their truth, equality and order. -/
namespace TripleAlgebra
open Number

/-- An expression failure. It has no reason, since all failures are treated alike. -/
inductive Failure
  | failed
  deriving DecidableEq, Repr

abbrev Partial (α : Type) := Except Failure α

def Failure.message : Failure → String
  | .failed => "Expression evaluation failed."

/-- The value of an option, and a failure where there is none. -/
def Partial.ofOption {α : Type} : Option α → Partial α
  | some a => .ok a
  | none => .error .failed

/-- A literal whose lexical form is not in its datatype, or whose datatype is unknown, stays as it
is. -/
inductive Value
  | iri (name : String)
  | blank (label : String)
  | boolean (b : Bool)
  | numeric (n : Numeric)
  | simple (s : String)
  | tagged (s language : String)
  | other (l : Literal)
  deriving DecidableEq

namespace Datatype

/-- The integer type and the types derived from it. -/
def integers : List String :=
  ["integer", "byte", "short", "int", "long", "unsignedByte", "unsignedShort", "unsignedInt",
    "unsignedLong", "positiveInteger", "negativeInteger", "nonPositiveInteger",
    "nonNegativeInteger"].map Vocabulary.xsd

def isInteger (d : String) : Bool := d ∈ integers

def isNumeric (d : String) : Bool :=
  d ∈ ["decimal", "float", "double"].map Vocabulary.xsd || isInteger d

end Datatype

namespace Value

def parseBoolean? (s : String) : Option Bool :=
  if s = "true" ∨ s = "1" then some true
  else if s = "false" ∨ s = "0" then some false
  else none

/-- The value of a lexical form of a datatype. -/
def parse? (s d : String) : Option Value :=
  if d = Vocabulary.xsd "string" then some (.simple s)
  else if d = Vocabulary.xsd "boolean" then (parseBoolean? s).map .boolean
  else if d = Vocabulary.xsd "decimal" then (Decimal.parse? s).map fun x => .numeric (.decimal x)
  else if d = Vocabulary.xsd "float" then (Binary.parse? s).map fun x => .numeric (.float x)
  else if d = Vocabulary.xsd "double" then (Binary.parse? s).map fun x => .numeric (.double x)
  else if Datatype.isInteger d then (Bounded.parse? s).map fun x => .numeric (.integer x)
  else none

def ofLiteral (l : Literal) : Value :=
  match l.kind with
  | .tagged t => .tagged l.lexical t
  | .plain => .simple l.lexical
  | .typed d => (parse? l.lexical d).getD (.other l)

def ofTerm : Term → Value
  | .iri n => .iri n
  | .blank b => .blank b
  | .literal l => ofLiteral l

/-- The datatype of the literal that a number is written as. -/
def numericDatatype : Numeric → String
  | .integer _ => Vocabulary.xsd "integer"
  | .decimal _ => Vocabulary.xsd "decimal"
  | .float _ => Vocabulary.xsd "float"
  | .double _ => Vocabulary.xsd "double"

def numericTerm (n : Numeric) : Term := .typed n.render (numericDatatype n)

/-- The canonical term of a value. -/
def toTerm : Value → Term
  | .iri n => .iri n
  | .blank b => .blank b
  | .boolean b => .boolean b
  | .numeric n => numericTerm n
  | .simple s => .plain s
  | .tagged s t => .literal (.tagged s t)
  | .other l => .literal l

/-- Truth values, numbers and simple strings are true or false. All other values are neither. -/
def truth : Value → Partial Bool
  | .boolean b => .ok b
  | .numeric n => .ok (!n.isZeroOrNan)
  | .simple s => .ok (s ≠ "")
  | _ => .error .failed

/-- The text and the language of a simple or tagged string. -/
def text : Value → Partial (String × Option String)
  | .simple s => .ok (s, none)
  | .tagged s t => .ok (s, some t)
  | _ => .error .failed

/-- Equality of values. A literal without a known value equals itself; whether it equals anything
else is unknown. -/
def equal : Value → Value → Partial Bool
  | .numeric a, .numeric b => .ok (a.compare? b = some .eq)
  | .other a, .other b => if a = b then .ok true else .error .failed
  | .other _, _ | _, .other _ => .error .failed
  | a, b => .ok (a = b)

/-- The order of numbers, truth values, simple strings and strings of one language. Strings are
ordered by code points. -/
def order : Value → Value → Partial Ordering
  | .numeric a, .numeric b => .ofOption (a.compare? b)
  | .boolean a, .boolean b => .ok (compare a.toNat b.toNat)
  | .simple a, .simple b => .ok (compare a b)
  | .tagged a s, .tagged b t => if s = t then .ok (compare a b) else .error .failed
  | _, _ => .error .failed

end Value
end TripleAlgebra
