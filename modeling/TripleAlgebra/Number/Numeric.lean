import TripleAlgebra.Number.Decimal
import TripleAlgebra.Number.BinaryText

/-! Numbers of the four numeric types and the arithmetic between them. -/
namespace TripleAlgebra.Number

inductive Numeric
  | integer (n : Integer)
  | decimal (d : Decimal)
  | float (x : Binary .single)
  | double (x : Binary .double)
  deriving DecidableEq

/-- Two numbers of one type. -/
inductive NumericPair
  | integers (a b : Integer)
  | decimals (a b : Decimal)
  | floats (a b : Binary .single)
  | doubles (a b : Binary .double)

/-- The quotient of the rounded numerator and the rounded denominator. -/
def Decimal.toDouble (d : Decimal) : Binary .double :=
  let (n, k) := d.fraction
  (Binary.ofInt n).div (Binary.ofInt k)

namespace Numeric

def toDouble : Numeric → Binary .double
  | .integer n => Binary.ofInt n.value
  | .decimal d => d.toDouble
  | .float x => x.convert
  | .double x => x

/-- Decimals reach the single format by way of the double one. -/
def toFloat : Numeric → Binary .single
  | .integer n => Binary.ofInt n.value
  | .decimal d => (d.toDouble).convert
  | .float x => x
  | .double x => x.convert

/-- Converts both operands to the wider of their types. -/
def promote : Numeric → Numeric → NumericPair
  | .integer a, .integer b => .integers a b
  | .integer a, .decimal b => .decimals (.ofInteger a) b
  | .decimal a, .integer b => .decimals a (.ofInteger b)
  | .decimal a, .decimal b => .decimals a b
  | .double a, b => .doubles a b.toDouble
  | a, .double b => .doubles a.toDouble b
  | a, b => .floats a.toFloat b.toFloat

def add? (a b : Numeric) : Option Numeric :=
  match promote a b with
  | .integers a b => (a.add? b).map .integer
  | .decimals a b => (a.add? b).map .decimal
  | .floats a b => some (.float (a.add b))
  | .doubles a b => some (.double (a.add b))

def sub? (a b : Numeric) : Option Numeric :=
  match promote a b with
  | .integers a b => (a.sub? b).map .integer
  | .decimals a b => (a.sub? b).map .decimal
  | .floats a b => some (.float (a.sub b))
  | .doubles a b => some (.double (a.sub b))

def mul? (a b : Numeric) : Option Numeric :=
  match promote a b with
  | .integers a b => (a.mul? b).map .integer
  | .decimals a b => (a.mul? b).map .decimal
  | .floats a b => some (.float (a.mul b))
  | .doubles a b => some (.double (a.mul b))

/-- The quotient of two integers is a decimal. -/
def div? (a b : Numeric) : Option Numeric :=
  match promote a b with
  | .integers a b => ((Decimal.ofInteger a).div? (.ofInteger b)).map .decimal
  | .decimals a b => (a.div? b).map .decimal
  | .floats a b => some (.float (a.div b))
  | .doubles a b => some (.double (a.div b))

def neg? : Numeric → Option Numeric
  | .integer a => a.neg?.map .integer
  | .decimal a => a.neg?.map .decimal
  | .float a => some (.float a.neg)
  | .double a => some (.double a.neg)

/-- Only a NaN is not comparable. -/
def compare? (a b : Numeric) : Option Ordering :=
  match promote a b with
  | .integers a b => some (compare a.value b.value)
  | .decimals a b => some (compare a.scaled.value b.scaled.value)
  | .floats a b => a.compare? b
  | .doubles a b => a.compare? b

def isZeroOrNan : Numeric → Bool
  | .integer n => n.value = 0
  | .decimal d => d.scaled.value = 0
  | .float x => x.isZeroOrNan
  | .double x => x.isZeroOrNan

def render : Numeric → String
  | .integer n => n.render
  | .decimal d => d.render
  | .float x => x.render
  | .double x => x.render

end Numeric
end TripleAlgebra.Number
