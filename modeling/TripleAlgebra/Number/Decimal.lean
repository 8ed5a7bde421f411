import TripleAlgebra.Number.Bounded

/-! Fixed-point decimals with eighteen fraction digits in a 128-bit word. -/
namespace TripleAlgebra.Number

def Decimal.places : Nat := 18

/-- The number `scaled · 10 ^ -18`. -/
structure Decimal where
  scaled : Bounded 128
  deriving DecidableEq, Inhabited

namespace Decimal

def unit : Int := Nat.pow 10 places

def ofScaled? (n : Int) : Option Decimal := (Bounded.ofInt? n).map .mk

/-- Every 64-bit whole number is a decimal. -/
def ofInteger (n : Integer) : Decimal :=
  ⟨⟨n.value * unit, by
    have h := n.fits
    simp only [Fits, unit, places, Nat.pow_eq] at *
    omega⟩⟩

def add? (a b : Decimal) : Option Decimal := (a.scaled.add? b.scaled).map .mk
def sub? (a b : Decimal) : Option Decimal := (a.scaled.sub? b.scaled).map .mk
def neg? (a : Decimal) : Option Decimal := a.scaled.neg?.map .mk

/-- Divides by the factor as long as nothing is lost, at most `count` times. Returns how many of the
divisions are left. From zero every factor is cancelled. -/
def cancel (factor : Int) : Nat → Int → Int × Nat
  | 0, n => (n, 0)
  | count + 1, n => if n % factor = 0 then cancel factor count (n / factor) else (n, count + 1)

/-- Cancels a factor of the unit from the left number, and what is left of it from the right one. -/
def cancelBoth (factor left right : Int) : Int × Int × Nat :=
  let (left, count) := cancel factor places left
  let (right, count) := cancel factor count right
  (left, right, count)

/-- The product of what the twos and the fives of the unit leave. If some of these are left the product
needs more than eighteen fraction digits and fails. -/
def mul? (a b : Decimal) : Option Decimal :=
  let (left, right, twos) := cancelBoth 2 a.scaled.value b.scaled.value
  let (left, right, fives) := cancelBoth 5 left right
  if twos = 0 ∧ fives = 0 then ofScaled? (left * right) else none

/-- Multiplies by ten as long as the number fits its word. Returns the count as well. -/
def scaleUp : Nat → Int → Int × Nat
  | 0, n => (n, 0)
  | fuel + 1, n =>
    if n ≠ 0 ∧ Fits 128 (n * 10) then
      let (m, k) := scaleUp fuel (n * 10)
      (m, k + 1)
    else (n, 0)

/-- Divides by ten as long as no digit is lost. Returns the count as well. -/
def scaleDown : Nat → Int → Int × Nat
  | 0, n => (n, 0)
  | fuel + 1, n =>
    if n ≠ 0 ∧ n % 10 = 0 then
      let (m, k) := scaleDown fuel (n / 10)
      (m, k + 1)
    else (n, 0)

/-- The most digits that a 128-bit word holds. -/
def wordDigits : Nat := 39

/-- The quotient truncated toward zero. The dividend is first scaled up and the divisor scaled
down; the division fails if this gains fewer than eighteen digits or too many for a word. -/
def div? (a b : Decimal) : Option Decimal :=
  let (left, up) := scaleUp wordDigits a.scaled.value
  let (right, down) := scaleDown wordDigits b.scaled.value
  let gained : Int := Nat.pow 10 (up + down - places)
  if up + down < places ∨ right = 0 ∨ ¬ Fits 128 (left.tdiv right) ∨ ¬ Fits 128 gained then none
  else ofScaled? ((left.tdiv right).tdiv gained)

/-- Reads an optional sign, digits and an optional fraction of at most eighteen significant
digits. -/
def parse? (s : String) : Option Decimal :=
  let (negative, cs) := splitSign s.toList
  match splitFraction cs with
  | some (whole, part, []) =>
    let part := stripTrailingZeros part
    if places < part.length then none
    else
      let n := ofDigits (whole ++ part) * Nat.pow 10 (places - part.length)
      ofScaled? (signed negative n)
  | _ => none

def render (a : Decimal) : String :=
  signedText (a.scaled.value < 0) (positional a.scaled.value.natAbs (-places))

/-- The number as a fraction in which common tens are cancelled. -/
def fraction (a : Decimal) : Int × Nat :=
  let (n, k) := scaleDown places a.scaled.value
  if a.scaled.value = 0 then (0, 1) else (n, Nat.pow 10 (places - k))

end Decimal
end TripleAlgebra.Number
