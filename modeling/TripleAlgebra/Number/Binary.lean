import TripleAlgebra.Number.Digits

/-! Binary floating-point numbers in exact arithmetic, rounded to nearest with ties to even. -/
namespace TripleAlgebra.Number

/-- A format has `precision` significand bits. Its last bit weighs `2 ^ e` with `e` between the two
bounds. -/
structure Format where
  precision : Nat
  minExponent : Int
  maxExponent : Int
  deriving DecidableEq

def Format.single : Format := ⟨24, -149, 104⟩
def Format.double : Format := ⟨53, -1074, 971⟩

/-- A finite number is `significand · 2 ^ exponent` with its sign. Zero is signed, too. -/
inductive Binary (f : Format)
  | nan
  | infinity (negative : Bool)
  | finite (negative : Bool) (significand : Nat) (exponent : Int)
  deriving DecidableEq, Inhabited

namespace Binary
variable {f : Format}

def zero (negative : Bool) : Binary f := .finite negative 0 f.minExponent

/-- The fraction `num / den` in units of `2 ^ e`. -/
private def inUnits (num den : Nat) (e : Int) : Nat × Nat :=
  if 0 ≤ e then (num, den * Nat.pow 2 e.toNat) else (num * Nat.pow 2 (-e).toNat, den)

/-- A quotient rounded to the nearest whole number, ties to even. -/
def roundQuotient (num den : Nat) : Nat :=
  let q := num / den
  let r := 2 * (num % den)
  if r < den ∨ (r = den ∧ q % 2 = 0) then q else q + 1

/-- The weight of the last bit that the format keeps of a positive fraction. -/
def lastBit (f : Format) (num den : Nat) : Int :=
  let e := max f.minExponent ((num.log2 : Int) - den.log2 - f.precision)
  let (n, d) := inUnits num den e
  if n / d < Nat.pow 2 f.precision then e else e + 1

/-- The number nearest to `num / den`, of two such numbers the one with an even significand. -/
def ofRatio (negative : Bool) (num den : Nat) : Binary f :=
  if num = 0 then zero negative
  else
    let e := lastBit f num den
    let (n, d) := inUnits num den e
    let m := roundQuotient n d
    let (m, e) := if m = Nat.pow 2 f.precision then (m / 2, e + 1) else (m, e)
    if f.maxExponent < e then .infinity negative else .finite negative m e

/-- The number nearest to `n · 2 ^ e`. -/
def ofScaled (negative : Bool) (n : Nat) (e : Int) : Binary f :=
  let (n, d) := inUnits n 1 (-e)
  ofRatio negative n d

def ofInt (n : Int) : Binary f := ofRatio (n < 0) n.natAbs 1

/-- Rounds into another format. -/
def convert {g : Format} : Binary f → Binary g
  | .nan => .nan
  | .infinity s => .infinity s
  | .finite s m e => ofScaled s m e

def neg : Binary f → Binary f
  | .nan => .nan
  | .infinity s => .infinity (!s)
  | .finite s m e => .finite (!s) m e

/-- A signed significand in units of a smaller power of two. -/
private def alignTo (s : Bool) (m : Nat) (e low : Int) : Int :=
  signed s (m * Nat.pow 2 (e - low).toNat)

def add : Binary f → Binary f → Binary f
  | .nan, _ | _, .nan => .nan
  | .infinity s, .infinity t => if s = t then .infinity s else .nan
  | .infinity s, .finite .. => .infinity s
  | .finite .., .infinity t => .infinity t
  | .finite s m e, .finite t n d =>
    let low := min e d
    let sum := alignTo s m e low + alignTo t n d low
    if sum = 0 then zero (s && t) else ofScaled (sum < 0) sum.natAbs low

def sub (a b : Binary f) : Binary f := a.add b.neg

def mul : Binary f → Binary f → Binary f
  | .nan, _ | _, .nan => .nan
  | .infinity s, .infinity t => .infinity (s != t)
  | .infinity s, .finite t n _ => if n = 0 then .nan else .infinity (s != t)
  | .finite s m _, .infinity t => if m = 0 then .nan else .infinity (s != t)
  | .finite s m e, .finite t n d => ofScaled (s != t) (m * n) (e + d)

def div : Binary f → Binary f → Binary f
  | .nan, _ | _, .nan => .nan
  | .infinity _, .infinity _ => .nan
  | .infinity s, .finite t _ _ => .infinity (s != t)
  | .finite s _ _, .infinity t => zero (s != t)
  | .finite s m e, .finite t n d =>
    if n = 0 then if m = 0 then .nan else .infinity (s != t)
    else
      let (num, den) := inUnits m n (d - e)
      ofRatio (s != t) num den

/-- The order of the numbers. `nan` is not comparable and the two zeros are equal. -/
def compare? : Binary f → Binary f → Option Ordering
  | .nan, _ | _, .nan => none
  | .infinity s, .infinity t => some (compare t.toNat s.toNat)
  | .infinity s, .finite .. => some (if s then .lt else .gt)
  | .finite .., .infinity t => some (if t then .gt else .lt)
  | .finite s m e, .finite t n d =>
    let low := min e d
    some (compare (alignTo s m e low) (alignTo t n d low))

def isZeroOrNan : Binary f → Bool
  | .nan => true
  | .infinity _ => false
  | .finite _ m _ => m = 0

end Binary
end TripleAlgebra.Number
