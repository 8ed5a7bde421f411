import TripleAlgebra.Number.Binary

/-! Text of binary floating-point numbers: any decimal is read, the shortest one is written. -/
namespace TripleAlgebra.Number.Binary
variable {f : Format}

/-- The number nearest to `n · 10 ^ k`. Exponents far outside the format are not multiplied out. -/
def ofDecimal (negative : Bool) (n : Nat) (k : Int) : Binary f :=
  let magnitude : Int := (digits n).length + k
  if n = 0 then zero negative
  else if f.maxExponent + f.precision < magnitude then .infinity negative
  else if magnitude < f.minExponent then zero negative
  else if 0 ≤ k then ofRatio negative (n * Nat.pow 10 k.toNat) 1
  else ofRatio negative n (Nat.pow 10 (-k).toNat)

/-- Reads what follows the fraction: nothing, or a marked exponent. -/
private def exponentOf? : List Char → Option Int
  | [] => some 0
  | c :: cs =>
    let (negative, ds) := splitSign cs
    if c.toLower ≠ 'e' ∨ ds.isEmpty ∨ !ds.all Char.isDigit then none
    else some (signed negative (ofDigits ds))

/-- Reads a decimal with an optional exponent, an infinity or a NaN, the words in any case. -/
def parse? (s : String) : Option (Binary f) :=
  let (negative, cs) := splitSign s.toList
  let word := String.ofList (cs.map Char.toLower)
  if word = "nan" then some .nan
  else if word = "inf" ∨ word = "infinity" then some (.infinity negative)
  else do
    let (whole, part, rest) ← splitFraction cs
    let k ← exponentOf? rest
    pure (ofDecimal negative (ofDigits (whole ++ part)) (k - part.length))

/-- The exponent of the first decimal digit of a positive fraction. -/
def leadingExponent (num den : Nat) : Int :=
  if den ≤ num then (digits (num / den)).length - 1
  else -((digits ((den - 1) / num)).length : Int)

/-- The decimal grid point next to a fraction that lies strictly between two bounds, or between or
at them if they are `closed`. All three share one denominator; the grid has step `10 ^ k`. Of two
points the nearer is taken, of two equally near ones the larger. -/
def gridPoint? (low mid high den : Nat) (closed : Bool) (k : Int) : Option Nat :=
  let scale := if 0 ≤ k then 1 else Nat.pow 10 (-k).toNat
  let step := if 0 ≤ k then den * Nat.pow 10 k.toNat else den
  let below := mid * scale / step
  let inside (n : Nat) : Bool :=
    if closed then low * scale ≤ n * step && n * step ≤ high * scale
    else low * scale < n * step && n * step < high * scale
  let nearer := 2 * (mid * scale) < (2 * below + 1) * step
  match inside below, inside (below + 1) with
  | true, true => some (if nearer then below else below + 1)
  | true, false => some below
  | false, true => some (below + 1)
  | false, false => none

/-- The most digits needed to tell two numbers of a format apart. -/
private def digitLimit (f : Format) : Nat := f.precision * 30103 / 100000 + 2

/-- The decimal `n · 10 ^ k` with the fewest digits that reads back as a positive number. -/
def shortest (m : Nat) (e : Int) : Nat × Int :=
  let narrow := m = Nat.pow 2 (f.precision - 1) ∧ f.minExponent < e
  let scale := if 0 ≤ e then Nat.pow 2 e.toNat else 1
  let den := if 0 ≤ e then 4 else 4 * Nat.pow 2 (-e).toNat
  let mid := 4 * m * scale
  let low := (4 * m - if narrow then 1 else 2) * scale
  let high := (4 * m + 2) * scale
  let lead := leadingExponent mid den
  let grids := (List.range (digitLimit f + 1)).map fun (n : Nat) => lead - (n : Int)
  (grids.findSome? fun k => (gridPoint? low mid high den (m % 2 = 0) k).map (·, k)).getD (m, e)

def render : Binary f → String
  | .nan => "NaN"
  | .infinity s => signedText s ['I', 'N', 'F']
  | .finite s m e =>
    if m = 0 then signedText s ['0']
    else
      let (n, k) := shortest (f := f) m e
      signedText s (positional n k)

end TripleAlgebra.Number.Binary
