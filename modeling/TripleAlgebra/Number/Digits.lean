/-! Decimal digits: reading signed runs of them and writing a scaled number positionally. -/
namespace TripleAlgebra.Number

def digitValue (c : Char) : Nat := c.toNat - '0'.toNat

/-- The number that a run of digits denotes, most significant digit first. -/
def ofDigits (ds : List Char) : Nat := ds.foldl (fun n c => 10 * n + digitValue c) 0

def digits (n : Nat) : List Char := Nat.toDigits 10 n

/-- Takes an optional sign off the front. The flag says that it was a minus. -/
def splitSign : List Char → Bool × List Char
  | '-' :: cs => (true, cs)
  | '+' :: cs => (false, cs)
  | cs => (false, cs)

def signed (negative : Bool) (n : Nat) : Int := if negative then -n else n

/-- The lexical parts of an unsigned number: digits before and after the point, and the rest. A
number has a digit on at least one side of its point. -/
def splitFraction (cs : List Char) : Option (List Char × List Char × List Char) :=
  let whole := cs.takeWhile Char.isDigit
  match cs.dropWhile Char.isDigit with
  | '.' :: rest =>
    let part := rest.takeWhile Char.isDigit
    if whole.isEmpty && part.isEmpty then none else some (whole, part, rest.dropWhile Char.isDigit)
  | rest => if whole.isEmpty then none else some (whole, [], rest)

def stripTrailingZeros (ds : List Char) : List Char :=
  (ds.reverse.dropWhile (· = '0')).reverse

/-- The number `n · 10 ^ k` without exponent and without trailing zeros after the point. -/
def positional (n : Nat) (k : Int) : List Char :=
  if 0 ≤ k then digits (n * Nat.pow 10 k.toNat)
  else
    let unit := Nat.pow 10 (-k).toNat
    let part := digits (n % unit)
    let padded := List.replicate ((-k).toNat - part.length) '0' ++ part
    match stripTrailingZeros padded with
    | [] => digits (n / unit)
    | ds => digits (n / unit) ++ '.' :: ds

def signedText (negative : Bool) (cs : List Char) : String :=
  String.ofList (if negative then '-' :: cs else cs)

end TripleAlgebra.Number
