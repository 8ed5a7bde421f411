import TripleAlgebra.Regex.Source

/-! What a backslash and the characters after it stand for. -/
namespace TripleAlgebra.Regex
open Text

inductive Atom
  | literal (c : Char) (isByte : Bool)
  | set (s : CharSet)
  | look (l : Look)

/-- The characters with a meaning of their own. -/
def special : List Char :=
  ['\\', '.', '+', '*', '?', '(', ')', '|', '[', ']', '\x7b', '\x7d', '^', '$', '#', '&', '-', '~']

/-- Whether a backslash before a character has no effect. -/
def isEscapable (c : Char) : Bool :=
  c ∈ special || (c.toNat < 128 && !c.isAlphanum && c ≠ '<' && c ≠ '>')

namespace Reader

def hexValue? (c : Char) : Option Nat :=
  if c.isDigit then some (c.toNat - '0'.toNat)
  else if 'a' ≤ c ∧ c ≤ 'f' then some (c.toNat - 'a'.toNat + 10)
  else if 'A' ≤ c ∧ c ≤ 'F' then some (c.toNat - 'A'.toNat + 10)
  else none

def charOfHex? (cs : List Char) : Option Char := do
  let digits ← cs.mapM hexValue?
  let n := digits.foldl (fun n d => 16 * n + d) 0
  if n < 0xD800 ∨ (0xDFFF < n ∧ n < 0x110000) then some (Char.ofNat n) else none

def hexDigits : Nat → Reader (List Char)
  | 0 => return []
  | n + 1 => do
    let c ← current
    next
    let cs ← hexDigits n
    return c :: cs

/-- A code point: so many digits, or any number of them in braces. -/
def hexLiteral (count : Nat) : Reader Atom := do
  if (← current) = '\x7b' then
    next
    let cs ← takeAll (· ≠ '\x7d') next
    guard (!cs.isEmpty && (← rest).head?.isSome)
    next
    return .literal (← ofOption (charOfHex? cs)) false
  else return .literal (← ofOption (charOfHex? (← hexDigits count))) (count = 2)

/-- A property by the letter after `p`, or by what stands in braces. -/
def property (negated : Bool) : Reader Atom := do
  let f ← flags
  guard f.unicode
  let (s, flipped) ← do
    if (← current) = '\x7b' then
      next
      let name ← takeAll (· ≠ '\x7d') next
      guard (← rest).head?.isSome
      drop 1
      ofOption (PropertyName.query? name)
    else
      let c ← current
      guard (c ≠ '\\')
      next
      ofOption ((PropertyName.single? [c]).map (·, false))
  return .set (f.foldAndNegate (negated != flipped) s)

def isBoundaryNameChar (c : Char) : Bool :=
  ('a' ≤ c ∧ c ≤ 'z') || ('A' ≤ c ∧ c ≤ 'Z') || c = '-'

/-- The name of a boundary in braces. What does not begin like a name is a count. -/
def boundaryName? : Reader (Option Boundary) := do
  let start ← rest
  if start.head? ≠ some '\x7b' then return none
  next
  let c ← current
  if !isBoundaryNameChar c then
    setRest start
    return none
  let name ← takeAll isBoundaryNameChar next
  guard ((← current) = '\x7d')
  drop 1
  match String.ofList name with
  | "start" => return some .start
  | "end" => return some .stop
  | "start-half" => return some .noneBefore
  | "end-half" => return some .noneAfter
  | _ => failure

/-- Reads an escape, the backslash of which comes next. -/
def escape : Reader Atom := do
  drop 1
  let f ← flags
  let c ← current
  let set (s : CharSet) (negated : Bool) : Reader Atom := do
    drop 1
    return .set (if negated then f.complement s else s)
  let literal (c : Char) : Reader Atom := do
    drop 1
    return .literal c false
  let look (l : Look) : Reader Atom := do
    drop 1
    return .look l
  match c with
  | 'x' => do next; hexLiteral 2
  | 'u' => do next; hexLiteral 4
  | 'U' => do next; hexLiteral 8
  | 'p' => do next; property false
  | 'P' => do next; property true
  | 'd' => set f.digit false
  | 'D' => set f.digit true
  | 's' => set f.space false
  | 'S' => set f.space true
  | 'w' => set f.word false
  | 'W' => set f.word true
  | 'a' => literal '\x07'
  | 'f' => literal '\x0C'
  | 't' => literal '\t'
  | 'n' => literal '\n'
  | 'r' => literal '\r'
  | 'v' => literal '\x0B'
  | 'A' => look .textStart
  | 'z' => look .textEnd
  | 'b' => do
    drop 1
    return .look (.boundary ((← boundaryName?).getD .edge) f.word)
  | 'B' => look (.boundary .noEdge f.word)
  | '<' => look (.boundary .start f.word)
  | '>' => look (.boundary .stop f.word)
  | c => do
    guard (isEscapable c)
    literal c

end Reader
end TripleAlgebra.Regex
