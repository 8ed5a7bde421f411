import TripleAlgebra.Regex.Escape

/-! Sets of characters in brackets. -/
namespace TripleAlgebra.Regex
open Text

inductive SetOp
  | inter | diff | symmDiff
  deriving DecidableEq, Repr

def SetOp.apply : SetOp → CharSet → CharSet → CharSet
  | .inter => CharSet.inter
  | .diff => CharSet.diff
  | .symmDiff => CharSet.symmDiff

namespace Reader

/-- An operator that waits for its right side. All have the same rank and group to the left. -/
abbrev Pending := Option (SetOp × CharSet)

def complete (f : Flags) (p : Pending) (s : CharSet) : CharSet :=
  match p with
  | none => s
  | some (op, t) => op.apply (f.fold t) (f.fold s)

/-- A named ASCII class such as `[:alpha:]`, and what follows it. -/
def namedClass? (f : Flags) (cs : List Char) : Option (CharSet × List Char) := do
  let (negated, name) ← match cs with
    | '[' :: ':' :: '^' :: cs => some (true, cs)
    | '[' :: ':' :: cs => some (false, cs)
    | _ => none
  match name.dropWhile (· ≠ ':') with
  | ':' :: ']' :: after =>
    let s ← asciiClass? (String.ofList (name.takeWhile (· ≠ ':')))
    some (f.foldAndNegate negated s, after)
  | _ => none

def classItem : Reader Atom := do
  if (← current) = '\\' then escape
  else
    let c ← current
    drop 1
    return .literal c false

def memberSet (a : Atom) : Reader CharSet := do
  match a with
  | .literal c _ => return .singleton (← ofOption ((← flags).member? c))
  | .set s => return s
  | .look _ => failure

def memberChar (a : Atom) : Reader Char := do
  match a with
  | .literal c _ => ofOption ((← flags).member? c)
  | _ => failure

/-- One item, or two characters with a hyphen between them. A hyphen before another hyphen or before
the end of the class stands for itself. -/
def classRange : Reader CharSet := do
  let first ← classItem
  skip
  let c ← current
  let f ← flags
  let after := (← rest).drop 1
  let after := if f.skipBlanks then withoutBlanks false after else after
  if c ≠ '-' ∨ after.head? = some ']' ∨ after.head? = some '-' then memberSet first
  else
    next
    let last ← classItem
    let low ← memberChar first
    let high ← memberChar last
    guard (low ≤ high)
    return ⟨[(low.toNat, high.toNat)]⟩

mutual

/-- The items of a class up to its closing bracket. `s` holds those since the last operator. -/
def classBody : Nat → Pending → CharSet → Reader CharSet
  | 0, _, _ => failure
  | fuel + 1, pending, s => do
    skip
    let f ← flags
    match ← rest with
    | [] => failure
    | ']' :: cs => do
      setRest cs
      return complete f pending s
    | '&' :: '&' :: cs => do
      setRest cs
      classBody fuel (some (.inter, complete f pending s)) .empty
    | '-' :: '-' :: cs => do
      setRest cs
      classBody fuel (some (.diff, complete f pending s)) .empty
    | '~' :: '~' :: cs => do
      setRest cs
      classBody fuel (some (.symmDiff, complete f pending s)) .empty
    | '[' :: cs =>
      match namedClass? f ('[' :: cs) with
      | some (t, cs) => do
        setRest cs
        classBody fuel pending (s.union t)
      | none => do
        let t ← bracket fuel
        classBody fuel pending (s.union t)
    | _ => do
      let t ← classRange
      classBody fuel pending (s.union t)

/-- A class, the opening bracket of which comes next. Hyphens that come first stand for themselves,
and so does a closing bracket. -/
def bracket : Nat → Reader CharSet
  | 0 => failure
  | fuel + 1 => do
    next
    let negated := (← current) = '^'
    if negated then next
    let hyphens ← takeAll (· = '-') next
    let closes := hyphens.isEmpty && (← current) = ']'
    if closes then next
    guard !(← rest).isEmpty
    let s ← classBody fuel none
      (.ofString (if closes then "]" else if hyphens.isEmpty then "" else "-"))
    return (← flags).foldAndNegate negated s

end
end Reader
end TripleAlgebra.Regex
