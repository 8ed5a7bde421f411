import TripleAlgebra.Regex.Flags

/-! Reading a pattern character by character. -/
namespace TripleAlgebra.Regex
open Text

/-- The rest of a pattern, the names of its groups so far and the flags that are in force. -/
structure Source where
  rest : List Char
  names : List String := []
  flags : Flags

/-- Reading fails where a pattern is not valid. -/
abbrev Reader := StateT Source Option

namespace Reader

/-- What follows blanks and comments. A comment reaches from a hash sign to the end of its line. -/
def withoutBlanks (inComment : Bool) : List Char → List Char
  | [] => []
  | c :: cs =>
    if inComment then withoutBlanks (c ≠ '\n') cs
    else if Property.whiteSpace.contains c then withoutBlanks false cs
    else if c = '#' then withoutBlanks true cs
    else c :: cs

def flags : Reader Flags := do return (← get).flags

def setFlags (f : Flags) : Reader Unit := modify fun s => { s with flags := f }

def rest : Reader (List Char) := do return (← get).rest

def setRest (cs : List Char) : Reader Unit := modify fun s => { s with rest := cs }

def ofOption {α : Type} (a : Option α) : Reader α := fun s => a.map (·, s)

/-- Skips blanks and comments if the flags say so. -/
def skip : Reader Unit := do
  if (← flags).skipBlanks then setRest (withoutBlanks false (← rest))

def drop (n : Nat) : Reader Unit := do setRest ((← rest).drop n)

/-- Moves to the next character that counts. -/
def next : Reader Unit := do
  drop 1
  skip

def current : Reader Char := do ofOption (← rest).head?

def guard (b : Bool) : Reader Unit := ofOption (if b then some () else none)

/-- Whether the rest starts with a text, which is then read. -/
def take (s : String) : Reader Bool := do
  let cs ← rest
  if s.toList.isPrefixOf cs then
    setRest (cs.drop s.length)
    return true
  else return false

/-- Characters that satisfy a test, moving on by `move`. -/
def takeWhile (test : Char → Bool) (move : Reader Unit) : Nat → Reader (List Char)
  | 0 => return []
  | n + 1 => do
    match (← rest).head?.filter test with
    | none => return []
    | some c => do
      move
      let cs ← takeWhile test move n
      return c :: cs

/-- All characters up to the first that fails a test. -/
def takeAll (test : Char → Bool) (move : Reader Unit) : Reader (List Char) := do
  takeWhile test move (← rest).length

end Reader
end TripleAlgebra.Regex
