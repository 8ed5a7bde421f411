import TripleAlgebra.Regex.Pattern
import TripleAlgebra.Regex.Size

/-! Searching a text for a match of a pattern. -/
namespace TripleAlgebra.Regex

/-- The largest automaton that is accepted, in bytes. -/
def sizeLimit : Nat := 1000000

/-- A pattern in which every character stands for itself. -/
def quotePattern (pattern : List Char) : List Char :=
  pattern.flatMap fun c => if c ∈ special then ['\\', c] else [c]

/-- The flags of a search. A `q` is none of the pattern's own flags. -/
def searchFlags? (flags : List Char) : Option Flags :=
  flags.foldlM (fun f c =>
    if c = 'q' then some f else if c ∈ ['s', 'm', 'i', 'x'] then f.set? c true else none) {}

/-- The regular expression of a pattern with flags. There is none if the pattern or a flag is not
valid, or if the pattern is too large. -/
def compile? (pattern flags : String) : Option Regex := do
  let f ← searchFlags? flags.toList
  let p := if 'q' ∈ flags.toList then quotePattern pattern.toList else pattern.toList
  let r ← ofPattern? f p
  if r.totalSize ≤ sizeLimit then some r else none

/-- Whether a text has a match of a pattern with flags, if these are valid. -/
abbrev Search := String → String → String → Option Bool

/-- Compiles the pattern and searches the text. -/
def search? : Search := fun pattern flags text => (compile? pattern flags).map (·.occursIn text)

end TripleAlgebra.Regex
