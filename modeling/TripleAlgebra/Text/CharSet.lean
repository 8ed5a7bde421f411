/-! Sets of characters. -/
namespace TripleAlgebra.Text

/-- Ranges of code points, both ends included, in increasing order and with a gap between them. -/
structure CharSet where
  ranges : List (Nat × Nat)
  deriving DecidableEq, Repr

namespace CharSet

def empty : CharSet := ⟨[]⟩

def contains (s : CharSet) (c : Char) : Bool :=
  s.ranges.any fun (low, high) => low ≤ c.toNat && c.toNat ≤ high

/-- Merges sorted ranges that overlap or touch. -/
def merge : List (Nat × Nat) → List (Nat × Nat)
  | [] => []
  | (low, high) :: rest =>
    match merge rest with
    | [] => [(low, high)]
    | (low', high') :: rest' =>
      if low' ≤ high + 1 then (low, max high high') :: rest'
      else (low, high) :: (low', high') :: rest'

def ofRanges (rs : List (Nat × Nat)) : CharSet := ⟨merge (rs.mergeSort fun a b => a.1 ≤ b.1)⟩

def singleton (c : Char) : CharSet := ⟨[(c.toNat, c.toNat)]⟩

def ofString (s : String) : CharSet := ofRanges (s.toList.map fun c => (c.toNat, c.toNat))

def union (s t : CharSet) : CharSet := ofRanges (s.ranges ++ t.ranges)

def unionAll (ss : List CharSet) : CharSet := ofRanges (ss.flatMap ranges)

def inter (s t : CharSet) : CharSet :=
  ofRanges <| s.ranges.flatMap fun (a, b) => t.ranges.filterMap fun (c, d) =>
    if max a c ≤ min b d then some (max a c, min b d) else none

/-- The gaps that sorted ranges leave from `low` to `high`. -/
def gaps (low high : Nat) : List (Nat × Nat) → List (Nat × Nat)
  | [] => if low ≤ high then [(low, high)] else []
  | (a, b) :: rest => (if low < a then [(low, a - 1)] else []) ++ gaps (max low (b + 1)) high rest

/-- The code points up to `limit` that are not in the set. -/
def missing (s : CharSet) (limit : Nat) : CharSet :=
  ⟨gaps 0 limit (s.ranges.filter (·.1 ≤ limit))⟩

/-- All characters. Surrogates are none. -/
def all : CharSet := ⟨[(0, 0xD7FF), (0xE000, 0x10FFFF)]⟩

def complement (s : CharSet) : CharSet := (s.missing 0x10FFFF).inter all

def diff (s t : CharSet) : CharSet := s.inter t.complement

def symmDiff (s t : CharSet) : CharSet := (s.union t).diff (s.inter t)

end CharSet

/-! Tables of code points as text, such as `41-5A 100-136/2`: numbers are hexadecimal, and the step
of a range, if it is not one, follows a slash. -/
namespace Table

def hexDigit (c : Char) : Nat :=
  if c.isDigit then c.toNat - '0'.toNat else c.toNat - 'A'.toNat + 10

def hex (cs : List Char) : Nat := cs.foldl (fun n c => 16 * n + hexDigit c) 0

/-- Splits at the first occurrence of a mark. -/
def splitAt (mark : Char) (cs : List Char) : List Char × List Char :=
  (cs.takeWhile (· ≠ mark), (cs.dropWhile (· ≠ mark)).drop 1)

def words (s : String) : List (List Char) :=
  (s.toList.splitBy fun a b => a.isWhitespace = b.isWhitespace).filter
    fun w => !(w.any Char.isWhitespace)

/-- First and last code point and step of an entry. -/
def range (cs : List Char) : Nat × Nat × Nat :=
  let (ends, step) := splitAt '/' cs
  let (first, last) := splitAt '-' ends
  (hex first, hex (if last.isEmpty then first else last), if step.isEmpty then 1 else hex step)

def points : Nat × Nat × Nat → List (Nat × Nat)
  | (first, last, 1) => [(first, last)]
  | (first, last, step) =>
    (List.range ((last - first) / step + 1)).map fun i => (first + step * i, first + step * i)

def charSet (s : String) : CharSet := .ofRanges ((words s).flatMap fun w => points (range w))

end Table
end TripleAlgebra.Text
