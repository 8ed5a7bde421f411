import TripleAlgebra.Regex.Basic

/-! How much memory an automaton takes that reads the bytes of a text. -/
namespace TripleAlgebra
open Text

/-- Ranges that the bytes of a character lie in, one after the other. -/
abbrev ByteRanges := List (Nat × Nat)

namespace ByteRanges

/-- The encodings of the numbers from `low` to `high`: a byte from `lead` on for the highest part,
and `tail` bytes of six bits each for the rest. -/
def cover (lead : Nat) : Nat → Nat → Nat → List ByteRanges
  | 0, low, high => [[(lead + low, lead + high)]]
  | tail + 1, low, high =>
    let block := Nat.pow 64 (tail + 1)
    let bottom := low / block
    let top := high / block
    let under (a b : Nat) (rest : List ByteRanges) : List ByteRanges :=
      rest.map ((lead + a, lead + b) :: ·)
    if bottom = top then under bottom top (cover 128 tail (low % block) (high % block))
    else
      let whole := low % block = 0
      let wholeEnd := high % block = block - 1
      let first := if whole then bottom else bottom + 1
      let last := if wholeEnd then top else top - 1
      (if whole then [] else under bottom bottom (cover 128 tail (low % block) (block - 1))) ++
        (if first ≤ last then under first last (cover 128 tail 0 (block - 1)) else []) ++
        (if wholeEnd then [] else under top top (cover 128 tail 0 (high % block)))

/-- The code points of each encoded length, with the lead byte and the number of further bytes. -/
def lengths : List (Nat × Nat × Nat × Nat) :=
  [(0, 0x7F, 0, 0), (0x80, 0x7FF, 0xC0, 1), (0x800, 0xFFFF, 0xE0, 2), (0x10000, 0x10FFFF, 0xF0, 3)]

def ofCharSet (s : CharSet) : List ByteRanges :=
  s.ranges.flatMap fun (low, high) => lengths.flatMap fun (a, b, lead, tail) =>
    if max low a ≤ min high b then cover lead tail (max low a) (min high b) else []

def common : ByteRanges → ByteRanges → Nat
  | a :: as, b :: bs => if a = b then common as bs + 1 else 0
  | _, _ => 0

/-- The number of edges when encodings share what they have in common with the one before. -/
def edges (before : ByteRanges) : List ByteRanges → Nat
  | [] => 0
  | r :: rs => r.length - common before r + edges r rs

end ByteRanges

/-- The direction in which an automaton reads. Only a forward one records groups. -/
inductive Direction
  | forward | backward
  deriving DecidableEq, Repr

namespace Direction

/-- The memory of a set of characters: a state has 32 bytes, one of its transitions 8, and an
alternative 4. -/
def charsSize (d : Direction) (s : CharSet) : Nat :=
  let sequences := ByteRanges.ofCharSet s
  let edges := ByteRanges.edges [] sequences
  match s.ranges with
  | [(low, high)] =>
    if low = high then 32 * edges
    else if high < 128 then 72
    else several sequences.length edges
  | ranges =>
    if ranges.all (·.2 < 128) then 64 + 8 * ranges.length
    else several sequences.length edges
where
  several (sequences edges : Nat) : Nat :=
    match d with
    | .forward => 32 * (edges + 2 - sequences) + 8 * edges
    | .backward => 32 * (edges + 2) + 4 * sequences

end Direction

namespace Regex

/-- Whether the empty text matches somewhere. -/
def isNullable : Regex → Bool
  | .empty | .look _ => true
  | .chars _ => false
  | .seq r s => r.isNullable && s.isNullable
  | .alt r s => r.isNullable || s.isNullable
  | .group r => r.isNullable
  | .times r least _ => least = 0 || r.isNullable

/-- The memory of an expression. `among` says that it is an alternative of a larger one. -/
def size (d : Direction) (among : Bool) : Regex → Nat
  | .empty | .look _ => 32
  | .chars s => d.charsSize s
  | .seq r s => r.size d false + s.size d false
  | .alt r s =>
    let side (r : Regex) (n : Nat) : Nat :=
      match r with
      | .alt .. => n
      | _ => n + 4
    (if among then 0 else 64) + side r (r.size d true) + side s (s.size d true)
  | .group r => r.size d false + if d = .forward then 64 else 0
  | .times r least most =>
    let one := r.size d false
    match least, most with
    | 0, none => if r.isNullable then one + 112 else one + 40
    | least, none => least * one + 40
    | 0, some 1 => one + 72
    | least, some most =>
      if least = most then (if least = 0 then 32 else least * one)
      else max 32 (least * one) + 32 + (most - least) * (one + 40)

/-- The memory that reading a text in both directions takes, the larger of the two. -/
def totalSize (r : Regex) : Nat :=
  max (r.size .forward false + 208) (r.size .backward false + 144)

end Regex
end TripleAlgebra
