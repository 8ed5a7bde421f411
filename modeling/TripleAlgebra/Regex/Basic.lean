import TripleAlgebra.Text.CharSet

/-! Regular expressions and the positions at which their matches end. -/
namespace TripleAlgebra
open Text

/-- What is asked of the characters beside a position: that one of them is a word character and the
other is not, that both or none are, that a word starts or stops there, that none stops there, that
none starts there. -/
inductive Boundary
  | edge | noEdge | start | stop | noneBefore | noneAfter
  deriving DecidableEq, Repr

/-- A condition on a position. With `crlf`, both characters of a line break end a line, and there is
no line between them. -/
inductive Look
  | textStart
  | textEnd
  | lineStart (crlf : Bool)
  | lineEnd (crlf : Bool)
  | boundary (kind : Boundary) (word : CharSet)
  deriving DecidableEq, Repr

namespace Look

/-- Whether the condition holds between two characters, if there are any. -/
def holds (before after : Option Char) : Look → Bool
  | .textStart => before.isNone
  | .textEnd => after.isNone
  | .lineStart crlf =>
    before.isNone || before = some '\n' || (crlf && before = some '\r' && after ≠ some '\n')
  | .lineEnd crlf =>
    after.isNone || (crlf && after = some '\r') ||
      (after = some '\n' && !(crlf && before = some '\r'))
  | .boundary kind word =>
    let left := before.any word.contains
    let right := after.any word.contains
    match kind with
    | .edge => left != right
    | .noEdge => left == right
    | .start => !left && right
    | .stop => left && !right
    | .noneBefore => !left
    | .noneAfter => !right

end Look

/-- A group has no meaning of its own. -/
inductive Regex
  | empty
  | chars (s : CharSet)
  | look (l : Look)
  | seq (r s : Regex)
  | alt (r s : Regex)
  | group (r : Regex)
  | times (r : Regex) (least : Nat) (most : Option Nat)
  deriving DecidableEq, Repr, Inhabited

/-- A set of positions of a text as a binary number. -/
abbrev Positions := Nat

namespace Positions

/-- The positions between whose neighbours a test holds. -/
def between (test : Option Char → Option Char → Bool) (before : Option Char) :
    List Char → Positions
  | [] => (test before none).toNat
  | c :: cs => (test before (some c)).toNat + 2 * between test (some c) cs

def all (text : List Char) : Positions := between (fun _ _ => true) none text

/-- Takes a number of steps. -/
def iterate (step : Positions → Positions) : Nat → Positions → Positions
  | 0, s => s
  | n + 1, s => if s = 0 then 0 else iterate step n (step s)

/-- The positions that are reached in at most `n` steps. -/
def reach (step : Positions → Positions) : Nat → Positions → Positions
  | 0, s => s
  | n + 1, s =>
    let t := s ||| step s
    if t = s then s else reach step n t

end Positions

namespace Regex

/-- Whether all matches are empty. -/
def isEmptyWidth : Regex → Bool
  | .empty | .look _ => true
  | .chars _ => false
  | .seq r s | .alt r s => r.isEmptyWidth && s.isEmptyWidth
  | .group r => r.isEmptyWidth
  | .times r _ most => most = some 0 || r.isEmptyWidth

/-- Where the matches end that start at the given positions. A loop gains a position with each
round, so that it needs no more rounds than there are positions. -/
def ends (text : List Char) : Regex → Positions → Positions
  | .empty, s => s
  | .chars set, s => (s &&& Positions.between (fun _ c => c.any set.contains) none text) <<< 1
  | .look l, s => s &&& Positions.between l.holds none text
  | .seq r t, s => ends text t (ends text r s)
  | .alt r t, s => ends text r s ||| ends text t s
  | .group r, s => ends text r s
  | .times r least most, s =>
    Positions.reach (ends text r) (most.elim (text.length + 1) (· - least))
      (Positions.iterate (ends text r) least s)

/-- Whether some part of a text matches. -/
def occursIn (r : Regex) (text : String) : Bool :=
  ends text.toList r (Positions.all text.toList) ≠ 0

end Regex
end TripleAlgebra
