import TripleAlgebra.Plan.Basic

/-! How plans are evaluated. -/
namespace TripleAlgebra

/-- Rows are pulled by their consumer or pushed to it. -/
inductive Mode
  | pull | push
  deriving DecidableEq, Repr

/-- The most bytes that can be reserved at once. -/
def reservableBytes : Nat := 0x7FFFFFFFFFFFFFFF

/-- How many rows a window has room for. The memory for them is reserved when it is created. -/
structure WindowSize where
  rows : Nat
  reservable : rows * Row.bytes ≤ reservableBytes
  deriving DecidableEq, Repr

/-- The size of a window for so many rows. No window can be created for more rows than memory can be
reserved for. -/
def WindowSize.ofNat? (n : Nat) : Option WindowSize :=
  if h : n * Row.bytes ≤ reservableBytes then some ⟨n, h⟩ else none

/-- Which earlier rows a row is compared with: all accepted ones, or the latest of them. -/
inductive DuplicateRule
  | all
  | window (size : WindowSize)
  deriving DecidableEq, Repr

/-- How a difference looks at its right side: specialised for each left row, or as one set. -/
inductive MinusRule
  | bind | set
  deriving DecidableEq, Repr

/-- What the order of join operands goes by. -/
inductive ReorderRule
  | disabled | shape | cardinality
  deriving DecidableEq, Repr

structure Config where
  defaultMode : Mode := .pull
  modes : List (NodeKind × Mode) := []
  distinct : DuplicateRule := .all
  weakDistinct : DuplicateRule := .window ⟨1024, by decide⟩
  minus : MinusRule := .set
  reorder : ReorderRule := .shape
  checksHeaders : Bool := true
  deriving Repr

def Mode.name : Mode → String
  | .pull => "Pull"
  | .push => "Push"

def DuplicateRule.name : DuplicateRule → String
  | .all => "Hash"
  | .window size => "Window(" ++ toString size.rows ++ ")"

def MinusRule.name : MinusRule → String
  | .bind => "Bind"
  | .set => "Set"

def ReorderRule.name : ReorderRule → String
  | .disabled => "Disabled"
  | .shape => "Shape"
  | .cardinality => "Cardinality"

namespace Config

/-- The mode of a kind is its own one, if it has one, else the default. -/
def mode (c : Config) (k : NodeKind) : Mode := (c.modes.lookup k).getD c.defaultMode

/-- Later settings of a kind replace earlier ones. -/
def withMode (c : Config) (k : NodeKind) (m : Mode) : Config :=
  { c with modes := (k, m) :: c.modes }

end Config
end TripleAlgebra
