/-! Sorted sets of encoded triples in three component orders. -/
namespace TripleAlgebra.Store

/-- The number of a term in a store. -/
abbrev Id := Nat

/-- The largest number a term can have. -/
def maxId : Id := 0xFFFFFFFF

/-- Three components of a triple in some order. -/
abbrev Three (α : Type) := α × α × α

/-- The component orders: by subject, by predicate and by object first. -/
inductive IndexOrder
  | spo | pos | osp
  deriving DecidableEq, Repr

namespace IndexOrder
variable {α : Type}

/-- From subject, predicate, object order into that of an index. -/
def reorder : IndexOrder → Three α → Three α
  | .spo, (s, p, o) => (s, p, o)
  | .pos, (s, p, o) => (p, o, s)
  | .osp, (s, p, o) => (o, s, p)

def restore : IndexOrder → Three α → Three α
  | .spo, (s, p, o) => (s, p, o)
  | .pos, (p, o, s) => (s, p, o)
  | .osp, (o, s, p) => (s, p, o)

@[simp] theorem restore_reorder (c : IndexOrder) (t : Three α) : c.restore (c.reorder t) = t := by
  cases c <;> rfl

@[simp] theorem reorder_restore (c : IndexOrder) (t : Three α) : c.reorder (c.restore t) = t := by
  cases c <;> rfl

end IndexOrder

/-- Keys are compared component by component. -/
def keyLt (a b : Three Id) : Bool :=
  a.1 < b.1 || (a.1 = b.1 && (a.2.1 < b.2.1 || (a.2.1 = b.2.1 && a.2.2 < b.2.2)))

/-- Keys in strictly increasing order. -/
structure Index where
  order : IndexOrder
  keys : List (Three Id)
  deriving Repr

namespace Index

def empty (order : IndexOrder) : Index := ⟨order, []⟩

/-- Puts a key into its place. The flag says that it was not there. -/
def insertKey (k : Three Id) : List (Three Id) → Bool × List (Three Id)
  | [] => (true, [k])
  | a :: as =>
    if keyLt k a then (true, k :: a :: as)
    else if k = a then (false, a :: as)
    else
      let (fresh, as) := insertKey k as
      (fresh, a :: as)

def insert (i : Index) (t : Three Id) : Bool × Index :=
  let (fresh, keys) := insertKey (i.order.reorder t) i.keys
  (fresh, { i with keys })

def size (i : Index) : Nat := i.keys.length

/-- How many leading components of a key the pattern fixes. -/
def score (i : Index) (p : Three (Option Id)) : Nat :=
  match i.order.reorder p with
  | (none, _, _) => 0
  | (some _, none, _) => 1
  | (some _, some _, none) => 2
  | (some _, some _, some _) => 3

/-- The least and the greatest key that begin with the leading fixed components. -/
def bounds (key : Three (Option Id)) : Three Id × Three Id :=
  match key with
  | (none, _, _) => ((0, 0, 0), (maxId, maxId, maxId))
  | (some a, none, _) => ((a, 0, 0), (a, maxId, maxId))
  | (some a, some b, none) => ((a, b, 0), (a, b, maxId))
  | (some a, some b, some c) => ((a, b, c), (a, b, c))

/-- The keys between two bounds, the bounds included. -/
def range (lower upper : Three Id) (keys : List (Three Id)) : List (Three Id) :=
  (keys.dropWhile (keyLt · lower)).takeWhile fun k => !keyLt upper k

/-- Whether a triple agrees with each fixed component. -/
def fits (p : Three (Option Id)) (t : Three Id) : Bool :=
  p.1.all (· = t.1) && p.2.1.all (· = t.2.1) && p.2.2.all (· = t.2.2)

/-- The triples that agree with a pattern, in the order of the index. -/
def scan (i : Index) (p : Three (Option Id)) : List (Three Id) :=
  let (lower, upper) := bounds (i.order.reorder p)
  ((range lower upper i.keys).map i.order.restore).filter (fits p)

end Index
end TripleAlgebra.Store
