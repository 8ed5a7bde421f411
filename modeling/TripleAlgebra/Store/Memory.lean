import TripleAlgebra.Solutions.Basic
import TripleAlgebra.Store.Dictionary

/-! A store of triples that answers patterns from three sorted indexes. -/
namespace TripleAlgebra.Store

structure Memory where
  ids : Dictionary := {}
  spo : Index := .empty .spo
  pos : Index := .empty .pos
  osp : Index := .empty .osp

namespace Memory

/-- Adds a triple. The flag says that it is new. -/
def insert (m : Memory) (t : Triple) : Except StorageProblem Bool × Memory :=
  match m.ids.encode t with
  | (.error e, ids) => (.error e, { m with ids })
  | (.ok k, ids) =>
    let (_, spo) := m.spo.insert k
    let (_, pos) := m.pos.insert k
    let (fresh, osp) := m.osp.insert k
    (.ok fresh, { ids, spo, pos, osp })

/-- Adds triples one after the other and counts the new ones. A triple that cannot be added ends
this, and those before it stay. -/
def extend (m : Memory) : List Triple → Except StorageProblem Nat × Memory
  | [] => (.ok 0, m)
  | t :: ts =>
    match m.insert t with
    | (.error e, m) => (.error e, m)
    | (.ok fresh, m) =>
      let (count, m) := extend m ts
      (count.map (· + fresh.toNat), m)

def ofTriples (ts : List Triple) : Memory := (extend {} ts).2

def size (m : Memory) : Nat := m.spo.size

/-- The index with the longest fixed prefix; of equally good ones the first. -/
def choose (m : Memory) (p : Three (Option Id)) : Index :=
  let better (a b : Index) : Index := if a.score p < b.score p then b else a
  better (better m.spo m.pos) m.osp

/-- The number that a slot fixes. There is none if it demands an unknown term. -/
def encodeSlot (m : Memory) : Slot → Option (Option Id)
  | .var _ => some none
  | .term t => (m.ids.id? t).map some

def encode (m : Memory) (p : Pattern) : Option (Three (Option Id)) := do
  let s ← m.encodeSlot p.subject
  let q ← m.encodeSlot p.predicate
  let o ← m.encodeSlot p.object
  return (s, q, o)

/-- The component at the first position of a variable. -/
def component (p : Pattern) (t : Three Id) (v : Variable) : Id :=
  if p.subject = .var v then t.1 else if p.predicate = .var v then t.2.1 else t.2.2

/-- Whether the positions of each variable hold the same component. -/
def isConsistent (p : Pattern) (t : Three Id) : Bool :=
  let agrees (s : Slot) (n : Id) : Bool :=
    match s with
    | .var v => component p t v = n
    | .term _ => true
  agrees p.subject t.1 && agrees p.predicate t.2.1 && agrees p.object t.2.2

/-- The triples that match a pattern. -/
def found (m : Memory) (p : Pattern) : List (Three Id) :=
  match m.encode p with
  | none => []
  | some e => ((m.choose e).scan e).filter (isConsistent p)

/-- The terms of a triple under the variables of a pattern. -/
def row (m : Memory) (p : Pattern) (t : Three Id) : Except StorageProblem Row :=
  p.vars.mapM fun v => (m.ids.decode (component p t v)).map some

/-- The rows of a pattern under its variables. -/
def rows (m : Memory) (p : Pattern) : Except StorageProblem (List Row) := (m.found p).mapM (m.row p)

def query (m : Memory) (p : Pattern) : Except StorageProblem Solutions :=
  (m.rows p).map (.ofRows p.vars)

theorem exists_rows_of_query {m : Memory} {p : Pattern} {s : Solutions} (h : m.query p = .ok s) :
    ∃ rows, m.rows p = .ok rows ∧ s = .ofRows p.vars rows := by
  unfold query at h
  cases hrows : m.rows p with
  | error e => simp [hrows, Except.map] at h
  | ok rows => exact ⟨rows, rfl, by simpa [hrows, Except.map] using h.symm⟩

/-- The exact number of rows of a pattern. -/
def estimate (m : Memory) (p : Pattern) : Nat := (m.found p).length

end Memory
end TripleAlgebra.Store
