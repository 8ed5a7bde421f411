import TripleAlgebra.Problem

/-! What happens while solutions are produced, in the order in which it happens. -/
namespace TripleAlgebra

/-- A row or an error in its place. -/
abbrev Item := Except Problem Row

/-- What the evaluation does to a store: it looks up a pattern, or takes an item of an answer. -/
inductive Effect
  | lookup (p : Pattern)
  | take (i : Item)
  deriving Repr

/-- The items that are taken, in their order. -/
def Effect.taken : List Effect → List Item :=
  List.filterMap fun
    | .lookup _ => none
    | .take i => some i

/-- Effects that happen whenever the solutions are consumed, or only the first time. -/
inductive Act
  | always (e : Effect)
  | once (es : List Effect)
  deriving Repr

inductive Event
  | act (a : Act)
  | item (i : Item)

namespace Act

def effects : Act → List Effect
  | .always e => [e]
  | .once es => es

/-- What remains of an act that has happened. -/
def spent : List Act → List Act :=
  List.filter fun
    | .always _ => true
    | .once _ => false

end Act

namespace Event

def ofEffects (es : List Effect) : List Event := es.map fun e => .act (.always e)

def ofRows (rows : List Row) : List Event := rows.map fun r => .item (.ok r)

def item? : Event → Option Item
  | .act _ => none
  | .item i => some i

def act? : Event → Option Act
  | .act a => some a
  | .item _ => none

/-- The items in the order in which they are delivered. -/
def items (es : List Event) : List Item := es.filterMap item?

def acts (es : List Event) : List Act := es.filterMap act?

def effects (es : List Event) : List Effect := (acts es).flatMap Act.effects

/-- What remains of events that have happened. -/
def spent : List Event → List Event :=
  List.filter fun
    | .act (.once _) => false
    | _ => true

/-- What happens before the next item, and then the rest from that item on. -/
def beforeItem : List Event → List Event × List Event
  | .act a :: es =>
    let (before, rest) := beforeItem es
    (.act a :: before, rest)
  | es => ([], es)

/-- What a demand for `n` items makes happen. Nothing follows the last item demanded. -/
def demand : Nat → List Event → List Event × List Event
  | 0, es => ([], es)
  | _ + 1, [] => ([], [])
  | n + 1, .act a :: es =>
    let (done, rest) := demand (n + 1) es
    (.act a :: done, rest)
  | n + 1, .item i :: es =>
    let (done, rest) := demand n es
    (.item i :: done, rest)

/-- What happens up to and including the first error. -/
def untilError : List Event → List Event × List Event
  | [] => ([], [])
  | .item (.error e) :: es => ([.item (.error e)], es)
  | e :: es =>
    let (done, rest) := untilError es
    (e :: done, rest)

/-- All rows, or the first error. -/
def collect : List Item → Except Problem (List Row)
  | [] => .ok []
  | .error e :: _ => .error e
  | .ok r :: is => (collect is).map (r :: ·)

/-- Changes each row. -/
def mapRows (f : Row → Row) : List Event → List Event :=
  List.map fun
    | .item (.ok r) => .item (.ok (f r))
    | e => e

/-- Keeps the rows that pass the test. Errors always pass. -/
def filterRows (keep : Row → Bool) : List Event → List Event :=
  List.filter fun
    | .item (.ok r) => keep r
    | _ => true

/-- Ends after the first error. Whoever asks for more makes one more item happen in vain. -/
def fuse : List Event → List Event
  | [] => []
  | .item (.error e) :: es => .item (.error e) :: (beforeItem es).1
  | e :: es => e :: fuse es

/-- Replaces each row by the events that it gives rise to. -/
def expand (f : Row → List Event) : List Event → List Event :=
  List.flatMap fun
    | .item (.ok r) => f r
    | e => [e]

theorem demand_append (n : Nat) (es : List Event) :
    (demand n es).1 ++ (demand n es).2 = es := by
  fun_induction demand n es <;> simp_all

theorem untilError_append (es : List Event) : (untilError es).1 ++ (untilError es).2 = es := by
  fun_induction untilError es <;> simp_all

@[simp] theorem items_append (es fs : List Event) : items (es ++ fs) = items es ++ items fs := by
  simp [items]

@[simp] theorem items_spent (es : List Event) : items (spent es) = items es := by
  induction es with
  | nil => rfl
  | cons e es ih =>
    rcases e with (_ | _) | _ <;> simp_all [items, spent, item?, List.filterMap_cons]

@[simp] theorem items_ofEffects (es : List Effect) : items (ofEffects es) = [] := by
  simp [items, ofEffects, item?]

@[simp] theorem items_ofRows (rows : List Row) : items (ofRows rows) = rows.map .ok := by
  simp [items, ofRows, item?, List.filterMap_map, Function.comp_def]

end Event

/-- One consumption of solutions: what happens when it begins, and then what each demand brings. -/
structure Run where
  opening : List Act
  events : List Event

namespace Run

def empty : Run := ⟨[], []⟩

def ofRows (rows : List Row) : Run := ⟨[], Event.ofRows rows⟩

/-- The same run with its beginning counted as its first events. -/
def started (r : Run) : List Event := r.opening.map .act ++ r.events

end Run
end TripleAlgebra
