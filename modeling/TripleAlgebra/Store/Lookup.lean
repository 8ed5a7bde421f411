import TripleAlgebra.Store.Memory

/-! What evaluation asks of a store. -/
namespace TripleAlgebra

/-- A store answers patterns, or fails to, and estimates the sizes of its answers. -/
structure TripleStore where
  lookup : Pattern → Except StorageProblem Solutions
  estimate : Pattern → Nat

namespace TripleStore

def ofMemory (m : Store.Memory) : TripleStore := ⟨m.query, m.estimate⟩

/-- A failure of all patterns with a predicate: of the lookup, or in place of a row. -/
structure Outage where
  predicate : Term
  position : Option Nat
  text : String

namespace Outage

def problem (f : Outage) : StorageProblem := .other f.text

def concerns (f : Outage) (p : Pattern) : Bool := p.predicate = .term f.predicate

/-- The error comes before the row at its position, or at the end. -/
def insertInto (f : Outage) (n : Nat) (rows : List Item) : List Item :=
  rows.take n ++ .error (.storage f.problem) :: rows.drop n

theorem mem_insertInto {f : Outage} {n : Nat} {items : List Item} {r : Row}
    (h : .ok r ∈ f.insertInto n items) : .ok r ∈ items := by
  rcases List.mem_append.mp h with h | h
  · exact List.mem_of_mem_take h
  · rcases List.mem_cons.mp h with h | h
    · cases h
    · exact List.mem_of_mem_drop h

end Outage

/-- A store whose answers are produced one by one, each time anew, and may fail. -/
def stepwise (m : Store.Memory) (outage : Option Outage) : TripleStore where
  lookup p :=
    match m.rows p with
    | .error e => .error e
    | .ok rows =>
      let items : List Item := rows.map .ok
      match outage.filter (·.concerns p) with
      | none => .ok (.ofItems p.vars .generator items)
      | some f =>
        match f.position with
        | none => .error f.problem
        | some n => .ok (.ofItems p.vars .generator (f.insertInto n items))
  estimate := m.estimate

/-- An answer has rows of the memory, maybe with an error between them. -/
theorem exists_items_of_lookup {m : Store.Memory} {outage : Option Outage} {p : Pattern}
    {s : Solutions} (h : (stepwise m outage).lookup p = .ok s) :
    ∃ rows items, m.rows p = .ok rows ∧ s = .ofItems p.vars .generator items ∧
      ∀ r, .ok r ∈ items → r ∈ rows := by
  simp only [stepwise] at h
  split at h
  · cases h
  · rename_i rows hrows
    have hall (r : Row) (hr : .ok r ∈ (rows.map .ok : List Item)) : r ∈ rows := by simpa using hr
    split at h
    · cases h
      exact ⟨rows, _, hrows, rfl, hall⟩
    · split at h
      · cases h
      · cases h
        exact ⟨rows, _, hrows, rfl, fun r hr => hall r (Outage.mem_insertInto hr)⟩

end TripleStore
end TripleAlgebra
