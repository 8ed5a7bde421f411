import TripleAlgebra.Plan.Binding
import TripleAlgebra.Plan.Rank

/-! How the operands of a join extend the rows of the operands before them. -/
namespace TripleAlgebra

/-- The variables that stand in a header, with their columns. -/
def Variable.located (header vs : List Variable) : List (Variable × Nat) :=
  vs.filterMap fun v => (column? header v).map (v, ·)

/-- An operand that is evaluated once for each row of the operands before it. The values of `bound`
are substituted into it, those of `shared` may be found by it, and those of `fresh` are appended. -/
structure JoinStep (limit : Nat) where
  operand : Plan
  operand_lt : operand.rank < limit
  bound : List (Variable × Nat)
  shared : List (Variable × Nat)
  fresh : List Variable

namespace JoinStep
variable {limit : Nat}

/-- A condition becomes a filter of the operand that also sees the values of the row. -/
def ofOperand (header : List Variable) (p : Plan) (h : p.rank < limit)
    (condition : Option Expression) : JoinStep limit where
  operand :=
    match condition with
    | none => p
    | some c => .filter p [c]
  operand_lt := by cases condition <;> simpa [Plan.rank] using h
  bound := Variable.located header <|
    match condition with
    | none => p.vars
    | some c => Variable.union [p.vars, c.vars]
  shared := Variable.located header p.vars
  fresh := p.vars.filter fun v => (Variable.column? header v).isNone

def binding (s : JoinStep limit) : Binding := .ofHeader (s.bound.map (·.1))

/-- The steps of several operands, each under the header that those before it produce. -/
def ofOperands (header : List Variable) :
    List { p : Plan // p.rank < limit } → List (JoinStep limit)
  | [] => []
  | p :: ps =>
    let step := ofOperand header p.1 p.2 none
    step :: ofOperands (Variable.union [header, step.fresh]) ps

end JoinStep

/-- Where the columns of an operand go: into unbound columns of the row so far, or behind it. -/
structure Layout where
  fill : List (Nat × Nat)
  append : List (Option Nat)

namespace Layout

/-- The first operand has no row to extend. -/
def ofHead (expected header : List Variable) : Layout := ⟨[], Variable.columns header expected⟩

def ofStep {limit : Nat} (s : JoinStep limit) (outer : Row) (header : List Variable) :
    Layout where
  fill := (s.shared.filter fun (_, i) => (outer.value i).isNone).filterMap
    fun (v, i) => (Variable.column? header v).map (i, ·)
  append := Variable.columns header s.fresh

/-- The row so far, completed and extended by a row of the operand. -/
def combine (l : Layout) (outer row : Row) : Row :=
  l.fill.foldl
      (fun r (i, c) => if (row.value c).isSome then r.set i (row.value c) else r) outer ++
    row.project l.append

end Layout

/-- The steps that follow the first operand. The last one of an optional join leaves its columns
unbound where it has no row. -/
structure JoinPlan (limit : Nat) where
  header : List Variable
  steps : List (JoinStep limit)
  optional : Bool := false
  projection : Option (List Nat) := none

namespace JoinPlan
variable {limit : Nat}

/-- Restores the declared column order. -/
def finish (p : JoinPlan limit) (r : Row) : Row :=
  match p.projection with
  | none => r
  | some columns => r.project (columns.map some)

end JoinPlan
end TripleAlgebra
