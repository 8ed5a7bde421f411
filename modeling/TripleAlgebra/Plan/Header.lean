import TripleAlgebra.Plan.Basic

/-! The columns of a plan, and those that every one of its rows binds. -/
namespace TripleAlgebra.Plan

mutual

/-- The distinct output variables, in column order. -/
def vars : Plan → List Variable
  | .triple t => t.vars
  | .join ps | .union ps => Variable.union (varsEach ps)
  | .leftJoin l r _ => Variable.union [vars l, vars r]
  | .project _ vs => Variable.union [vs]
  | .values p vs _ => Variable.union [vs, vars p]
  | .assign p v _ => Variable.union [vars p, [v]]
  | .filter p _ | .limit p _ | .offset p _ | .slice p _ _ | .distinct p | .weakDistinct p
  | .semijoin p _ | .antijoin p _ | .minus p _ _ => vars p
  | .ask _ | .identity => []

def varsEach : List Plan → List (List Variable)
  | [] => []
  | p :: ps => vars p :: varsEach ps

end

theorem varsEach_eq (ps : List Plan) : varsEach ps = ps.map vars := by
  induction ps with
  | nil => rfl
  | cons p ps ih => simp [varsEach, ih]

/-- Whether every row of a table binds the first column of the variable. -/
def boundInRows (vs : List Variable) (rows : List Row) (v : Variable) : Bool :=
  match Variable.column? vs v with
  | some i => rows.all fun r => (r.value i).isSome
  | none => false

mutual

/-- The output variables that no row leaves unbound. A failing expression leaves its target
unbound. -/
def certain : Plan → List Variable
  | .triple t => t.vars
  | .join ps => (Variable.union (varsEach ps)).filter fun v => (certainEach ps).any (v ∈ ·)
  | .union ps => (Variable.union (varsEach ps)).filter fun v => (certainEach ps).all (v ∈ ·)
  | .leftJoin l r _ => (Variable.union [vars l, vars r]).filter (· ∈ certain l)
  | .project p vs => (Variable.union [vs]).filter (· ∈ certain p)
  | .values p vs rows =>
    (Variable.union [vs, vars p]).filter fun v => boundInRows vs rows v || v ∈ certain p
  | .assign p v _ => (Variable.union [vars p, [v]]).filter fun w => v ≠ w && w ∈ certain p
  | .filter p _ | .limit p _ | .offset p _ | .slice p _ _ | .distinct p | .weakDistinct p
  | .semijoin p _ | .antijoin p _ | .minus p _ _ => certain p
  | .ask _ | .identity => []

def certainEach : List Plan → List (List Variable)
  | [] => []
  | p :: ps => certain p :: certainEach ps

end

theorem certainEach_eq (ps : List Plan) : certainEach ps = ps.map certain := by
  induction ps with
  | nil => rfl
  | cons p ps ih => simp [certainEach, ih]

/-- Whether the variable is an output variable that some row may leave unbound. -/
def maybeUnbound (p : Plan) (v : Variable) : Bool := v ∈ p.vars && v ∉ p.certain

theorem nodup_vars (p : Plan) : p.vars.Nodup := by
  induction p using inductOperands with
  | triple t => exact t.nodup_vars
  | ask | identity => exact .nil
  | join | union | leftJoin | project | values | assign =>
    simpa only [vars] using Variable.nodup_union _
  | filter _ _ ih | limit _ _ ih | offset _ _ ih | slice _ _ _ ih | distinct _ ih
  | weakDistinct _ ih => simpa only [vars] using ih
  | semijoin _ _ ih | antijoin _ _ ih | minus _ _ _ ih => simpa only [vars] using ih

/-- Certain variables are output variables. -/
theorem certain_subset (p : Plan) : p.certain ⊆ p.vars := by
  induction p using inductOperands with
  | triple t => simp [certain, vars]
  | ask | identity => simp [certain]
  | join | union | leftJoin | project | values | assign =>
    simpa only [certain, vars] using List.filter_sublist.subset
  | filter _ _ ih | limit _ _ ih | offset _ _ ih | slice _ _ _ ih | distinct _ ih
  | weakDistinct _ ih => simpa only [certain, vars] using ih
  | semijoin _ _ ih | antijoin _ _ ih | minus _ _ _ ih => simpa only [certain, vars] using ih

end TripleAlgebra.Plan
