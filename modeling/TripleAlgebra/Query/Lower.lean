import TripleAlgebra.Plan.Build
import TripleAlgebra.Query.GraphPattern

/-! Plans of queries, and why a query has none. -/
namespace TripleAlgebra

inductive UnsupportedPattern
  | path | graph | orderBy | group | service
  deriving DecidableEq, Repr

inductive UnsupportedExpression
  | nestedExists
  | function (name : String)
  | arity (f : Function) (count : Nat)
  deriving DecidableEq, Repr

inductive LoweringProblem
  | form (form : QueryForm)
  | dataset
  | pattern (p : UnsupportedPattern)
  | expression (e : UnsupportedExpression)
  deriving DecidableEq, Repr

def QueryForm.name : QueryForm → String
  | .select => "SELECT"
  | .ask => "ASK"
  | .construct => "CONSTRUCT"
  | .describe => "DESCRIBE"

def UnsupportedPattern.name : UnsupportedPattern → String
  | .path => "property paths"
  | .graph => "GRAPH"
  | .orderBy => "ORDER BY"
  | .group => "GROUP BY"
  | .service => "SERVICE"

/-- The functions that queries call by a keyword. All others are called by an IRI. -/
def functionKeywords : List String :=
  Function.all.map (·.name) ++
    ["LANGMATCHES", "IRI", "BNODE", "RAND", "ABS", "CEIL", "FLOOR", "ROUND", "CONCAT", "SUBSTR",
      "REPLACE", "ENCODE_FOR_URI", "STRBEFORE", "STRAFTER", "YEAR", "MONTH", "DAY", "HOURS",
      "MINUTES", "SECONDS", "TIMEZONE", "TZ", "NOW", "UUID", "STRUUID", "MD5", "SHA1", "SHA256",
      "SHA384", "SHA512", "STRLANG", "STRDT"]

def UnsupportedExpression.reason : UnsupportedExpression → String
  | .nestedExists => "EXISTS is only supported as a top-level filter condition"
  | .function name =>
    "function " ++ if name ∈ functionKeywords then name else "<" ++ name ++ ">"
  | .arity f count =>
    f.name ++ " expects between " ++ toString f.arity.1 ++ " and " ++ toString f.arity.2 ++
      " arguments, got " ++ toString count

def LoweringProblem.message : LoweringProblem → String
  | .form f => "Unsupported query form: " ++ f.name
  | .dataset => "Queries with a custom dataset are not supported"
  | .pattern p => "Unsupported graph pattern: " ++ p.name
  | .expression e => "Unsupported expression: " ++ e.reason

/-- Lowering keeps the labels of the blank nodes met so far. -/
abbrev Lowering := StateT (List String) (Except LoweringProblem)

namespace Lowering

/-- The variable that stands for the `n`-th blank node of a query. -/
def blankVariable (n : Nat) : Variable := ⟨"_bnode_" ++ toString n⟩

/-- Each label has one variable in the whole query. -/
def variableFor (label : String) : Lowering Variable := fun labels =>
  match labels.idxOf? label with
  | some n => .ok (blankVariable n, labels)
  | none => .ok (blankVariable labels.length, labels ++ [label])

def slot : Slot → Lowering Slot
  | .term (.blank label) => do return .var (← variableFor label)
  | s => return s

def pattern (p : Pattern) : Lowering Pattern := do
  let subject ← slot p.subject
  let object ← slot p.object
  return ⟨subject, p.predicate, object⟩

def patterns : List Pattern → Lowering (List Pattern)
  | [] => return []
  | p :: ps => do
    let p ← pattern p
    let ps ← patterns ps
    return p :: ps

/-- A supported function with an admissible number of arguments. -/
def function (name : String) (count : Nat) : Lowering Function :=
  match Function.ofName? name with
  | none => throw (.expression (.function name))
  | some f => if f.accepts count then return f else throw (.expression (.arity f count))

end Lowering

/-- One part of a conjunction: a condition on a row, or the demand that a plan has a solution or
has none. -/
inductive Conjunct
  | holds (e : Expression)
  | hasSolution (p : Plan)
  | hasNone (p : Plan)

namespace Conjunct

def filterBy (p : Plan) : Conjunct → Plan
  | .holds e => p.filterBy e
  | _ => p

def correlate (p : Plan) : Conjunct → Plan
  | .holds _ => p
  | .hasSolution q => .semijoin p q
  | .hasNone q => .antijoin p q

/-- Conditions on the row come first. -/
def restrict (p : Plan) (cs : List Conjunct) : Plan := cs.foldl correlate (cs.foldl filterBy p)

end Conjunct

/-- A condition lowers to one expression, or to the parts between its outermost conjunctions. Only
the parts may ask for patterns. -/
structure Readings where
  expression : Lowering Expression
  conjuncts : Lowering (List Conjunct)

/-- The readings of a condition that is its own only part. -/
def Readings.atom (e : Lowering Expression) : Readings where
  expression := e
  conjuncts := do return [.holds (← e)]

/-- The readings of a condition that is a part but no expression. -/
def Readings.pattern (c : Lowering Conjunct) : Readings where
  expression := throw (.expression .nestedExists)
  conjuncts := do return [← c]

mutual

def GraphPattern.lower : GraphPattern → Lowering Plan
  | .triples ts => do return Plan.ofPatterns (← Lowering.patterns ts)
  | .path .. => throw (.pattern .path)
  | .join l r => do
    let l ← l.lower
    let r ← r.lower
    return l.joinWith r
  | .optional l r => do
    let l ← l.lower
    let r ← r.lower
    return .leftJoin l r none
  | .optionalIf l r c => do
    let l ← l.lower
    let r ← r.lower
    let c ← c.readings.expression
    return .leftJoin l r (some c)
  | .filter c p => do
    let p ← p.lower
    let cs ← c.readings.conjuncts
    return Conjunct.restrict p cs
  | .union l r => do
    let l ← l.lower
    let r ← r.lower
    return l.unionWith r
  | .graph _ => throw (.pattern .graph)
  | .extend p v e => do
    let p ← p.lower
    let e ← e.readings.expression
    return .assign p v e
  | .minus l r => do
    let l ← l.lower
    let r ← r.lower
    return l.minusOf r
  | .values vs rows => return Plan.ofTable vs rows
  | .orderBy .. => throw (.pattern .orderBy)
  | .project p vs => do return .project (← p.lower) vs
  | .distinct p => do return .distinct (← p.lower)
  | .reduced p => do return .weakDistinct (← p.lower)
  | .slice p start count => do return (← p.lower).sliceTo start count
  | .group .. => throw (.pattern .group)
  | .service _ => throw (.pattern .service)

def Condition.readings : Condition → Readings
  | .var v => .atom (return .var v)
  | .const t => .atom (return .const t)
  | .bound v => .atom (return .bound v)
  | .unary .not (.exists p) =>
    .pattern do return .hasNone (← p.lower)
  | .unary op e => .atom do return .unary op (← e.readings.expression)
  | .binary op l r =>
    let e : Lowering Expression := do
      let l ← l.readings.expression
      let r ← r.readings.expression
      return .binary op l r
    match op with
    | .and =>
      { expression := e
        conjuncts := do
          let l ← l.readings.conjuncts
          let r ← r.readings.conjuncts
          return l ++ r }
    | _ => .atom e
  | .member e es => .atom do
    let e ← e.readings.expression
    let es ← Condition.expressions es
    return .member e es
  | .conditional c t e => .atom do
    let c ← c.readings.expression
    let t ← t.readings.expression
    let e ← e.readings.expression
    return .conditional c t e
  | .coalesce es => .atom do return .coalesce (← Condition.expressions es)
  | .call name es => .atom do
    let f ← Lowering.function name es.length
    return .call f (← Condition.expressions es)
  | .exists p => .pattern do return .hasSolution (← p.lower)

def Condition.expressions : List Condition → Lowering (List Expression)
  | [] => return []
  | e :: es => do
    let e ← e.readings.expression
    let es ← Condition.expressions es
    return e :: es

end

/-- The plan of a pattern on its own. -/
def GraphPattern.plan (p : GraphPattern) : Except LoweringProblem Plan :=
  (p.lower.run []).map (·.1)

/-- The plan of a query. Only selections and tests on the default dataset have one. -/
def Query.plan (q : Query) : Except LoweringProblem Plan :=
  match q.form with
  | .select => if q.hasDataset then throw .dataset else q.pattern.plan
  | .ask => if q.hasDataset then throw .dataset else q.pattern.plan.map .ask
  | f => throw (.form f)

end TripleAlgebra
