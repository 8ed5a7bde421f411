import TripleAlgebra.Expression.Eval

/-! Expressions that are ready for the rows of one header: the columns of the variables are known,
and regular expressions whose pattern and flags are constants are compiled. -/
namespace TripleAlgebra

/-- Regular expressions with the patterns and flags that they were compiled from. -/
structure PatternCache where
  entries : List ((String × String) × Regex)
  compiled : ∀ e ∈ entries, Regex.compile? e.1.1 e.1.2 = some e.2

namespace PatternCache

def empty : PatternCache := ⟨[], List.forall_mem_nil _⟩

/-- Adds a pattern if it is valid. -/
def add (c : PatternCache) (pattern flags : String) : PatternCache :=
  match h : Regex.compile? pattern flags with
  | some r => ⟨((pattern, flags), r) :: c.entries, List.forall_mem_cons.mpr ⟨h, c.compiled⟩⟩
  | none => c

def find? (c : PatternCache) (pattern flags : String) : Option Regex :=
  c.entries.lookup (pattern, flags)

/-- Compiles only the patterns that are not there. -/
def search? (c : PatternCache) : Regex.Search := fun pattern flags text =>
  match c.find? pattern flags with
  | some r => some (r.occursIn text)
  | none => Regex.search? pattern flags text

end PatternCache

namespace Expression

/-- The text of a constant. An argument that is missing counts as the empty text. -/
def constantText? : Option Expression → Option String
  | none => some ""
  | some (.const t) => (Function.plainText t).toOption
  | some _ => none

/-- Adds the pattern of a call that searches, if the pattern and its flags are constants. -/
def addPattern (f : Function) (es : List Expression) (c : PatternCache) : PatternCache :=
  match f, constantText? es[1]?, constantText? es[2]? with
  | .regex, some pattern, some flags => c.add pattern flags
  | _, _, _ => c

mutual

/-- Adds the constant patterns at any depth. -/
def addPatterns : Expression → PatternCache → PatternCache
  | .var _, c | .const _, c | .bound _, c => c
  | .unary _ e, c => addPatterns e c
  | .binary _ l r, c => addPatterns r (addPatterns l c)
  | .member e es, c => addPatternsEach es (addPatterns e c)
  | .conditional i t e, c => addPatterns e (addPatterns t (addPatterns i c))
  | .coalesce es, c => addPatternsEach es c
  | .call f es, c => addPatternsEach es (addPattern f es c)

def addPatternsEach : List Expression → PatternCache → PatternCache
  | [], c => c
  | e :: es, c => addPatternsEach es (addPatterns e c)

end

end Expression

/-- The last entry of a variable is its column. -/
structure PreparedExpression where
  expression : Expression
  columns : List (Variable × Nat)
  patterns : PatternCache

namespace PreparedExpression

def ofHeader (e : Expression) (header : List Variable) : PreparedExpression :=
  ⟨e, header.zipIdx, e.addPatterns .empty⟩

variable (p : PreparedExpression) (r : Row)

def column? (v : Variable) : Option Nat := p.columns.reverse.lookup v

def assignment : Assignment := fun v => (p.column? v).bind r.value

def evaluate : Partial Term := p.expression.evalWith p.patterns.search? (p.assignment r)

/-- Whether the effective boolean value is known to be true. -/
def isTrue : Bool :=
  match Expression.termTruth (p.evaluate r) with
  | .ok b => b
  | .error _ => false

end PreparedExpression
end TripleAlgebra
