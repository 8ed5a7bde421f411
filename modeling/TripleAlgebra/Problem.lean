import TripleAlgebra.Config

/-! Why storing or evaluating fails. -/
namespace TripleAlgebra

/-- The kind of an input or output fault. -/
inductive IoKind
  | notFound | invalidData | other
  deriving DecidableEq, Repr

inductive StorageProblem
  | io (kind : IoKind) (text : String)
  | corruption (text : String)
  | other (text : String)
  deriving DecidableEq, Repr

/-- An evaluator is missing for a kind of node in the mode it is configured for. -/
structure MissingEvaluator where
  kind : NodeKind
  mode : Mode
  deriving DecidableEq, Repr

/-- A broken promise of the engine itself. -/
inductive Fault
  | text (s : String)
  | unexpectedNode (kind : NodeKind)
  | noEvaluator (m : MissingEvaluator)
  | invalidConfiguration (m : MissingEvaluator)
  | wrongHeader (kind : NodeKind) (actual expected : List Variable)
  | noRuntime
  deriving DecidableEq, Repr

inductive Problem
  | storage (p : StorageProblem)
  | internal (f : Fault)
  deriving DecidableEq, Repr

namespace StorageProblem

def message : StorageProblem → String
  | .io _ s | .corruption s | .other s => s

/-- The fault that a storage problem counts as for input and output. -/
def ioKind : StorageProblem → IoKind
  | .io k _ => k
  | .corruption _ => .invalidData
  | .other _ => .other

end StorageProblem

/-- Text in quotes, as a program would write it. -/
def quoted (s : String) : String :=
  let escape (c : Char) : List Char :=
    if c = '"' ∨ c = '\\' then ['\\', c]
    else if c = '\n' then ['\\', 'n']
    else if c = '\r' then ['\\', 'r']
    else if c = '\t' then ['\\', 't']
    else if c.toNat = 0 then ['\\', '0']
    else if c.toNat < 32 ∨ c.toNat = 127 then
      ['\\', 'u', '\x7b'] ++ Nat.toDigits 16 c.toNat ++ ['\x7d']
    else [c]
  "\"" ++ String.ofList (s.toList.flatMap escape) ++ "\""

namespace Variable

def inspect (v : Variable) : String := "Variable \x7b name: " ++ quoted v.name ++ " \x7d"

/-- A header in full detail. -/
def inspectAll (vs : List Variable) : String := "[" ++ ", ".intercalate (vs.map inspect) ++ "]"

end Variable

def MissingEvaluator.message (m : MissingEvaluator) : String :=
  "No " ++ m.mode.name ++ " evaluator is registered for node kind " ++ m.kind.name

def Fault.message : Fault → String
  | .text s => s
  | .unexpectedNode k => "Evaluator received unexpected node " ++ k.name
  | .noEvaluator m => "No " ++ m.mode.name ++ " evaluator for node kind " ++ m.kind.name
  | .invalidConfiguration m => "Invalid configuration: " ++ m.message
  | .wrongHeader k actual expected =>
    "Evaluator of " ++ k.name ++ " produced variables " ++ Variable.inspectAll actual ++
      " instead of " ++ Variable.inspectAll expected
  | .noRuntime => "Subscribing to a solution sequence requires a tokio runtime"

def Problem.message : Problem → String
  | .storage p => p.message
  | .internal f => "Internal error: " ++ f.message

end TripleAlgebra
