import TripleAlgebra.Expression.Basic
import TripleAlgebra.Pattern

/-! Queries as they are written: graph patterns with conditions over them. -/
namespace TripleAlgebra

mutual

inductive GraphPattern
  | triples (patterns : List Pattern)
  | path (subject : Slot) (predicate : String) (object : Slot)
  | join (left right : GraphPattern)
  | optional (left right : GraphPattern)
  | optionalIf (left right : GraphPattern) (condition : Condition)
  | filter (condition : Condition) (inner : GraphPattern)
  | union (left right : GraphPattern)
  | graph (inner : GraphPattern)
  | extend (inner : GraphPattern) (target : Variable) (value : Condition)
  | minus (left right : GraphPattern)
  | values (header : List Variable) (rows : List Row)
  | orderBy (inner : GraphPattern) (key : Variable)
  | project (inner : GraphPattern) (header : List Variable)
  | distinct (inner : GraphPattern)
  | reduced (inner : GraphPattern)
  | slice (inner : GraphPattern) (start : Nat) (count : Option Nat)
  | group (inner : GraphPattern) (keys : List Variable)
  | service (inner : GraphPattern)

/-- An expression that may call any function and ask whether a pattern has a solution. -/
inductive Condition
  | var (v : Variable)
  | const (t : Term)
  | bound (v : Variable)
  | unary (op : UnaryOp) (e : Condition)
  | binary (op : BinaryOp) (l r : Condition)
  | member (e : Condition) (list : List Condition)
  | conditional (c t e : Condition)
  | coalesce (list : List Condition)
  | call (name : String) (list : List Condition)
  | exists (pattern : GraphPattern)

end

inductive QueryForm
  | select | ask | construct | describe
  deriving DecidableEq, Repr

structure Query where
  form : QueryForm
  hasDataset : Bool
  pattern : GraphPattern

end TripleAlgebra
