import TripleAlgebra.Config
import TripleAlgebra.Evaluation.Attempt
import TripleAlgebra.Evaluation.Context
import TripleAlgebra.Evaluation.Correlated
import TripleAlgebra.Evaluation.Dispatch
import TripleAlgebra.Evaluation.Minus
import TripleAlgebra.Evaluation.Registry
import TripleAlgebra.Evaluation.Rows
import TripleAlgebra.Expression.Basic
import TripleAlgebra.Expression.Call
import TripleAlgebra.Expression.Eval
import TripleAlgebra.Expression.Prepared
import TripleAlgebra.Expression.Render
import TripleAlgebra.Expression.Substitute
import TripleAlgebra.Join.Chain
import TripleAlgebra.Join.Step
import TripleAlgebra.Number.Binary
import TripleAlgebra.Number.BinaryText
import TripleAlgebra.Number.Bounded
import TripleAlgebra.Number.Decimal
import TripleAlgebra.Number.Digits
import TripleAlgebra.Number.Numeric
import TripleAlgebra.Pattern
import TripleAlgebra.Plan.Basic
import TripleAlgebra.Plan.Bind
import TripleAlgebra.Plan.Binding
import TripleAlgebra.Plan.Build
import TripleAlgebra.Plan.Header
import TripleAlgebra.Plan.Patterns
import TripleAlgebra.Plan.Rank
import TripleAlgebra.Plan.Render
import TripleAlgebra.Plan.Reorder
import TripleAlgebra.Problem
import TripleAlgebra.Proofs.Adequacy
import TripleAlgebra.Proofs.Agreement
import TripleAlgebra.Proofs.Answers
import TripleAlgebra.Proofs.Arrange
import TripleAlgebra.Proofs.Assignment
import TripleAlgebra.Proofs.Bag
import TripleAlgebra.Proofs.BlankNodes
import TripleAlgebra.Proofs.BoundRows
import TripleAlgebra.Proofs.Calls
import TripleAlgebra.Proofs.Cartesian
import TripleAlgebra.Proofs.Chain
import TripleAlgebra.Proofs.Columns
import TripleAlgebra.Proofs.Comparison
import TripleAlgebra.Proofs.Composition
import TripleAlgebra.Proofs.Connectives
import TripleAlgebra.Proofs.Contents
import TripleAlgebra.Proofs.Decimal
import TripleAlgebra.Proofs.DeclaredColumns
import TripleAlgebra.Proofs.Delivery
import TripleAlgebra.Proofs.Demands
import TripleAlgebra.Proofs.Dictionary
import TripleAlgebra.Proofs.Difference
import TripleAlgebra.Proofs.DifferenceRules
import TripleAlgebra.Proofs.Duplicates
import TripleAlgebra.Proofs.Exchange
import TripleAlgebra.Proofs.Existence
import TripleAlgebra.Proofs.ExistenceRows
import TripleAlgebra.Proofs.Exposed
import TripleAlgebra.Proofs.Failures
import TripleAlgebra.Proofs.GatheredOnce
import TripleAlgebra.Proofs.Header
import TripleAlgebra.Proofs.Index
import TripleAlgebra.Proofs.Items
import TripleAlgebra.Proofs.JoinSolutions
import TripleAlgebra.Proofs.JoinedRows
import TripleAlgebra.Proofs.Journal
import TripleAlgebra.Proofs.LastError
import TripleAlgebra.Proofs.LifeCycle
import TripleAlgebra.Proofs.LoweredPatterns
import TripleAlgebra.Proofs.Meaning
import TripleAlgebra.Proofs.Modes
import TripleAlgebra.Proofs.NestedLoops
import TripleAlgebra.Proofs.Numbering
import TripleAlgebra.Proofs.OnceEffects
import TripleAlgebra.Proofs.OperandOrder
import TripleAlgebra.Proofs.Operands
import TripleAlgebra.Proofs.OptionalCondition
import TripleAlgebra.Proofs.OptionalRows
import TripleAlgebra.Proofs.PatternRows
import TripleAlgebra.Proofs.PreparedExpression
import TripleAlgebra.Proofs.PromptFailure
import TripleAlgebra.Proofs.Rebinding
import TripleAlgebra.Proofs.Regular
import TripleAlgebra.Proofs.RepeatedColumns
import TripleAlgebra.Proofs.Restart
import TripleAlgebra.Proofs.RowInvariants
import TripleAlgebra.Proofs.RowSolutions
import TripleAlgebra.Proofs.Rows
import TripleAlgebra.Proofs.Safe
import TripleAlgebra.Proofs.SameItems
import TripleAlgebra.Proofs.Scan
import TripleAlgebra.Proofs.SetDifference
import TripleAlgebra.Proofs.SingleItem
import TripleAlgebra.Proofs.SliceCursor
import TripleAlgebra.Proofs.SlicedOperand
import TripleAlgebra.Proofs.Slices
import TripleAlgebra.Proofs.Specialise
import TripleAlgebra.Proofs.StreamView
import TripleAlgebra.Proofs.Substitution
import TripleAlgebra.Proofs.SupportedQueries
import TripleAlgebra.Proofs.Termination
import TripleAlgebra.Proofs.Width
import TripleAlgebra.Query.Answer
import TripleAlgebra.Query.Blank
import TripleAlgebra.Query.GraphPattern
import TripleAlgebra.Query.Lower
import TripleAlgebra.Query.Support
import TripleAlgebra.Regex.Basic
import TripleAlgebra.Regex.Class
import TripleAlgebra.Regex.Escape
import TripleAlgebra.Regex.Flags
import TripleAlgebra.Regex.Pattern
import TripleAlgebra.Regex.Search
import TripleAlgebra.Regex.Size
import TripleAlgebra.Regex.Source
import TripleAlgebra.Row
import TripleAlgebra.RowSet
import TripleAlgebra.Solutions.Basic
import TripleAlgebra.Solutions.Event
import TripleAlgebra.Solutions.Exchange
import TripleAlgebra.Solutions.History
import TripleAlgebra.Solutions.Subscription
import TripleAlgebra.Solutions.View
import TripleAlgebra.Store.Dictionary
import TripleAlgebra.Store.Index
import TripleAlgebra.Store.Journal
import TripleAlgebra.Store.Lookup
import TripleAlgebra.Store.Memory
import TripleAlgebra.Term
import TripleAlgebra.Text.Case
import TripleAlgebra.Text.Category
import TripleAlgebra.Text.CharSet
import TripleAlgebra.Text.Fold
import TripleAlgebra.Text.Property
import TripleAlgebra.Text.Script
import TripleAlgebra.Text.Search
import TripleAlgebra.Update
import TripleAlgebra.Value
import TripleAlgebra.Variable
