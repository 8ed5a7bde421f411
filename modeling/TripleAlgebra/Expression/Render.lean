import TripleAlgebra.Expression.Basic

/-! Text of expressions. -/
namespace TripleAlgebra

/-- What stands before, between and after the operands. -/
def BinaryOp.frame : BinaryOp → String × String × String
  | .or => ("(", " || ", ")")
  | .and => ("(", " && ", ")")
  | .equal => ("(", " = ", ")")
  | .sameTerm => ("sameTerm(", ", ", ")")
  | .greater => ("(", " > ", ")")
  | .greaterOrEqual => ("(", " >= ", ")")
  | .less => ("(", " < ", ")")
  | .lessOrEqual => ("(", " <= ", ")")
  | .add => ("(", " + ", ")")
  | .subtract => ("(", " - ", ")")
  | .multiply => ("(", " * ", ")")
  | .divide => ("(", " / ", ")")

def UnaryOp.sign : UnaryOp → String
  | .not => "!"
  | .plus => "+"
  | .minus => "-"

namespace Expression

mutual

def render : Expression → String
  | .var v => v.render
  | .const t => t.render
  | .bound v => "BOUND(" ++ v.render ++ ")"
  | .unary op e => op.sign ++ render e
  | .binary op l r => op.frame.1 ++ render l ++ op.frame.2.1 ++ render r ++ op.frame.2.2
  | .member e es => "(" ++ render e ++ " IN (" ++ ", ".intercalate (renderEach es) ++ "))"
  | .conditional c t e => "IF(" ++ render c ++ ", " ++ render t ++ ", " ++ render e ++ ")"
  | .coalesce es => "COALESCE(" ++ ", ".intercalate (renderEach es) ++ ")"
  | .call f es => f.name ++ "(" ++ ", ".intercalate (renderEach es) ++ ")"

def renderEach : List Expression → List String
  | [] => []
  | e :: es => render e :: renderEach es

end

end Expression
end TripleAlgebra
