import UnaryC.Tree.Basic

/-! The value of an expression, in 32-bit two's complement: negation wraps around. -/
namespace UnaryC

def UnaryOp.apply : UnaryOp → Int32 → Int32
  | negate, v => -v
  | complement, v => ~~~v

namespace Tree

def Expr.eval : Expr → Int32
  | constant value _ => value
  | unary op operand _ => op.apply operand.eval

/-- The operators of an expression, outermost first. -/
def Expr.ops : Expr → List UnaryOp
  | constant _ _ => []
  | unary op operand _ => op :: operand.ops

/-- The constant under the operators. -/
def Expr.base : Expr → Int32
  | constant value _ => value
  | unary _ operand _ => operand.base

/-- The value a program's function returns. -/
def Program.eval (p : Program) : Int32 :=
  p.function.body.value.eval

end Tree

end UnaryC
