import UnaryC.Tac.Basic
import UnaryC.Tac.NameSupply

/-! Lowering: from a syntax tree to three-address code, innermost operator first. -/
namespace UnaryC.Tac

/-- The instructions that compute the expression, the value that then holds it, and the supply
without the names used. -/
def lowerExpr (names : NameSupply) : Tree.Expr → List Instr × Value × NameSupply
  | .constant value _ => ([], .constant value, names)
  | .unary op operand _ =>
    let (code, src, names) := lowerExpr names operand
    let (temp, names) := names.fresh
    (code ++ [.unary op src (.var temp)], .var temp, names)

def lowerReturn (r : Tree.Return) : List Instr :=
  let (code, value, _) := lowerExpr {} r.value
  code ++ [.ret value]

/-- Each function draws its temporaries from a supply of its own. -/
def lower (p : Tree.Program) : Program :=
  { name := p.function.name, code := lowerReturn p.function.body }

end UnaryC.Tac
