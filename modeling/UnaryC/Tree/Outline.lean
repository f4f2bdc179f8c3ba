import UnaryC.Text.Decimal
import UnaryC.Tree.Basic

/-! The outline of a syntax tree: one node on a line, behind as many dashes as the node is deep. -/
namespace UnaryC.Tree

open Text

def outlineRow (depth : Nat) (title : String) (line : Nat) : String :=
  String.ofList (List.replicate depth '-') ++ title ++ ", ln " ++ Decimal.ofNat line ++ "\n"

def Expr.outline (depth : Nat) : Expr → String
  | .constant value line => outlineRow depth ("Constant(" ++ Decimal.ofInt32 value ++ ")") line
  | .unary op operand line => outlineRow depth op.title line ++ operand.outline (depth + 1)

def Return.outline (depth : Nat) (r : Return) : String :=
  outlineRow depth "Return" r.line ++ r.value.outline (depth + 1)

def Function.outline (depth : Nat) (f : Function) : String :=
  outlineRow depth ("Function(" ++ f.name ++ ")") f.line ++ f.body.outline (depth + 1)

def Program.outline (p : Program) : String :=
  outlineRow 0 "Program" p.line ++ p.function.outline 1

end UnaryC.Tree
