/-!
Syntax trees. A program is one function, its body one return of an expression, and an expression a
constant under unary operators. Every node carries the line that it starts on.
-/
namespace UnaryC

inductive UnaryOp where
  | negate
  | complement
deriving DecidableEq, Repr

def UnaryOp.title : UnaryOp → String
  | negate => "Negate"
  | complement => "Complement"

namespace Tree

inductive Expr where
  | constant (value : Int32) (line : Nat)
  | unary (op : UnaryOp) (operand : Expr) (line : Nat)
deriving DecidableEq, Repr

structure Return where
  value : Expr
  line : Nat
deriving DecidableEq, Repr

structure Function where
  name : String
  body : Return
  line : Nat
deriving DecidableEq, Repr

structure Program where
  function : Function
  line : Nat
deriving DecidableEq, Repr

end Tree

end UnaryC
