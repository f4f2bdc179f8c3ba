import UnaryC.Text.Decimal
import UnaryC.Text.Quoted
import UnaryC.Text.Term
import UnaryC.Tree.Basic

/-!
Three-address code: a straight list of instructions, each of which applies at most one operator and
puts the result into a variable.
-/
namespace UnaryC.Tac

inductive Value where
  | constant (value : Int32)
  | var (name : String)
deriving DecidableEq, Repr

inductive Instr where
  | ret (value : Value)
  | unary (op : UnaryOp) (src dest : Value)
deriving DecidableEq, Repr

structure Program where
  name : String
  code : List Instr
deriving DecidableEq, Repr

open Text

def Value.term : Value → Term
  | constant value => .apply "Constant" [.atom (Decimal.ofInt32 value)]
  | var name => .apply "Var" [.atom (Quoted.quote name)]

def Instr.term : Instr → Term
  | ret value => .apply "Return" [value.term]
  | unary op src dest =>
    .record "Unary" [("op", .atom op.title), ("src", src.term), ("dest", dest.term)]

end UnaryC.Tac
