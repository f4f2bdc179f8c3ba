import UnaryC.Text.Decimal
import UnaryC.Text.Quoted
import UnaryC.Text.Term

/-!
Machine code: the 32-bit instructions of x86-64 that the compiler uses. An operand is an
immediate, a register, a stack slot at an offset from the frame pointer, or a pseudo-register,
which stands for a slot not yet chosen.
-/
namespace UnaryC.Machine

inductive Register where
  | ax
  | r10
deriving DecidableEq, Repr

inductive Operand where
  | imm (value : Int32)
  | reg (register : Register)
  | pseudo (name : String)
  | slot (offset : Int32)
deriving DecidableEq, Repr

inductive Op where
  | neg
  | not
deriving DecidableEq, Repr

inductive Instr where
  | mov (src dest : Operand)
  | unary (op : Op) (dest : Operand)
  /-- Reserves that many bytes below the frame pointer. -/
  | allocate (amount : Int32)
  | ret
deriving DecidableEq, Repr

structure Program where
  name : String
  code : List Instr
deriving DecidableEq, Repr

namespace Instr

/-- The operands, source before destination. -/
def operands : Instr → List Operand
  | mov src dest => [src, dest]
  | unary _ dest => [dest]
  | allocate _ => []
  | ret => []

def mapOperands (f : Operand → Operand) : Instr → Instr
  | mov src dest => mov (f src) (f dest)
  | unary op dest => unary op (f dest)
  | allocate amount => allocate amount
  | ret => ret

theorem operands_mapOperands (f : Operand → Operand) (i : Instr) :
    (i.mapOperands f).operands = i.operands.map f := by
  cases i <;> rfl

end Instr

/-- All operands of a program in the order in which they stand. -/
def Program.operands (p : Program) : List Operand :=
  p.code.flatMap Instr.operands

open Text

def Register.title : Register → String
  | ax => "AX"
  | r10 => "R10"

def Op.title : Op → String
  | neg => "Neg"
  | not => "Not"

def Operand.term : Operand → Term
  | imm value => .apply "Imm" [.atom (Decimal.ofInt32 value)]
  | reg register => .apply "Register" [.atom register.title]
  | pseudo name => .apply "Pseudo" [.atom (Quoted.quote name)]
  | slot offset => .apply "Stack" [.atom (Decimal.ofInt32 offset)]

def Instr.term : Instr → Term
  | mov src dest => .record "Mov" [("src", src.term), ("dest", dest.term)]
  | unary op dest => .record "Unary" [("op", .atom op.title), ("dest", dest.term)]
  | allocate amount => .apply "AllocateStack" [.atom (Decimal.ofInt32 amount)]
  | ret => .atom "Ret"

def Program.term (p : Program) : Term :=
  .record "Program"
    [("func", .record "Function"
      [("name", .atom (Quoted.quote p.name)),
       ("instructions", .list (p.code.map Instr.term))])]

/-- The outline of a program, with every part on a line of its own. -/
def Program.outline (p : Program) : String :=
  p.term.layout 0 ++ "\n"

end UnaryC.Machine
