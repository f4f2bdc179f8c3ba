import UnaryC.Machine.Basic

/-!
Assembly text for a program, in the syntax of the GNU assembler. The text sets up a frame at the
start of the function and takes it down at each return. A pseudo-register has no text.
-/
namespace UnaryC.Machine

open Text

/-- A pseudo-register that was never given a slot. -/
structure Unplaced where
  name : String
deriving DecidableEq, Repr

def Unplaced.message (u : Unplaced) : String :=
  "Internal error: pseudo-register '" ++ u.name ++ "' reached emission unresolved"

def Register.assembly : Register → String
  | ax => "%eax"
  | r10 => "%r10d"

def Op.assembly : Op → String
  | neg => "negl"
  | not => "notl"

def Operand.assembly : Operand → Except Unplaced String
  | imm value => .ok ("$" ++ Decimal.ofInt32 value)
  | reg register => .ok register.assembly
  | slot offset => .ok (Decimal.ofInt32 offset ++ "(%rbp)")
  | pseudo name => .error ⟨name⟩

def Instr.assembly : Instr → Except Unplaced String
  | mov src dest => do
    let src ← src.assembly
    let dest ← dest.assembly
    return "\tmovl " ++ src ++ ", " ++ dest ++ "\n"
  | unary op dest => do
    let dest ← dest.assembly
    return "\t" ++ op.assembly ++ " " ++ dest ++ "\n"
  | allocate amount => .ok ("\tsubq $" ++ Decimal.ofInt32 amount ++ ", %rsp\n")
  | ret => .ok "\tmovq %rbp, %rsp\n\tpopq %rbp\n\tret\n"

def codeAssembly : List Instr → Except Unplaced String
  | [] => .ok ""
  | instr :: code => do
    let head ← instr.assembly
    let tail ← codeAssembly code
    return head ++ tail

def prologue (name : String) : String :=
  "\t.globl " ++ name ++ "\n" ++ name ++ ":\n\tpushq %rbp\n\tmovq %rsp, %rbp\n"

/-- Tells the linker that the program needs no executable stack. -/
def stackNote : String :=
  ".section .note.GNU-stack,\"\",@progbits\n"

def Program.assembly (p : Program) : Except Unplaced String := do
  let code ← codeAssembly p.code
  return prologue p.name ++ code ++ stackNote

end UnaryC.Machine
