import UnaryC.Machine.Fault

/-!
Instruction selection: from three-address code to machine code in which every variable is a
pseudo-register.
-/
namespace UnaryC.Machine

def operandOf : Tac.Value → Operand
  | .constant value => .imm value
  | .var name => .pseudo name

def opOf : UnaryOp → Op
  | .negate => .neg
  | .complement => .not

def selectInstr : Tac.Instr → List Instr
  | .ret value => [.mov (operandOf value) (.reg .ax), .ret]
  | .unary op src dest =>
    [.mov (operandOf src) (operandOf dest), .unary (opOf op) (operandOf dest)]

def selectionFault? : Tac.Instr → Option Fault
  | .unary op src (.constant value) => some (.constantDestination (.unary op src (.constant value)))
  | _ => none

/-- Refuses the first instruction that writes to a constant. -/
def select (p : Tac.Program) : Except Fault Program :=
  match p.code.findSome? selectionFault? with
  | some fault => .error fault
  | none => .ok { name := p.name, code := p.code.flatMap selectInstr }

end UnaryC.Machine
