import UnaryC.Machine.Fault

/-!
Legal instructions. The machine cannot move from one stack slot to another in one instruction, so
such a move goes through the scratch register; and it reserves the frame before it uses it.
-/
namespace UnaryC.Machine

def legalizeInstr : Instr → List Instr
  | .mov (.slot src) (.slot dest) =>
    [.mov (.slot src) (.reg .r10), .mov (.reg .r10) (.slot dest)]
  | instr => [instr]

def legalizationFault? : Instr → Option Fault
  | .unary op (.imm value) => some (.immediateDestination (.unary op (.imm value)))
  | _ => none

/-- The instruction that reserves a frame of that size; an empty frame needs none. -/
def reserve (frame : Int32) : List Instr :=
  if 0 < frame then [.allocate frame] else []

/-- Refuses the first operator that writes to an immediate. -/
def legalize (p : Program) (frame : Int32) : Except Fault Program :=
  match p.code.findSome? legalizationFault? with
  | some fault => .error fault
  | none => .ok { p with code := reserve frame ++ p.code.flatMap legalizeInstr }

end UnaryC.Machine
