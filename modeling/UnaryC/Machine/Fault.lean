import UnaryC.Machine.Basic
import UnaryC.Tac.Basic

/-! What the passes that make machine code refuse. -/
namespace UnaryC.Machine

inductive Fault where
  /-- Three-address code that writes to a constant. -/
  | constantDestination (instr : Tac.Instr)
  /-- A frame reserved before its slots are handed out. -/
  | frameReserved (amount : Int32)
  /-- An operand that names a slot before slots are handed out. -/
  | slotTaken (offset : Int32)
  /-- An operator that writes to an immediate. -/
  | immediateDestination (instr : Instr)
deriving DecidableEq, Repr

namespace Fault

def detail : Fault → String
  | constantDestination _ => "Unary destination must be a variable"
  | frameReserved _ => "Stack already allocated before pseudo-register replacement"
  | slotTaken _ => "Operand already resolved to a stack slot"
  | immediateDestination _ => "Unary operation cannot write to an immediate"

/-- The offending part of the program. -/
def node : Fault → String
  | constantDestination instr => instr.term.inline
  | frameReserved amount => (Instr.allocate amount).term.inline
  | slotTaken offset => (Operand.slot offset).term.inline
  | immediateDestination instr => instr.term.inline

def message (f : Fault) : String :=
  f.detail ++ ": " ++ f.node

end Fault

end UnaryC.Machine
