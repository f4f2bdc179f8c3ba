import UnaryC.Machine.Frame
import UnaryC.Machine.Legal
import UnaryC.Machine.Selection

/-! Code generation: selection, slots for the pseudo-registers, legal instructions. -/
namespace UnaryC.Machine

def generate (p : Tac.Program) : Except Fault Program := do
  let selected ← select p
  let (placed, frame) ← place selected
  legalize placed frame

end UnaryC.Machine
