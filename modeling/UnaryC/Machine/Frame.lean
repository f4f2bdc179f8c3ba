import UnaryC.Machine.Fault

/-!
The stack frame. Every pseudo-register of a program gets a slot of four bytes; the slots lie below
the frame pointer, from the top down, in the order in which the pseudo-registers first occur.
-/
namespace UnaryC.Machine

def Operand.pseudo? : Operand → Option String
  | pseudo name => some name
  | _ => none

/-- The pseudo-registers of a program in the order of their first occurrence. -/
def Program.pseudos (p : Program) : List String :=
  (p.operands.filterMap Operand.pseudo?).eraseDups

/-- The offset of the slot with that number, counted from 0. -/
def slotOffset (number : Nat) : Int32 :=
  Int32.ofInt (-4 * (number + 1))

/-- The size of a frame with that many slots. -/
def frameSize (slots : Nat) : Int32 :=
  Int32.ofInt (4 * slots)

/-- The operand with the slots of `names` in place of the pseudo-registers. -/
def Operand.place (names : List String) : Operand → Operand
  | pseudo name => slot (slotOffset (names.idxOf name))
  | operand => operand

def Operand.placementFault? : Operand → Option Fault
  | slot offset => some (.slotTaken offset)
  | _ => none

def Instr.placementFault? : Instr → Option Fault
  | allocate amount => some (.frameReserved amount)
  | instr => instr.operands.findSome? Operand.placementFault?

/-- The program with a slot for each pseudo-register, and the size of its frame. Refuses a program
that has a frame or a slot already. -/
def place (p : Program) : Except Fault (Program × Int32) :=
  match p.code.findSome? Instr.placementFault? with
  | some fault => .error fault
  | none =>
    .ok ({ p with code := p.code.map (Instr.mapOperands (Operand.place p.pseudos)) },
      frameSize p.pseudos.length)

end UnaryC.Machine
