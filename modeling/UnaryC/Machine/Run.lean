import UnaryC.Machine.Basic

/-!
Running machine code on the contents of registers, slots and pseudo-registers. Here a move between
two slots is allowed, and reserving a frame leaves all contents alone.
-/
namespace UnaryC.Machine

structure State where
  regs : Register → Int32
  slots : Int32 → Int32
  pseudos : String → Int32

namespace State

def read (s : State) : Operand → Int32
  | .imm value => value
  | .reg register => s.regs register
  | .slot offset => s.slots offset
  | .pseudo name => s.pseudos name

/-- An immediate cannot be written. -/
def write? (s : State) (v : Int32) : Operand → Option State
  | .imm _ => none
  | .reg register => some { s with regs := fun r => if r = register then v else s.regs r }
  | .slot offset => some { s with slots := fun o => if o = offset then v else s.slots o }
  | .pseudo name => some { s with pseudos := fun x => if x = name then v else s.pseudos x }

theorem write?_eq_none_iff {s : State} {v : Int32} {o : Operand} :
    s.write? v o = none ↔ ∃ value, o = .imm value := by
  cases o with
  | imm value => simp [write?]
  | reg r => simp [write?]
  | pseudo name => simp [write?]
  | slot offset => simp [write?]

theorem read_write_same {s s' : State} {v : Int32} {o : Operand} (h : s.write? v o = some s') :
    s'.read o = v := by
  cases o with
  | imm value => cases h
  | reg r => cases h; simp [read]
  | pseudo name => cases h; simp [read]
  | slot offset => cases h; simp [read]

theorem read_write_of_ne {s s' : State} {v : Int32} {o o' : Operand} (h : s.write? v o = some s')
    (hne : o' ≠ o) : s'.read o' = s.read o' := by
  cases o with
  | imm value => cases h
  | reg r =>
    cases h
    cases o' with
    | reg r' =>
      have : r' ≠ r := fun e => hne (e ▸ rfl)
      simp [read, this]
    | _ => rfl
  | pseudo name =>
    cases h
    cases o' with
    | pseudo name' =>
      have : name' ≠ name := fun e => hne (e ▸ rfl)
      simp [read, this]
    | _ => rfl
  | slot offset =>
    cases h
    cases o' with
    | slot offset' =>
      have : offset' ≠ offset := fun e => hne (e ▸ rfl)
      simp [read, this]
    | _ => rfl

end State

def Op.apply : Op → Int32 → Int32
  | neg, v => -v
  | not, v => ~~~v

/-- How a run ends, with the contents at that point. -/
inductive Ending where
  | returned (state : State)
  | ranOff (state : State)
  | stuck (state : State)

def run (s : State) : List Instr → Ending
  | [] => .ranOff s
  | .ret :: _ => .returned s
  | .allocate _ :: code => run s code
  | .mov src dest :: code =>
    match s.write? (s.read src) dest with
    | none => .stuck s
    | some s => run s code
  | .unary op dest :: code =>
    match s.write? (op.apply (s.read dest)) dest with
    | none => .stuck s
    | some s => run s code

end UnaryC.Machine
