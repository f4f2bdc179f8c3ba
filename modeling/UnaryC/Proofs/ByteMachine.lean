import Mathlib.Algebra.Group.Nat.Defs
import UnaryC.Machine.Run

/-!
# A byte-addressed machine

The instructions that assembly text is made of, on 64-bit registers and a memory of bytes. Words lie
in memory with the lowest byte first, and addresses wrap around. A run keeps a record of every
access to memory, with the instruction that made it and the stack pointer at that moment. It ends
where the function is about to return to its caller.
-/
namespace UnaryC.X86

open Machine (Op)

abbrev Memory := BitVec 64 → BitVec 8

namespace Memory

/-- The `n` bytes from `a` on as one word. -/
def load (m : Memory) (a : BitVec 64) : (n : Nat) → BitVec (8 * n)
  | 0 => 0#0
  | n + 1 => m.load (a + 1) n ++ m a

/-- Puts the `n` bytes of a word at `a`. -/
def store (m : Memory) (a : BitVec 64) (n : Nat) (v : BitVec (8 * n)) : Memory :=
  fun x => if (x - a).toNat < n then v.extractLsb' (8 * (x - a).toNat) 8 else m x

end Memory

inductive Register where
  | rax
  | r10
  | rbp
  | rsp
deriving DecidableEq, Repr

/-- The register of which a 32-bit register is the lower half. -/
def wide : Machine.Register → Register
  | .ax => .rax
  | .r10 => .r10

/-- Operands of 32 bits. -/
inductive Operand where
  | imm (value : Int32)
  | reg (register : Machine.Register)
  /-- The four bytes at that offset from the frame pointer. -/
  | frame (offset : Int32)
deriving DecidableEq, Repr

inductive Instr where
  | pushq (src : Register)
  | popq (dest : Register)
  | movq (src dest : Register)
  | subq (amount : Int32) (dest : Register)
  | movl (src dest : Operand)
  /-- `negl` and `notl`. -/
  | unary (op : Op) (dest : Operand)
  | ret
deriving DecidableEq, Repr

structure State where
  regs : Register → BitVec 64
  memory : Memory

inductive AccessKind where
  | read
  | write
deriving DecidableEq, Repr

structure Access where
  instr : Instr
  kind : AccessKind
  address : BitVec 64
  size : Nat
  /-- The stack pointer when the access is made. -/
  top : BitVec 64
deriving DecidableEq, Repr

namespace State

def set (s : State) (r : Register) (v : BitVec 64) : State :=
  { s with regs := fun x => if x = r then v else s.regs x }

def frameAddress (s : State) (offset : Int32) : BitVec 64 :=
  s.regs .rbp + offset.toBitVec.signExtend 64

def read (s : State) : Operand → BitVec 32
  | .imm value => value.toBitVec
  | .reg register => (s.regs (wide register)).setWidth 32
  | .frame offset => s.memory.load (s.frameAddress offset) 4

/-- An immediate cannot be written. Writing the lower half of a register clears the upper half. -/
def write? (s : State) (v : BitVec 32) : Operand → Option State
  | .imm _ => none
  | .reg register => some (s.set (wide register) (v.setWidth 64))
  | .frame offset => some { s with memory := s.memory.store (s.frameAddress offset) 4 v }

/-- The accesses to memory that `i` makes for an operand. -/
def accesses (s : State) (i : Instr) (kind : AccessKind) : Operand → List Access
  | .frame offset => [⟨i, kind, s.frameAddress offset, 4, s.regs .rsp⟩]
  | _ => []

/-- One instruction, with its accesses to memory. There is no move from memory to memory. -/
def step (s : State) (i : Instr) : Option (State × List Access) :=
  match i with
  | .pushq src =>
    let top := s.regs .rsp - 8
    some ({ s.set .rsp top with memory := s.memory.store top 8 (s.regs src) },
      [⟨i, .write, top, 8, top⟩])
  | .popq dest =>
    let top := s.regs .rsp
    some ((s.set .rsp (top + 8)).set dest (s.memory.load top 8), [⟨i, .read, top, 8, top⟩])
  | .movq src dest => some (s.set dest (s.regs src), [])
  | .subq amount dest => some (s.set dest (s.regs dest - amount.toBitVec.signExtend 64), [])
  | .movl (.frame _) (.frame _) => none
  | .movl src dest =>
    (s.write? (s.read src) dest).map fun t =>
      (t, s.accesses i .read src ++ s.accesses i .write dest)
  | .unary op dest =>
    (s.write? (op.apply (Int32.ofBitVec (s.read dest))).toBitVec dest).map fun t =>
      (t, s.accesses i .read dest ++ s.accesses i .write dest)
  | .ret => none

end State

/-- Runs up to the first return. Nothing comes of code that gets stuck or runs off its end. -/
def run (s : State) : List Instr → Option (State × List Access)
  | [] => none
  | .ret :: _ => some (s, [])
  | i :: code =>
    (s.step i).bind fun (s, first) => (run s code).map fun (t, rest) => (t, first ++ rest)

namespace Memory

theorem getLsbD_load (m : Memory) (a : BitVec 64) (n i : Nat) :
    (m.load a n).getLsbD i =
      (decide (i < 8 * n) && (m (a + BitVec.ofNat 64 (i / 8))).getLsbD (i % 8)) := by
  induction n generalizing a i with
  | zero => simp [load]
  | succ n ih =>
    rw [load, BitVec.getLsbD_append]
    by_cases hi : i < 8
    · have hdiv : i / 8 = 0 := by omega
      have hmod : i % 8 = i := by omega
      have hlt : i < 8 * (n + 1) := by omega
      simp [hi, hdiv, hmod, hlt]
    · have hmod : (i - 8) % 8 = i % 8 := by omega
      have hlt : i - 8 < 8 * n ↔ i < 8 * (n + 1) := by omega
      have hnext : a + 1 + BitVec.ofNat 64 ((i - 8) / 8) = a + BitVec.ofNat 64 (i / 8) := by
        have hdiv : i / 8 = 1 + (i - 8) / 8 := by omega
        rw [hdiv, BitVec.ofNat_add, BitVec.add_assoc]
        rfl
      rw [if_neg hi, ih, hmod, hnext, decide_eq_decide.mpr hlt]

theorem load_congr {m m' : Memory} {a : BitVec 64} {n : Nat}
    (h : ∀ k < n, m' (a + BitVec.ofNat 64 k) = m (a + BitVec.ofNat 64 k)) :
    m'.load a n = m.load a n := by
  apply BitVec.eq_of_getLsbD_eq
  intro i hi
  rw [getLsbD_load, getLsbD_load, h (i / 8) (by omega)]

theorem load_store (m : Memory) (a : BitVec 64) {n : Nat} (hn : n ≤ 2 ^ 64) (v : BitVec (8 * n)) :
    (m.store a n v).load a n = v := by
  apply BitVec.eq_of_getLsbD_eq
  intro i hi
  have hk : i / 8 < n := by omega
  have hdist : (a + BitVec.ofNat 64 (i / 8) - a).toNat = i / 8 := by
    rw [BitVec.add_comm, BitVec.add_sub_cancel, BitVec.toNat_ofNat, Nat.mod_eq_of_lt (by omega)]
  have hbit : 8 * (i / 8) + i % 8 = i := by omega
  have hmod : i % 8 < 8 := by omega
  rw [getLsbD_load, store, hdist, if_pos hk, BitVec.getLsbD_extractLsb', hbit]
  simp [hi, hmod]

end Memory

end UnaryC.X86
