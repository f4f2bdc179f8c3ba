import UnaryC.Machine.Assembly
import UnaryC.Proofs.ByteMachine
import UnaryC.Proofs.Numeral

/-!
# What assembly text says

The text of a program lists instructions, one on a line, between the function's label and a note for
the linker: two instructions that set up a frame, then those that each instruction of the program
stands for. A return stands for three. The separators in the text are in no operand.
-/
namespace UnaryC.X86

open Text (Decimal.ofInt32)
open Text.Decimal (not_mem_ofInt32)
open Machine (Unplaced)

def Register.text : Register → String
  | rax => "%rax"
  | r10 => "%r10"
  | rbp => "%rbp"
  | rsp => "%rsp"

def Operand.text : Operand → String
  | imm value => "$" ++ Decimal.ofInt32 value
  | reg register => register.assembly
  | frame offset => Decimal.ofInt32 offset ++ "(%rbp)"

def Instr.line : Instr → String
  | pushq src => "\tpushq " ++ src.text
  | popq dest => "\tpopq " ++ dest.text
  | movq src dest => "\tmovq " ++ src.text ++ ", " ++ dest.text
  | subq amount dest => "\tsubq $" ++ Decimal.ofInt32 amount ++ ", " ++ dest.text
  | movl src dest => "\tmovl " ++ src.text ++ ", " ++ dest.text
  | unary op dest => "\t" ++ op.assembly ++ " " ++ dest.text
  | ret => "\tret"

def codeText : List Instr → String
  | [] => ""
  | i :: code => i.line ++ "\n" ++ codeText code

def listing (name : String) (code : List Instr) : String :=
  "\t.globl " ++ name ++ "\n" ++ name ++ ":\n" ++ codeText code ++ Machine.stackNote

/-- A pseudo-register is nowhere in the machine. -/
def operandOf : Machine.Operand → Except Unplaced Operand
  | .imm value => .ok (.imm value)
  | .reg register => .ok (.reg register)
  | .slot offset => .ok (.frame offset)
  | .pseudo name => .error ⟨name⟩

/-- The instructions that one instruction of a program stands for. -/
def expand : Machine.Instr → Except Unplaced (List Instr)
  | .mov src dest => do
    let src ← operandOf src
    let dest ← operandOf dest
    return [.movl src dest]
  | .unary op dest => do
    let dest ← operandOf dest
    return [.unary op dest]
  | .allocate amount => .ok [.subq amount .rsp]
  | .ret => .ok [.movq .rbp .rsp, .popq .rbp, .ret]

def expandAll : List Machine.Instr → Except Unplaced (List Instr)
  | [] => .ok []
  | i :: code => do
    let head ← expand i
    let tail ← expandAll code
    return head ++ tail

def instructions (p : Machine.Program) : Except Unplaced (List Instr) := do
  let body ← expandAll p.code
  return .pushq .rbp :: .movq .rsp .rbp :: body

theorem expandAll_cons_eq_ok_iff {i : Machine.Instr} {code : List Machine.Instr} {xs : List Instr} :
    expandAll (i :: code) = .ok xs ↔
      ∃ head tail, expand i = .ok head ∧ expandAll code = .ok tail ∧ head ++ tail = xs := by
  rw [expandAll]
  cases expand i <;> cases expandAll code <;> simp [bind, Except.bind, pure, Except.pure]

theorem codeText_append (a b : List Instr) : codeText (a ++ b) = codeText a ++ codeText b := by
  induction a with
  | nil => simp [codeText]
  | cons i a ih => simp [codeText, ih, String.append_assoc]

theorem assembly_operand (o : Machine.Operand) : o.assembly = (operandOf o).map Operand.text := by
  cases o <;> rfl

theorem assembly_instr (i : Machine.Instr) : i.assembly = (expand i).map codeText := by
  cases i with
  | mov src dest =>
    rw [Machine.Instr.assembly, expand, assembly_operand, assembly_operand]
    cases operandOf src with
    | error u => rfl
    | ok s =>
      cases operandOf dest with
      | error u => rfl
      | ok d => simp [Except.map, bind, Except.bind, pure, Except.pure, codeText, Instr.line]
  | unary op dest =>
    rw [Machine.Instr.assembly, expand, assembly_operand]
    cases operandOf dest with
    | error u => rfl
    | ok d => simp [Except.map, bind, Except.bind, pure, Except.pure, codeText, Instr.line]
  | allocate amount =>
    simp [Machine.Instr.assembly, expand, Except.map, codeText, Instr.line, Register.text,
      String.append_assoc]
  | ret => rfl

theorem codeAssembly_eq (code : List Machine.Instr) :
    Machine.codeAssembly code = (expandAll code).map codeText := by
  induction code with
  | nil => rfl
  | cons i code ih =>
    rw [Machine.codeAssembly, expandAll, assembly_instr, ih]
    cases expand i with
    | error u => rfl
    | ok head =>
      cases expandAll code with
      | error u => rfl
      | ok tail =>
        simp [Except.map, bind, Except.bind, pure, Except.pure, codeText_append]

theorem prologue_eq (name : String) :
    Machine.prologue name = "\t.globl " ++ name ++ "\n" ++ name ++ ":\n" ++
      codeText [.pushq .rbp, .movq .rsp .rbp] := by
  simp only [Machine.prologue, String.append_assoc]
  rfl

/-- The text of a program is the listing of its instructions. -/
theorem assembly_eq_listing (p : Machine.Program) :
    p.assembly = (instructions p).map (listing p.name) := by
  rw [Machine.Program.assembly, instructions, codeAssembly_eq]
  cases expandAll p.code with
  | error u => rfl
  | ok body =>
    have hcode : codeText (.pushq .rbp :: .movq .rsp .rbp :: body) =
        codeText [.pushq .rbp, .movq .rsp .rbp] ++ codeText body :=
      codeText_append [.pushq .rbp, .movq .rsp .rbp] body
    simp only [Except.map, bind, Except.bind, pure, Except.pure, listing, hcode, prologue_eq,
      String.append_assoc]

/-- What stands between words, operands and lines. -/
def separators : List Char :=
  [' ', ',', '\n']

-- `decide` would try every character here, not every separator.
theorem Register.not_mem_text (r : Register) : ∀ c ∈ separators, c ∉ r.text.toList := by
  cases r <;> simp [separators, text]

theorem Operand.not_mem_text (o : Operand) : ∀ c ∈ separators, c ∉ o.text.toList := by
  have hnumber : ∀ c ∈ separators, ∀ v, c ∉ (Decimal.ofInt32 v).toList := by
    intro c hc v
    simp only [separators, List.mem_cons, List.not_mem_nil, or_false] at hc
    rcases hc with rfl | rfl | rfl <;> exact not_mem_ofInt32 (by decide) (by decide) v
  cases o with
  | imm value =>
    have hsign : ∀ c ∈ separators, c ∉ "$".toList := by simp [separators]
    intro c hc
    rw [text, String.toList_append, List.mem_append, not_or]
    exact ⟨hsign c hc, hnumber c hc value⟩
  | reg register => cases register <;> simp [separators, text, Machine.Register.assembly]
  | frame offset =>
    have hbase : ∀ c ∈ separators, c ∉ "(%rbp)".toList := by simp [separators]
    intro c hc
    rw [text, String.toList_append, List.mem_append, not_or]
    exact ⟨hnumber c hc offset, hbase c hc⟩

end UnaryC.X86
