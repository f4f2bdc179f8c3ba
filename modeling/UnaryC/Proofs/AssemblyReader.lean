import UnaryC.Proofs.AssemblyText
import UnaryC.Proofs.Faultless

/-!
# Reading assembly text

A reader that gets the program back from its text. It cuts the text into lines, a line into words
and a pair of operands at the comma; no operand has one of these separators in it, so the cuts are
where the separators were put. The signs in an operand tell what it is. So different programs have
different texts. A program without a text has a pseudo-register, and the first one is to blame.
-/
namespace UnaryC.X86

open Text (Decimal.ofInt32 Decimal.readInt32?)
open Text.Decimal (not_mem_ofInt32 readInt32?_ofInt32)

/-- What stands between the places of `c` in a text. -/
def pieces (c : Char) (s : String) : List String :=
  (s.toList.splitOn c).map String.ofList

def readRegister? (s : String) : Option Register :=
  [.rax, .r10, .rbp, .rsp].find? fun r => r.text = s

def readOperand? (s : String) : Option Operand :=
  match pieces '(' s, pieces '$' s with
  | [offset, "%rbp)"], _ => (Decimal.readInt32? offset.toList).map .frame
  | _, ["", value] => (Decimal.readInt32? value.toList).map .imm
  | _, _ => ([.ax, .r10].find? fun r => r.assembly = s).map .reg

def readSingle? (mnemonic operand : String) : Option Instr :=
  match mnemonic with
  | "\tpushq" => (readRegister? operand).map .pushq
  | "\tpopq" => (readRegister? operand).map .popq
  | "\tnegl" => (readOperand? operand).map (.unary .neg)
  | "\tnotl" => (readOperand? operand).map (.unary .not)
  | _ => none

def readPair? (mnemonic src dest : String) : Option Instr :=
  match mnemonic with
  | "\tmovq" => do return .movq (← readRegister? src) (← readRegister? dest)
  | "\tmovl" => do return .movl (← readOperand? src) (← readOperand? dest)
  | "\tsubq" => do
    let .imm amount ← readOperand? src | none
    return .subq amount (← readRegister? dest)
  | _ => none

/-- Of two operands the first has a comma behind it. -/
def readLine? (line : String) : Option Instr :=
  match pieces ' ' line with
  | ["\tret"] => some .ret
  | [mnemonic, operand] => readSingle? mnemonic operand
  | [mnemonic, first, dest] =>
    match pieces ',' first with
    | [src, ""] => readPair? mnemonic src dest
    | _ => none
  | _ => none

def readCode? : List String → Option (List Instr)
  | [] => some []
  | line :: lines => do return (← readLine? line) :: (← readCode? lines)

/-- The name and the code of a listing. The name stands behind the directive of the first line; the
label and the note for the linker say nothing new. -/
def readListing? (text : String) : Option (String × List Instr) :=
  match pieces '\n' text with
  | directive :: _ :: lines => do
    let code ← readCode? lines.dropLast.dropLast
    return (String.ofList (directive.toList.drop "\t.globl ".toList.length), code)
  | _ => none

def Operand.machine : Operand → Machine.Operand
  | imm value => .imm value
  | reg register => .reg register
  | frame offset => .slot offset

/-- The instructions of a program, from those that they stand for. -/
def regroup? : List Instr → Option (List Machine.Instr)
  | [] => some []
  | .movl src dest :: code => (regroup? code).map (.mov src.machine dest.machine :: ·)
  | .unary op dest :: code => (regroup? code).map (.unary op dest.machine :: ·)
  | .subq amount .rsp :: code => (regroup? code).map (.allocate amount :: ·)
  | .movq .rbp .rsp :: .popq .rbp :: .ret :: code => (regroup? code).map (.ret :: ·)
  | _ => none

/-- The program that has that text. -/
def readProgram? (text : String) : Option Machine.Program := do
  let (name, .pushq .rbp :: .movq .rsp .rbp :: body) ← readListing? text | none
  return { name := name, code := ← regroup? body }

theorem pieces_append {c : Char} {a : String} (ha : c ∉ a.toList) (b : String) :
    pieces c (a ++ String.singleton c ++ b) = a :: pieces c b := by
  simp only [pieces, String.toList_append, String.toList_singleton, List.append_assoc,
    List.singleton_append]
  rw [List.splitOn_append_cons_self_of_not_mem ha, List.map_cons, String.ofList_toList]

theorem pieces_of_not_mem {c : Char} {s : String} (h : c ∉ s.toList) : pieces c s = [s] := by
  rw [pieces, List.splitOn_eq_singleton h, List.map_singleton, String.ofList_toList]

theorem readRegister?_text (r : Register) : readRegister? r.text = some r := by
  cases r <;> decide

theorem readOperand?_text (o : Operand) : readOperand? o.text = some o := by
  cases o with
  | imm value =>
    have hparen : '(' ∉ (Operand.imm value).text.toList := by
      have hvalue := not_mem_ofInt32 (c := '(') (by decide) (by decide) value
      simp [Operand.text, hvalue]
    have hpieces : pieces '$' (Operand.imm value).text = ["", Decimal.ofInt32 value] := by
      have hvalue := not_mem_ofInt32 (c := '$') (by decide) (by decide) value
      exact (pieces_append (a := "") (by decide) _).trans (by rw [pieces_of_not_mem hvalue])
    simp only [readOperand?, pieces_of_not_mem hparen, hpieces, readInt32?_ofInt32]
    rfl
  | frame offset =>
    have hpieces : pieces '(' (Operand.frame offset).text = [Decimal.ofInt32 offset, "%rbp)"] := by
      have hoffset := not_mem_ofInt32 (c := '(') (by decide) (by decide) offset
      have hsplit : (Operand.frame offset).text =
          Decimal.ofInt32 offset ++ String.singleton '(' ++ "%rbp)" := by
        rw [String.append_assoc]
        rfl
      rw [hsplit, pieces_append hoffset]
      rfl
    simp only [readOperand?, hpieces, readInt32?_ofInt32]
    rfl
  | reg register => cases register <;> decide

theorem readLine?_single (mnemonic : String) {operand : String} (hmnemonic : ' ' ∉ mnemonic.toList)
    (hoperand : ∀ c ∈ separators, c ∉ operand.toList) :
    readLine? (mnemonic ++ " " ++ operand) = readSingle? mnemonic operand := by
  have hwords : pieces ' ' (mnemonic ++ " " ++ operand) = [mnemonic, operand] := by
    rw [show " " = String.singleton ' ' from rfl, pieces_append hmnemonic,
      pieces_of_not_mem (hoperand ' ' (by decide))]
  simp only [readLine?, hwords]

theorem readLine?_pair (mnemonic : String) {src dest : String}
    (hmnemonic : ' ' ∉ mnemonic.toList) (hsrc : ∀ c ∈ separators, c ∉ src.toList)
    (hdest : ∀ c ∈ separators, c ∉ dest.toList) :
    readLine? (mnemonic ++ " " ++ src ++ ", " ++ dest) = readPair? mnemonic src dest := by
  have hwords : pieces ' ' (mnemonic ++ " " ++ src ++ ", " ++ dest) =
      [mnemonic, src ++ ",", dest] := by
    have hsplit : mnemonic ++ " " ++ src ++ ", " ++ dest =
        mnemonic ++ String.singleton ' ' ++ (src ++ "," ++ String.singleton ' ' ++ dest) := by
      simp only [String.append_assoc]
      rfl
    have hfirst : ' ' ∉ (src ++ ",").toList := by simp [hsrc ' ' (by decide)]
    rw [hsplit, pieces_append hmnemonic, pieces_append hfirst,
      pieces_of_not_mem (hdest ' ' (by decide))]
  have hcomma : pieces ',' (src ++ ",") = [src, ""] := by
    have hsplit : src ++ "," = src ++ String.singleton ',' ++ "" := by
      rw [String.append_empty]
      rfl
    rw [hsplit, pieces_append (hsrc ',' (by decide))]
    rfl
  simp only [readLine?, hwords, hcomma]

/-- A line is read as the instruction that it is the line of. -/
theorem readLine?_line (i : Instr) : readLine? i.line = some i := by
  cases i with
  | pushq src =>
    refine (readLine?_single "\tpushq" (by decide) src.not_mem_text).trans ?_
    simp [readSingle?, readRegister?_text]
  | popq dest =>
    refine (readLine?_single "\tpopq" (by decide) dest.not_mem_text).trans ?_
    simp [readSingle?, readRegister?_text]
  | movq src dest =>
    refine (readLine?_pair "\tmovq" (by decide) src.not_mem_text dest.not_mem_text).trans ?_
    simp [readPair?, readRegister?_text]
  | subq amount dest =>
    have hline : (Instr.subq amount dest).line =
        "\tsubq" ++ " " ++ (Operand.imm amount).text ++ ", " ++ dest.text := by
      simp only [Instr.line, Operand.text, ← String.append_assoc]
      rfl
    rw [hline, readLine?_pair _ (by decide) (Operand.imm amount).not_mem_text dest.not_mem_text]
    simp [readPair?, readOperand?_text, readRegister?_text]
  | movl src dest =>
    refine (readLine?_pair "\tmovl" (by decide) src.not_mem_text dest.not_mem_text).trans ?_
    simp [readPair?, readOperand?_text]
  | unary op dest =>
    cases op with
    | neg =>
      refine (readLine?_single "\tnegl" (by decide) dest.not_mem_text).trans ?_
      simp [readSingle?, readOperand?_text]
    | not =>
      refine (readLine?_single "\tnotl" (by decide) dest.not_mem_text).trans ?_
      simp [readSingle?, readOperand?_text]
  | ret => decide

theorem readCode?_lines (code : List Instr) : readCode? (code.map Instr.line) = some code := by
  induction code with
  | nil => rfl
  | cons i code ih =>
    simp only [List.map_cons, readCode?, readLine?_line, ih]
    rfl

theorem Instr.newline_not_mem_line (i : Instr) : '\n' ∉ i.line.toList := by
  have hregister : ∀ r : Register, '\n' ∉ r.text.toList := fun r => r.not_mem_text _ (by decide)
  have hoperand : ∀ o : Operand, '\n' ∉ o.text.toList := fun o => o.not_mem_text _ (by decide)
  cases i with
  | pushq src => simp [line, hregister]
  | popq dest => simp [line, hregister]
  | movq src dest => simp [line, hregister]
  | subq amount dest =>
    have hamount := not_mem_ofInt32 (c := '\n') (by decide) (by decide) amount
    simp [line, hregister, hamount]
  | movl src dest => simp [line, hoperand]
  | unary op dest => cases op <;> simp [line, Machine.Op.assembly, hoperand]
  | ret => simp [line]

theorem pieces_codeText (code : List Instr) (rest : String) :
    pieces '\n' (codeText code ++ rest) = code.map Instr.line ++ pieces '\n' rest := by
  induction code with
  | nil => rw [codeText, String.empty_append, List.map_nil, List.nil_append]
  | cons i code ih =>
    have hsplit : codeText (i :: code) ++ rest =
        i.line ++ String.singleton '\n' ++ (codeText code ++ rest) := by
      rw [codeText, String.append_assoc]
      rfl
    rw [hsplit, pieces_append i.newline_not_mem_line, ih, List.map_cons, List.cons_append]

/-- Different instructions have different texts, since what is read is the same. -/
theorem codeText_injective {a b : List Instr} (h : codeText a = codeText b) : a = b := by
  have hlines : a.map Instr.line = b.map Instr.line := by
    have hpieces := pieces_codeText a ""
    rw [h, pieces_codeText b ""] at hpieces
    exact (List.append_cancel_right hpieces).symm
  have hread := readCode?_lines a
  rw [hlines, readCode?_lines b] at hread
  exact (Option.some.inj hread).symm

/-- Exactly one list of instructions has the text of a program that has one. -/
theorem assembly_eq_ok_listing_iff {p : Machine.Program} {code : List Instr} :
    p.assembly = .ok (listing p.name code) ↔ instructions p = .ok code := by
  rw [assembly_eq_listing]
  cases instructions p with
  | error u => simp [Except.map]
  | ok code' =>
    simp only [Except.map, Except.ok.injEq]
    refine ⟨fun h => ?_, fun h => congrArg _ h⟩
    simp only [listing] at h
    exact codeText_injective ((String.append_right_inj _).mp ((String.append_left_inj _).mp h))

theorem readListing?_listing {name : String} (hname : '\n' ∉ name.toList) (code : List Instr) :
    readListing? (listing name code) = some (name, code) := by
  have hsplit : listing name code = "\t.globl " ++ name ++ String.singleton '\n' ++
      (name ++ ":" ++ String.singleton '\n' ++ (codeText code ++ Machine.stackNote)) := by
    simp only [listing, String.append_assoc]
    rfl
  have hdirective : '\n' ∉ ("\t.globl " ++ name).toList := by simp [hname]
  have hlabel : '\n' ∉ (name ++ ":").toList := by simp [hname]
  obtain ⟨note, hnote⟩ : ∃ note, pieces '\n' Machine.stackNote = [note, ""] :=
    ⟨".section .note.GNU-stack,\"\",@progbits", by decide⟩
  have hpieces : pieces '\n' (listing name code) =
      ("\t.globl " ++ name) :: (name ++ ":") :: (code.map Instr.line ++ [note, ""]) := by
    rw [hsplit, pieces_append hdirective, pieces_append hlabel, pieces_codeText, hnote]
  have hlines : (code.map Instr.line ++ [note, ""]).dropLast.dropLast = code.map Instr.line := by
    simp
  have hdrop :
      String.ofList (("\t.globl " ++ name).toList.drop "\t.globl ".toList.length) = name := by
    rw [String.toList_append, List.drop_left' rfl, String.ofList_toList]
  simp only [readListing?, hpieces, hlines, readCode?_lines, hdrop]
  rfl

theorem operandOf_eq_ok_iff {o : Machine.Operand} {o' : Operand} :
    operandOf o = .ok o' ↔ o = o'.machine := by
  cases o <;> cases o' <;> simp [operandOf, Operand.machine]

/-- The instructions that one instruction stands for, before any others. -/
theorem regroup?_expand {i : Machine.Instr} {head : List Instr} (h : expand i = .ok head)
    (tail : List Instr) : regroup? (head ++ tail) = (regroup? tail).map (i :: ·) := by
  cases i with
  | mov src dest =>
    rw [expand] at h
    cases hsrc : operandOf src with
    | error u => rw [hsrc] at h; cases h
    | ok s =>
      cases hdest : operandOf dest with
      | error u => rw [hsrc, hdest] at h; cases h
      | ok d =>
        rw [hsrc, hdest] at h
        cases h
        rw [operandOf_eq_ok_iff.mp hsrc, operandOf_eq_ok_iff.mp hdest]
        rfl
  | unary op dest =>
    rw [expand] at h
    cases hdest : operandOf dest with
    | error u => rw [hdest] at h; cases h
    | ok d =>
      rw [hdest] at h
      cases h
      rw [operandOf_eq_ok_iff.mp hdest]
      rfl
  | allocate amount => cases h; rfl
  | ret => cases h; rfl

theorem regroup?_expandAll {code : List Machine.Instr} {body : List Instr}
    (h : expandAll code = .ok body) : regroup? body = some code := by
  induction code generalizing body with
  | nil => cases h; rfl
  | cons i code ih =>
    obtain ⟨head, tail, hhead, htail, rfl⟩ := expandAll_cons_eq_ok_iff.mp h
    rw [regroup?_expand hhead, ih htail, Option.map_some]

/-- The text of a program is read as that program. -/
theorem readProgram?_assembly {p : Machine.Program} {text : String} (h : p.assembly = .ok text)
    (hname : '\n' ∉ p.name.toList) : readProgram? text = some p := by
  rw [assembly_eq_listing, instructions] at h
  cases hbody : expandAll p.code with
  | error u => rw [hbody] at h; cases h
  | ok body =>
    rw [hbody] at h
    cases h
    simp [readProgram?, readListing?_listing hname, regroup?_expandAll hbody]

end UnaryC.X86

namespace UnaryC.Machine

/-- The text of a program, if its name is on one line, determines the program: there is a reader
that gets it back. A program has no text exactly if it has a pseudo-register, and then the first one
is named. -/
theorem assembly_determines_program :
    (∀ p q : Program, (∀ x, .pseudo x ∉ p.operands) → (∀ x, .pseudo x ∉ q.operands) →
      '\n' ∉ p.name.toList → '\n' ∉ q.name.toList → p.assembly = q.assembly → p = q) ∧
    (∀ p : Program, (∀ x, .pseudo x ∉ p.operands) → '\n' ∉ p.name.toList →
      ∃ text, p.assembly = .ok text ∧ X86.readProgram? text = some p) ∧
    (∀ p : Program, (∃ u, p.assembly = .error u) ↔ ∃ x, .pseudo x ∈ p.operands) ∧
    ∀ (p : Program) (u : Unplaced), p.assembly = .error u →
      u.message =
        "Internal error: pseudo-register '" ++ u.name ++ "' reached emission unresolved" ∧
      ∃ before after, p.operands = before ++ .pseudo u.name :: after ∧
        ∀ x, .pseudo x ∉ before := by
  have hread : ∀ p : Program, (∀ x, .pseudo x ∉ p.operands) → '\n' ∉ p.name.toList →
      ∃ text, p.assembly = .ok text ∧ X86.readProgram? text = some p := by
    intro p hplaced hname
    obtain ⟨text, htext⟩ := exists_assembly_iff.mpr hplaced
    exact ⟨text, htext, X86.readProgram?_assembly htext hname⟩
  refine ⟨fun p q hp hq hpname hqname h => ?_, hread, fun p => ?_, fun p u h => ⟨rfl, ?_⟩⟩
  · obtain ⟨text, htext, hptext⟩ := hread p hp hpname
    obtain ⟨text', htext', hqtext⟩ := hread q hq hqname
    rw [htext, htext'] at h
    cases h
    rw [hptext] at hqtext
    exact Option.some.inj hqtext
  · have htext := exists_assembly_iff (p := p)
    cases hp : p.assembly <;> simpa [hp] using htext
  · have hfirst := (p.blames_assembly u).mp h
    obtain ⟨before, o, after, hsplit, ho, hbefore⟩ := List.findSome?_eq_some_iff.mp hfirst
    cases o with
    | pseudo x =>
      cases ho
      exact ⟨before, after, hsplit, fun y hy => by cases hbefore _ hy⟩
    | _ => cases ho

/-- The least number, a negative frame, two returns and code behind them, under a name that looks
like a label and an instruction. -/
def spelled : Program :=
  { name := "f:\tret"
    code := [.allocate (-8), .mov (.imm (-2147483648)) (.slot (-4)),
      .mov (.slot (-4)) (.reg .r10), .mov (.reg .r10) (.reg .ax), .unary .not (.reg .ax), .ret,
      .ret, .unary .neg (.imm 3)] }

/-- Two pseudo-registers, the first of them as a destination. -/
def unfinished : Program :=
  { name := "f", code := [.ret, .mov (.imm 1) (.pseudo "b"), .mov (.pseudo "a") (.pseudo "b")] }

theorem assembly_determines_program_spelled :
    (∀ x, .pseudo x ∉ spelled.operands) ∧ '\n' ∉ spelled.name.toList ∧
    (∃ text, spelled.assembly = .ok text ∧ X86.readProgram? text = some spelled) ∧
    (∀ q : Program, (∀ x, .pseudo x ∉ q.operands) → '\n' ∉ q.name.toList →
      q.assembly = spelled.assembly → q = spelled) ∧
    ∃ u, unfinished.assembly = .error u ∧
      u.message = "Internal error: pseudo-register 'b' reached emission unresolved" := by
  have hplaced : ∀ x, .pseudo x ∉ spelled.operands := by
    intro x
    simp [Program.operands, spelled, Instr.operands]
  have hname : '\n' ∉ spelled.name.toList := by decide
  obtain ⟨hinj, hread, hfails, hfirst⟩ := assembly_determines_program
  obtain ⟨u, hu⟩ := (hfails unfinished).mpr ⟨"a", by decide⟩
  have hb : u = ⟨"b"⟩ := Except.error.inj (hu.symm.trans (by decide +kernel))
  refine ⟨hplaced, hname, hread spelled hplaced hname,
    fun q hq hqname h => hinj q spelled hq hplaced hqname hname h, u, hu, ?_⟩
  rw [(hfirst unfinished u hu).1, hb]
  decide +kernel

end UnaryC.Machine
