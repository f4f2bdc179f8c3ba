import UnaryC.Proofs.Layout
import UnaryC.Proofs.Rows
import UnaryC.Proofs.SingleAssignment
import UnaryC.Tac.Listing

/-!
# The listing of lowered code tells the code

A listing writes variables and constants alike and an operator directly before a number with a sign,
so of three-address code in general it does not tell the code. Of lowered code it does. The name can
be any text, and therefore the listing is read from its end: the return shows a number, or the last
temporary and with it how many assignments stand before it.
-/
namespace UnaryC.Tac

open Text

/-- A row of a listing without its line feed. -/
def Instr.line : Instr → String
  | ret value => "\tReturn(" ++ value.text ++ ")"
  | unary op src dest => "\t" ++ dest.text ++ " = " ++ opSign op ++ src.text

theorem Instr.listing_eq (i : Instr) : i.listing = i.line ++ "\n" := by
  cases i with
  | ret value =>
    rw [listing, line, show ")\n" = ")" ++ "\n" from rfl, ← String.append_assoc]
  | unary op src dest => rfl

theorem listing_eq_ofRows (p : Program) :
    p.listing = p.name ++ ":" ++ "\n" ++ ofRows (p.code.map Instr.line) := by
  have hcode : p.code.map Instr.listing = (p.code.map Instr.line).map (· ++ "\n") := by
    simp [Instr.listing_eq]
  rw [Program.listing, hcode, ← ofRows, show ":\n" = ":" ++ "\n" from rfl, ← String.append_assoc]

theorem newline_not_mem_tempName (n : Nat) : '\n' ∉ (tempName n).toList := by
  have hdigits : '\n' ∉ (Decimal.ofNat n).toList := Decimal.not_mem_ofNat (by decide) n
  simp [tempName, hdigits]

theorem text_constant (names : NameSupply) (value : Int32) (line : Nat) :
    (lowerExpr names (.constant value line)).2.1.text = Decimal.ofInt32 value :=
  rfl

theorem text_unary (names : NameSupply) (op : UnaryOp) (operand : Tree.Expr) (line : Nat) :
    (lowerExpr names (.unary op operand line)).2.1.text =
      tempName (names.issued + operand.ops.length) := by
  rw [← lowerExpr_issued]
  rfl

theorem newline_not_mem_value (names : NameSupply) (e : Tree.Expr) :
    '\n' ∉ (lowerExpr names e).2.1.text.toList := by
  cases e with
  | constant value line =>
    rw [text_constant]
    exact Decimal.not_mem_ofInt32 (by decide) (by decide) value
  | unary op operand line =>
    rw [text_unary]
    exact newline_not_mem_tempName _

/-- The rows of the assignments of an expression. -/
def assignmentLines (names : NameSupply) (e : Tree.Expr) : List String :=
  (assignments names e).map fun a => a.instr.line

theorem assignmentLines_unary (names : NameSupply) (op : UnaryOp) (operand : Tree.Expr)
    (line : Nat) :
    assignmentLines names (.unary op operand line) = assignmentLines names operand ++
      ["\t" ++ tempName (names.issued + operand.ops.length) ++ " = " ++
        (opSign op ++ (lowerExpr names operand).2.1.text)] := by
  rw [assignmentLines, assignments, List.map_append, ← lowerExpr_issued, ← String.append_assoc]
  rfl

theorem newline_not_mem_assignmentLines (names : NameSupply) (e : Tree.Expr) :
    ∀ l ∈ assignmentLines names e, '\n' ∉ l.toList := by
  induction e with
  | constant value line => simp [assignmentLines, assignments]
  | unary op operand line ih =>
    have hsrc := newline_not_mem_value names operand
    have hdest := newline_not_mem_tempName (names.issued + operand.ops.length)
    have hsign : '\n' ∉ (opSign op).toList := by cases op <;> decide
    rw [assignmentLines_unary]
    exact List.forall_mem_append.mpr
      ⟨ih, List.forall_mem_singleton.mpr (by simp [hsrc, hdest, hsign])⟩

/-- The rows of a listing: those of the name, one for each assignment, and that of the return. -/
theorem rows_listing_lower (p : Tree.Program) :
    rows (lower p).listing =
      rows (p.function.name ++ ":" ++ "\n") ++ assignmentLines {} p.function.body.value ++
        ["\tReturn(" ++ (lowerExpr {} p.function.body.value).2.1.text ++ ")"] := by
  have hcode : (lower p).code.map Instr.line = assignmentLines {} p.function.body.value ++
      ["\tReturn(" ++ (lowerExpr {} p.function.body.value).2.1.text ++ ")"] := by
    rw [code_lower, List.map_append, List.map_map]
    rfl
  have hlines : ∀ l ∈ (lower p).code.map Instr.line, '\n' ∉ l.toList := by
    have hvalue := newline_not_mem_value {} p.function.body.value
    rw [hcode]
    exact List.forall_mem_append.mpr ⟨newline_not_mem_assignmentLines {} _,
      List.forall_mem_singleton.mpr (by simp [hvalue])⟩
  rw [listing_eq_ofRows, rows_append_ofRows _ hlines, hcode, ← List.append_assoc]
  rfl

theorem ofInt32_ne_tempName (value : Int32) (n : Nat) : Decimal.ofInt32 value ≠ tempName n := by
  intro h
  have ht : 't' ∉ (Decimal.ofInt32 value).toList :=
    Decimal.not_mem_ofInt32 (by decide) (by decide) value
  rw [h] at ht
  simp [tempName] at ht

/-- The text of the value says how many operators there are. -/
theorem length_ops_of_text {names : NameSupply} {e e' : Tree.Expr}
    (h : (lowerExpr names e).2.1.text = (lowerExpr names e').2.1.text) :
    e.ops.length = e'.ops.length := by
  cases e with
  | constant value line =>
    cases e' with
    | constant value' line' => rfl
    | unary op' operand' line' =>
      rw [text_constant, text_unary] at h
      exact absurd h (ofInt32_ne_tempName value _)
  | unary op operand line =>
    cases e' with
    | constant value' line' =>
      rw [text_constant, text_unary] at h
      exact absurd h.symm (ofInt32_ne_tempName value' _)
    | unary op' operand' line' =>
      rw [text_unary, text_unary] at h
      have hnumber := tempName_injective h
      rw [Tree.Expr.ops, Tree.Expr.ops, List.length_cons, List.length_cons]
      omega

theorem length_assignmentLines (names : NameSupply) (e : Tree.Expr) :
    (assignmentLines names e).length = e.ops.length := by
  rw [assignmentLines, List.length_map, ← List.length_map (f := Assignment.op),
    map_op_assignments, List.length_reverse]

theorem opSign_append_inj {op op' : UnaryOp} {s s' : String}
    (h : opSign op ++ s = opSign op' ++ s') : op = op' ∧ s = s' := by
  have hlength : ∀ op, (opSign op).toList.length = 1 := by
    intro op
    cases op <;> simp [opSign]
  have hchars := congrArg String.toList h
  rw [String.toList_append, String.toList_append] at hchars
  obtain ⟨hsign, hrest⟩ := List.append_inj hchars (by rw [hlength, hlength])
  refine ⟨?_, String.toList_inj.mp hrest⟩
  cases op <;> cases op' <;> simp_all [opSign]

/-- Assignments and value with the same text come from expressions that differ in lines only. -/
theorem alike_of_assignmentLines {names : NameSupply} {e e' : Tree.Expr}
    (hlines : assignmentLines names e = assignmentLines names e')
    (hvalue : (lowerExpr names e).2.1.text = (lowerExpr names e').2.1.text) : e.Alike e' := by
  have hlength := length_ops_of_text hvalue
  induction e generalizing e' with
  | constant value line =>
    cases e' with
    | constant value' line' =>
      rw [text_constant, text_constant] at hvalue
      exact ⟨rfl, Decimal.ofInt32_injective hvalue⟩
    | unary op' operand' line' => cases hlength
  | unary op operand line ih =>
    cases e' with
    | constant value' line' => cases hlength
    | unary op' operand' line' =>
      rw [assignmentLines_unary, assignmentLines_unary, ← Nat.succ.inj hlength] at hlines
      obtain ⟨hfront, hlast⟩ := List.append_inj' hlines rfl
      have hright := (String.append_right_inj _).mp (List.cons.inj hlast).1
      obtain ⟨rfl, hsrc⟩ := opSign_append_inj hright
      obtain ⟨hops, hbase⟩ := ih hfront hsrc (length_ops_of_text hsrc)
      exact ⟨congrArg (op :: ·) hops, hbase⟩

/-- Two programs have the same listing of lowered code exactly if they have the same name, the same
operators in the same order and the same constant. -/
theorem listing_lower_eq_iff (p q : Tree.Program) :
    (lower p).listing = (lower q).listing ↔
      p.function.name = q.function.name ∧
      p.function.body.value.ops = q.function.body.value.ops ∧
      p.function.body.value.base = q.function.body.value.base := by
  constructor
  · intro h
    have hrows := congrArg rows h
    rw [rows_listing_lower, rows_listing_lower] at hrows
    obtain ⟨hfront, hlast⟩ := List.append_inj' hrows rfl
    have hreturn := (String.append_left_inj _).mp (List.cons.inj hlast).1
    have hvalue := (String.append_right_inj _).mp hreturn
    obtain ⟨hname, hlines⟩ := List.append_inj' hfront
      (by rw [length_assignmentLines, length_assignmentLines, length_ops_of_text hvalue])
    obtain ⟨hops, hbase⟩ := alike_of_assignmentLines hlines hvalue
    exact ⟨(String.append_left_inj _).mp (rows_line_injective hname), hops, hbase⟩
  · rintro ⟨hname, hops, hbase⟩
    rw [lower_congr ⟨hname, hops, hbase⟩]

-- Code that is not lowered can have a variable with the name of a number.
example :
    Program.listing { name := "f", code := [.unary .negate (.constant (-1)) (.var "a")] } =
      Program.listing { name := "f", code := [.unary .negate (.var "-1") (.var "a")] } := by
  decide +kernel

end UnaryC.Tac
