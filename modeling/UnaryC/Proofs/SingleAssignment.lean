import UnaryC.Proofs.Lowering
import UnaryC.Proofs.Numeral

/-!
# Lowered code assigns every temporary once

Lowering makes one assignment for each operator, from the inside out, and then the return. The
temporaries are numbered in the order in which they are assigned, and different numbers are
different names, so no temporary is assigned twice. What an assignment reads was assigned before it.
-/
namespace UnaryC.Tac

theorem tempName_injective : Function.Injective tempName := by
  intro m n h
  exact Text.Decimal.ofNat_injective ((String.append_right_inj _).mp h)

theorem map_op_assignments (names : NameSupply) (e : Tree.Expr) :
    (assignments names e).map Assignment.op = e.ops.reverse := by
  induction e with
  | constant value line => rfl
  | unary op operand line ih =>
    rw [assignments, List.map_append, ih, Tree.Expr.ops, List.reverse_cons]
    rfl

/-- Lowered code is one assignment for each operator, innermost first, and then the return. The
temporaries are numbered from 0 in order and all different, whatever is read has been assigned
before, and the code returns the value of the expression from any valuation. -/
theorem lower_singleAssignment (p : Tree.Program) :
    ∃ steps value, (lower p).code = steps.map Assignment.instr ++ [.ret value] ∧
      steps.length = p.function.body.value.ops.length ∧
      steps.map Assignment.op = p.function.body.value.ops.reverse ∧
      steps.map Assignment.dest =
        (List.range steps.length).map (fun k => "tmp." ++ Text.Decimal.ofNat k) ∧
      (steps.map Assignment.dest).Nodup ∧
      ReadsAssigned steps ∧ (∀ x, value = .var x → x ∈ steps.map Assignment.dest) ∧
      ∀ vars, ∃ vars', run vars (lower p).code = .returned p.eval vars' := by
  let e := p.function.body.value
  have hdest : (assignments {} e).map Assignment.dest =
      (List.range e.ops.length).map tempName := by
    rw [map_dest_assignments, List.range_eq_range']
  have hlength : (assignments {} e).length = e.ops.length := by
    rw [← List.length_map, map_op_assignments, List.length_reverse]
  refine ⟨assignments {} e, (lowerExpr {} e).2.1, code_lower p, hlength, map_op_assignments {} e,
    ?_, ?_, readsAssigned_assignments {} e, fun x => value_mem_assignments {} e, run_lower p⟩
  · rw [hlength]
    exact hdest
  · rw [hdest]
    exact List.nodup_range.map tempName_injective

/-- Three operators on the least constant, in a function with the name of a temporary. -/
def deep : Tree.Program :=
  let value : Tree.Expr :=
    .unary .negate (.unary .complement (.unary .negate (.constant (-2147483648) 3) 2) 2) 1
  { function := { name := "tmp.0", body := { value := value, line := 1 }, line := 1 }, line := 1 }

theorem lower_singleAssignment_deep :
    ∃ steps value, (lower deep).code = steps.map Assignment.instr ++ [.ret value] ∧
      steps.map Assignment.op = [.negate, .complement, .negate] ∧
      steps.map Assignment.dest = ["tmp.0", "tmp.1", "tmp.2"] ∧ ReadsAssigned steps ∧
      value = .var "tmp.2" ∧ "tmp.2" ∈ steps.map Assignment.dest ∧
      ∀ vars, ∃ vars', run vars (lower deep).code = .returned (-2147483647) vars' := by
  obtain ⟨steps, value, hcode, hlength, hop, hdest, -, hreads, hvalue, hrun⟩ :=
    lower_singleAssignment deep
  have hlast : value = .var "tmp.2" := by
    have hret := congrArg List.getLast? hcode
    rw [List.getLast?_concat, show (lower deep).code.getLast? = some (.ret (.var "tmp.2")) by
      decide +kernel] at hret
    cases hret
    rfl
  have heval : deep.eval = -2147483647 := by decide
  rw [heval] at hrun
  refine ⟨steps, value, hcode, hop, ?_, hreads, hlast, hvalue _ hlast, hrun⟩
  rw [hdest, hlength]
  decide +kernel

end UnaryC.Tac
