import Mathlib.Data.Finset.Image
import UnaryC.Proofs.Selection
import UnaryC.Tac.Lowering

/-!
# Lowering keeps the value of an expression

The code for an operand runs before the operator that uses it, so the value of the operand is where
lowering says it is when the operator reads it. No temporary is read after it is overwritten,
whatever the names are; how many there are matters for the frame only. Lowered code is a list of
assignments, one for each operator, and then a return.
-/
namespace UnaryC.Tac

theorem lowerExpr_unary (names : NameSupply) (op : UnaryOp) (operand : Tree.Expr) (line : Nat) :
    lowerExpr names (.unary op operand line) =
      ((lowerExpr names operand).1 ++ [.unary op (lowerExpr names operand).2.1
          (.var (tempName (lowerExpr names operand).2.2.issued))],
        .var (tempName (lowerExpr names operand).2.2.issued),
        { issued := (lowerExpr names operand).2.2.issued + 1 }) :=
  rfl

/-- An expression takes one name for each of its operators. -/
theorem lowerExpr_issued (names : NameSupply) (e : Tree.Expr) :
    (lowerExpr names e).2.2.issued = names.issued + e.ops.length := by
  induction e with
  | constant value line => rfl
  | unary op operand line ih =>
    rw [lowerExpr_unary, Tree.Expr.ops, List.length_cons]
    simp only [ih]
    omega

/-- The lowered expression runs to its end, and the value it hands over is then that of the
expression. -/
theorem run_lowerExpr (names : NameSupply) (e : Tree.Expr) (vars : Valuation) :
    ∃ vars', (∀ rest, run vars ((lowerExpr names e).1 ++ rest) = run vars' rest) ∧
      (lowerExpr names e).2.1.read vars' = e.eval := by
  induction e with
  | constant value line => exact ⟨vars, fun _ => rfl, rfl⟩
  | unary op operand line ih =>
    obtain ⟨vars', hrun, hvalue⟩ := ih
    refine ⟨vars'.set (tempName (lowerExpr names operand).2.2.issued) (op.apply operand.eval),
      fun rest => ?_, ?_⟩
    · rw [lowerExpr_unary, List.append_assoc, hrun, ← hvalue]
      rfl
    · rw [lowerExpr_unary]
      simp [Value.read, Tree.Expr.eval]

/-- A lowered function returns the value of its expression, whatever the variables held. -/
theorem run_lower (p : Tree.Program) (vars : Valuation) :
    ∃ vars', run vars (lower p).code = .returned p.eval vars' := by
  obtain ⟨vars', hrun, hvalue⟩ := run_lowerExpr {} p.function.body.value vars
  refine ⟨vars', ?_⟩
  change run vars ((lowerExpr {} p.function.body.value).1 ++
    [.ret (lowerExpr {} p.function.body.value).2.1]) = _
  rw [hrun]
  simp only [run, hvalue]
  rfl

/-- An instruction that applies an operator and puts the result into the variable `dest`. -/
structure Assignment where
  op : UnaryOp
  src : Value
  dest : String
deriving DecidableEq, Repr

def Assignment.instr (a : Assignment) : Instr :=
  .unary a.op a.src (.var a.dest)

/-- The assignments that lowering makes of an expression. -/
def assignments (names : NameSupply) : Tree.Expr → List Assignment
  | .constant _ _ => []
  | .unary op operand _ =>
    assignments names operand ++
      [{ op := op
         src := (lowerExpr names operand).2.1
         dest := tempName (lowerExpr names operand).2.2.issued }]

theorem lowerExpr_eq_assignments (names : NameSupply) (e : Tree.Expr) :
    (lowerExpr names e).1 = (assignments names e).map Assignment.instr := by
  induction e with
  | constant value line => rfl
  | unary op operand line ih =>
    rw [lowerExpr_unary, ih, assignments, List.map_append]
    rfl

theorem code_lower (p : Tree.Program) :
    (lower p).code = (assignments {} p.function.body.value).map Assignment.instr ++
      [.ret (lowerExpr {} p.function.body.value).2.1] := by
  rw [← lowerExpr_eq_assignments]
  rfl

/-- The temporaries are those that the supply hands out next, in order. -/
theorem map_dest_assignments (names : NameSupply) (e : Tree.Expr) :
    (assignments names e).map Assignment.dest =
      (List.range' names.issued e.ops.length).map tempName := by
  induction e with
  | constant value line => rfl
  | unary op operand line ih =>
    rw [assignments, List.map_append, ih, Tree.Expr.ops, List.length_cons, List.range'_concat,
      List.map_append, lowerExpr_issued, Nat.one_mul]
    rfl

/-- The value of the expression is a constant, or in a variable that has been assigned. -/
theorem value_mem_assignments (names : NameSupply) (e : Tree.Expr) {x : String}
    (hx : (lowerExpr names e).2.1 = .var x) : x ∈ (assignments names e).map Assignment.dest := by
  cases e with
  | constant value line => cases hx
  | unary op operand line =>
    rw [lowerExpr_unary] at hx
    cases hx
    simp [assignments]

/-- A variable that an assignment reads has been assigned before. -/
def ReadsAssigned (steps : List Assignment) : Prop :=
  ∀ before a after, steps = before ++ a :: after →
    ∀ x, a.src = .var x → x ∈ before.map Assignment.dest

theorem readsAssigned_nil : ReadsAssigned [] := by
  intro before a after h
  simp at h

theorem ReadsAssigned.concat {steps : List Assignment} (h : ReadsAssigned steps) {a : Assignment}
    (ha : ∀ x, a.src = .var x → x ∈ steps.map Assignment.dest) : ReadsAssigned (steps ++ [a]) := by
  intro before b after hsplit
  rcases List.eq_nil_or_concat after with rfl | ⟨after', c, rfl⟩
  · obtain ⟨rfl, hb⟩ := List.append_inj' hsplit rfl
    cases hb
    exact ha
  · rw [List.concat_eq_append, ← List.cons_append, ← List.append_assoc] at hsplit
    exact h before b after' (List.append_inj' hsplit rfl).1

theorem readsAssigned_assignments (names : NameSupply) (e : Tree.Expr) :
    ReadsAssigned (assignments names e) := by
  induction e with
  | constant value line => exact readsAssigned_nil
  | unary op operand line ih => exact ih.concat fun x => value_mem_assignments names operand

/-- The variables of lowered code are those that it assigns. -/
theorem vars_lower_subset (p : Tree.Program) :
    (lower p).vars ⊆ (Finset.range p.function.body.value.ops.length).image tempName := by
  intro x hx
  have hassigned : x ∈ (assignments {} p.function.body.value).map Assignment.dest := by
    obtain ⟨i, hi, hv⟩ := mem_vars_iff.mp hx
    rw [code_lower] at hi
    rcases List.mem_append.mp hi with hi | hi
    · obtain ⟨a, ha, rfl⟩ := List.mem_map.mp hi
      simp only [Assignment.instr, Instr.values, List.mem_cons, List.not_mem_nil, or_false,
        Value.var.injEq] at hv
      rcases hv with hsrc | hdest
      · obtain ⟨before, after, hsplit⟩ := List.append_of_mem ha
        have hbefore := readsAssigned_assignments {} _ before a after hsplit x hsrc.symm
        rw [hsplit, List.map_append]
        exact List.mem_append_left _ hbefore
      · rw [hdest]
        exact List.mem_map_of_mem ha
    · rw [List.mem_singleton.mp hi] at hv
      exact value_mem_assignments {} _ (List.mem_singleton.mp hv).symm
  rw [map_dest_assignments] at hassigned
  obtain ⟨k, hk, rfl⟩ := List.mem_map.mp hassigned
  refine Finset.mem_image_of_mem tempName (Finset.mem_range.mpr ?_)
  rw [List.mem_range'_1] at hk
  simpa using hk.2

/-- Lowered code has at most as many variables as the program has operators. -/
theorem card_vars_lower_le (p : Tree.Program) :
    (lower p).vars.card ≤ p.function.body.value.ops.length := by
  have himage := (Finset.card_le_card (vars_lower_subset p)).trans Finset.card_image_le
  rwa [Finset.card_range] at himage

end UnaryC.Tac
