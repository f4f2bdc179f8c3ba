import UnaryC.Pipeline
import UnaryC.Proofs.Backend
import UnaryC.Proofs.Lowering

/-!
# The compiler keeps the value of a program

What a compilation stopped early hands over is what a longer one goes on with. So the code at the
end of a compilation belongs to the syntax tree of the same lines, and runs to the value of that
tree from any contents of registers and slots.
-/
namespace UnaryC

theorem compile_parse_eq_ok_iff {lines : List String} {tree : Tree.Program} :
    compile lines .parse = .ok (.tree tree) ↔ parseSource lines = .ok tree := by
  rw [compile]
  cases parseSource lines with
  | error e => simp [Except.map]
  | ok tree' => simp [Except.map]

theorem compile_codegen_eq_ok_iff {lines : List String} {p : Machine.Program} :
    compile lines .codegen = .ok (.machine p) ↔
      ∃ tree, parseSource lines = .ok tree ∧ Machine.generate (Tac.lower tree) = .ok p := by
  rw [compile, generateSource, lowerSource]
  cases parseSource lines with
  | error e => simp [Except.map, bind, Except.bind]
  | ok tree =>
    simp only [bind, Except.bind, pure, Except.pure, Except.map, Except.ok.injEq, exists_eq_left']
    cases Machine.generate (Tac.lower tree) with
    | error fault => simp [Except.mapError]
    | ok q => simp [Except.mapError]

/-- Code generated for a program returns its value, from any state of the machine. -/
theorem run_generate_lower {tree : Tree.Program} {p : Machine.Program}
    (hops : tree.function.body.value.ops.length ≤ 2 ^ 29)
    (h : Machine.generate (Tac.lower tree) = .ok p) (s : Machine.State) :
    ∃ s', Machine.run s p.code = .returned s' ∧ s'.regs .ax = tree.eval := by
  -- The slots hold something; that is the valuation to start from.
  let vars : Tac.Valuation := fun x => s.slots (Machine.slotOf (Tac.lower tree) x)
  have hcard := (Tac.card_vars_lower_le tree).trans hops
  have hheld : Machine.Held (Machine.slotOf (Tac.lower tree)) (Tac.lower tree).vars vars s :=
    fun _ _ => rfl
  have hsim := Machine.run_generate h hcard hheld
  obtain ⟨vars', hrun⟩ := Tac.run_lower tree vars
  rw [hrun] at hsim
  generalize hend : Machine.run s p.code = ending at hsim
  cases hsim with
  | returned hv _ => exact ⟨_, rfl, hv⟩

/-- Whatever lines compile to machine code also parse, and from any state of the machine the code
returns the value of their tree. -/
theorem compile_keeps_value (lines : List String) (p : Machine.Program)
    (h : compile lines .codegen = .ok (.machine p)) :
    ∃ tree, compile lines .parse = .ok (.tree tree) ∧
      (tree.function.body.value.ops.length < 2 ^ 29 →
        ∀ s, ∃ s', Machine.run s p.code = .returned s' ∧ s'.regs .ax = tree.eval) := by
  obtain ⟨tree, hparse, hgen⟩ := compile_codegen_eq_ok_iff.mp h
  refine ⟨tree, compile_parse_eq_ok_iff.mpr hparse, fun hops s => ?_⟩
  exact run_generate_lower hops.le hgen s

/-- A negation that wraps around, over two lines and a comment. -/
def wrapping : List String :=
  ["int main(void) \x7b", "  return -/* least */(~2147483647); \x7d"]

def wrappingTree : Tree.Program :=
  { function :=
      { name := "main"
        body :=
          { value := .unary .negate (.unary .complement (.constant 2147483647 2) 2) 2, line := 2 }
        line := 1 }
    line := 1 }

def wrappingCode : Machine.Program :=
  { name := "main"
    code := [.allocate 8, .mov (.imm 2147483647) (.slot (-4)), .unary .not (.slot (-4)),
      .mov (.slot (-4)) (.reg .r10), .mov (.reg .r10) (.slot (-8)), .unary .neg (.slot (-8)),
      .mov (.slot (-8)) (.reg .ax), .ret] }

theorem compile_keeps_value_wrapping :
    compile wrapping .codegen = .ok (.machine wrappingCode) ∧
      compile wrapping .parse = .ok (.tree wrappingTree) ∧
      wrappingTree.function.body.value.ops.length < 2 ^ 29 ∧
      ∀ s, ∃ s', Machine.run s wrappingCode.code = .returned s' ∧ s'.regs .ax = -2147483648 := by
  have hcode : compile wrapping .codegen = .ok (.machine wrappingCode) := by decide +kernel
  have hops : wrappingTree.function.body.value.ops.length < 2 ^ 29 := by decide
  obtain ⟨tree, hparse, hrun⟩ := compile_keeps_value wrapping wrappingCode hcode
  have htree : compile wrapping .parse = .ok (.tree wrappingTree) := by decide +kernel
  obtain rfl : tree = wrappingTree := by
    rw [hparse] at htree
    cases htree
    rfl
  exact ⟨hcode, hparse, hops, hrun hops⟩

end UnaryC
