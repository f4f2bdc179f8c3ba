import Mathlib.Data.Finset.Card
import UnaryC.Machine.Selection
import UnaryC.Proofs.Frame
import UnaryC.Proofs.RunSimulation
import UnaryC.Tac.Run

/-!
# Selection keeps the meaning of three-address code

Selected code keeps every variable in the pseudo-register of the same name. Its operands are AX and
the values of the three-address code, so it names no slot and no scratch register.
-/
namespace UnaryC

namespace Tac

def Value.var? : Value → Option String
  | constant _ => none
  | var name => some name

/-- The values of an instruction, source before destination. -/
def Instr.values : Instr → List Value
  | ret value => [value]
  | unary _ src dest => [src, dest]

/-- The variables that a program names. -/
def Program.vars (p : Program) : Finset String :=
  ((p.code.flatMap Instr.values).filterMap Value.var?).toFinset

theorem mem_vars_iff {p : Program} {x : String} :
    x ∈ p.vars ↔ ∃ i ∈ p.code, .var x ∈ i.values := by
  simp only [Program.vars, List.mem_toFinset, List.mem_filterMap, List.mem_flatMap]
  constructor
  · rintro ⟨v, ⟨i, hi, hv⟩, hx⟩
    cases v with
    | constant value => cases hx
    | var name => cases hx; exact ⟨i, hi, hv⟩
  · rintro ⟨i, hi, hv⟩
    exact ⟨.var x, ⟨i, hi, hv⟩, rfl⟩

end Tac

namespace Machine

/-- Both runs return, the second with the first one's value in AX, or both run off the end; the
contents at that point are related by `R`. -/
inductive EndsAlike (R : Tac.Valuation → State → Prop) : Tac.Ending → Ending → Prop
  | returned {vars : Tac.Valuation} {s : State} {v : Int32} (hv : s.regs .ax = v) (h : R vars s) :
      EndsAlike R (.returned v vars) (.returned s)
  | ranOff {vars : Tac.Valuation} {s : State} (h : R vars s) :
      EndsAlike R (.ranOff vars) (.ranOff s)

theorem EndsAlike.trans {R R' : Tac.Valuation → State → Prop} {S : State → State → Prop}
    {a : Tac.Ending} {b c : Ending} (hab : EndsAlike R a b) (hbc : Ending.Rel S b c)
    (hax : ∀ s t, S s t → t.regs .ax = s.regs .ax)
    (hR : ∀ vars s t, R vars s → S s t → R' vars t) : EndsAlike R' a c := by
  cases hab with
  | returned hv h =>
    cases hbc with
    | returned hst => exact .returned ((hax _ _ hst).trans hv) (hR _ _ _ h hst)
  | ranOff h =>
    cases hbc with
    | ranOff hst => exact .ranOff (hR _ _ _ h hst)

/-- Every pseudo-register holds the variable of its name. -/
def Carries (vars : Tac.Valuation) (s : State) : Prop :=
  ∀ x, s.pseudos x = vars x

theorem Carries.read {vars : Tac.Valuation} {s : State} (h : Carries vars s) (v : Tac.Value) :
    s.read (operandOf v) = v.read vars := by
  cases v with
  | constant value => rfl
  | var name => exact h name

theorem Carries.write {vars : Tac.Valuation} {s : State} (h : Carries vars s) (name : String)
    (v : Int32) :
    ∃ s', s.write? v (.pseudo name) = some s' ∧ Carries (vars.set name v) s' := by
  refine ⟨_, rfl, fun x => ?_⟩
  by_cases hx : x = name
  · simp [hx]
  · simp [hx, h x]

theorem opOf_apply (op : UnaryOp) (v : Int32) : (opOf op).apply v = op.apply v := by
  cases op <;> rfl

/-- What is selected for a program that has no fault. -/
def selection (p : Tac.Program) : Program :=
  { name := p.name, code := p.code.flatMap selectInstr }

theorem select_eq_ok_iff {p : Tac.Program} {q : Program} :
    select p = .ok q ↔ p.code.findSome? selectionFault? = none ∧ q = selection p := by
  unfold select selection
  cases p.code.findSome? selectionFault? with
  | none => simp [eq_comm]
  | some fault => simp

/-- Copying the source before the operator is applied makes no difference, also when source and
destination are one variable. -/
theorem set_set_apply (vars : Tac.Valuation) (op : UnaryOp) (src : Tac.Value) (dest : String) :
    (vars.set dest (src.read vars)).set dest
        (op.apply ((Tac.Value.var dest).read (vars.set dest (src.read vars)))) =
      vars.set dest (op.apply (src.read vars)) := by
  funext x
  by_cases hx : x = dest
  · simp [hx, Tac.Value.read]
  · simp [hx]

/-- One instruction of three-address code, as the two that are selected for it. -/
theorem run_selectInstr_unary {vars : Tac.Valuation} {s : State} (h : Carries vars s)
    (op : UnaryOp) (src : Tac.Value) (dest : String) (rest : List Instr) :
    ∃ s', run s (selectInstr (.unary op src (.var dest)) ++ rest) = run s' rest ∧
      Carries (vars.set dest (op.apply (src.read vars))) s' := by
  obtain ⟨s₁, hs₁, h₁⟩ := h.write dest (src.read vars)
  obtain ⟨s₂, hs₂, h₂⟩ := h₁.write dest
    (op.apply ((Tac.Value.var dest).read (vars.set dest (src.read vars))))
  rw [set_set_apply] at h₂
  refine ⟨s₂, ?_, h₂⟩
  have hread : s₁.read (.pseudo dest) = _ := h₁.read (.var dest)
  change run s (.mov (operandOf src) (.pseudo dest) :: .unary (opOf op) (.pseudo dest) :: rest) = _
  rw [run_mov, h.read src, hs₁, Option.elim_some, run_unary, hread, opOf_apply, hs₂,
    Option.elim_some]

theorem run_select (code : List Tac.Instr) (hcode : ∀ i ∈ code, selectionFault? i = none) :
    ∀ vars s, Carries vars s →
      EndsAlike Carries (Tac.run vars code) (run s (code.flatMap selectInstr)) := by
  induction code with
  | nil => exact fun vars s h => .ranOff h
  | cons i code ih =>
    intro vars s h
    replace ih := ih fun j hj => hcode j (List.mem_cons_of_mem i hj)
    rw [List.flatMap_cons]
    cases i with
    | ret value =>
      refine .returned ?_ fun x => h x
      simp [h.read value]
    | unary op src dest =>
      cases dest with
      | constant value =>
        have hfault := hcode _ List.mem_cons_self
        simp [selectionFault?] at hfault
      | var dest =>
        obtain ⟨s', hrun, h'⟩ := run_selectInstr_unary h op src dest (code.flatMap selectInstr)
        rw [hrun]
        exact ih _ _ h'

/-- The operands of selected code. -/
theorem mem_operands_selectInstr {i : Tac.Instr} {j : Instr} (hj : j ∈ selectInstr i)
    {o : Operand} (ho : o ∈ j.operands) : o = .reg .ax ∨ ∃ v ∈ i.values, o = operandOf v := by
  cases i with
  | ret value =>
    simp only [selectInstr, List.mem_cons, List.not_mem_nil, or_false] at hj
    rcases hj with rfl | rfl
    · simp only [Instr.operands, List.mem_cons, List.not_mem_nil, or_false] at ho
      rcases ho with rfl | rfl
      · exact .inr ⟨value, by simp [Tac.Instr.values], rfl⟩
      · exact .inl rfl
    · cases ho
  | unary op src dest =>
    simp only [selectInstr, List.mem_cons, List.not_mem_nil, or_false] at hj
    rcases hj with rfl | rfl
    · simp only [Instr.operands, List.mem_cons, List.not_mem_nil, or_false] at ho
      rcases ho with rfl | rfl
      · exact .inr ⟨src, by simp [Tac.Instr.values], rfl⟩
      · exact .inr ⟨dest, by simp [Tac.Instr.values], rfl⟩
    · simp only [Instr.operands, List.mem_cons, List.not_mem_nil, or_false] at ho
      exact .inr ⟨dest, by simp [Tac.Instr.values], ho⟩

/-- Every value of the three-address code is an operand of what is selected for it. -/
theorem operandOf_mem_selectInstr {i : Tac.Instr} {v : Tac.Value} (hv : v ∈ i.values) :
    ∃ j ∈ selectInstr i, operandOf v ∈ j.operands := by
  cases i with
  | ret value =>
    simp only [Tac.Instr.values, List.mem_singleton] at hv
    exact ⟨_, List.mem_cons_self, by simp [Instr.operands, hv]⟩
  | unary op src dest =>
    refine ⟨_, List.mem_cons_self, ?_⟩
    simp only [Tac.Instr.values, List.mem_cons, List.not_mem_nil, or_false] at hv
    rcases hv with rfl | rfl <;> simp [Instr.operands]

/-- The pseudo-registers of the selected code are the variables. -/
theorem mem_pseudos_selection {p : Tac.Program} {x : String} :
    x ∈ (selection p).pseudos ↔ x ∈ p.vars := by
  rw [mem_pseudos_iff, Tac.mem_vars_iff]
  simp only [Program.operands, selection, List.mem_flatMap]
  constructor
  · rintro ⟨j, ⟨i, hi, hj⟩, ho⟩
    rcases mem_operands_selectInstr hj ho with hax | ⟨v, hv, ho⟩
    · cases hax
    · cases v with
      | constant value => cases ho
      | var name => cases ho; exact ⟨i, hi, hv⟩
  · rintro ⟨i, hi, hv⟩
    obtain ⟨j, hj, ho⟩ := operandOf_mem_selectInstr hv
    exact ⟨j, ⟨i, hi, hj⟩, ho⟩

theorem length_pseudos_selection (p : Tac.Program) :
    (selection p).pseudos.length = p.vars.card := by
  have hset : (selection p).pseudos.toFinset = p.vars := by
    ext x
    rw [List.mem_toFinset, mem_pseudos_selection]
  rw [← hset, List.toFinset_card_of_nodup (nodup_pseudos _)]

/-- Selected code leaves the scratch register to later passes, and names no slot. -/
theorem operands_selection {p : Tac.Program} :
    ∀ i ∈ (selection p).code, ∀ o ∈ i.operands, o ≠ .reg .r10 ∧ ∀ offset, o ≠ .slot offset := by
  intro j hj o ho
  obtain ⟨i, -, hji⟩ := List.mem_flatMap.mp hj
  rcases mem_operands_selectInstr hji ho with rfl | ⟨v, -, rfl⟩
  · simp
  · cases v <;> simp [operandOf]

end Machine

end UnaryC
