import UnaryC.Machine.Generation
import UnaryC.Proofs.Legal
import UnaryC.Proofs.Selection

/-!
# Generated code simulates three-address code

The three passes are simulations one after the other: selection keeps variables in pseudo-registers,
placement keeps pseudo-registers in slots, legalization changes nothing but the scratch register.
Together they keep each variable in a slot of its own, through every run of arbitrary three-address
code: variables may be written again, read before they are written, or be source and destination
at once, and code may follow a return.
-/
namespace UnaryC.Machine

/-- The slot of each of those variables holds its value. -/
def Held (slot : String → Int32) (names : Finset String) (vars : Tac.Valuation) (s : State) :
    Prop :=
  ∀ x ∈ names, s.slots (slot x) = vars x

/-- The slot that a variable of the program gets. -/
def slotOf (p : Tac.Program) (x : String) : Int32 :=
  slotOffset ((selection p).pseudos.idxOf x)

theorem slotOf_injOn {p : Tac.Program} (hvars : p.vars.card ≤ 2 ^ 29) :
    Set.InjOn (slotOf p) p.vars := by
  intro x hx y hy h
  have hx' := mem_pseudos_selection.mpr (Finset.mem_coe.mp hx)
  have hy' := mem_pseudos_selection.mpr (Finset.mem_coe.mp hy)
  have hlx := List.idxOf_lt_length_of_mem hx'
  have hly := List.idxOf_lt_length_of_mem hy'
  rw [length_pseudos_selection] at hlx hly
  exact (List.idxOf_inj hx').mp (slotOffset_inj (by omega) (by omega) h)

theorem generate_eq_ok_iff {p : Tac.Program} {q : Program} :
    generate p = .ok q ↔ ∃ placed frame, p.code.findSome? selectionFault? = none ∧
      place (selection p) = .ok (placed, frame) ∧ legalize placed frame = .ok q := by
  unfold generate
  cases hsel : select p with
  | error fault =>
    constructor
    · intro h
      cases h
    · rintro ⟨placed, frame, hnone, -⟩
      rw [select_eq_ok_iff.mpr ⟨hnone, rfl⟩] at hsel
      cases hsel
  | ok selected =>
    obtain ⟨hnone, rfl⟩ := select_eq_ok_iff.mp hsel
    cases hplace : place (selection p) with
    | error fault =>
      simp only [bind, Except.bind, hplace]
      simp
    | ok r =>
      obtain ⟨placed, frame⟩ := r
      simp only [bind, Except.bind, hplace, hnone]
      simp

/-- The machine state with the variables in its pseudo-registers, before they move to slots. -/
def State.loaded (s : State) (vars : Tac.Valuation) : State :=
  { s with pseudos := vars }

theorem Held.renames {p : Tac.Program} {vars : Tac.Valuation} {s : State}
    (h : Held (slotOf p) p.vars vars s) :
    Renames (Operand.place (selection p).pseudos) (Placeable (selection p).pseudos)
      (s.loaded vars) s := by
  intro o ho
  cases o with
  | imm value => rfl
  | reg register => rfl
  | pseudo name => exact h name (mem_pseudos_selection.mp (ho.2 name rfl))
  | slot offset => cases ho.1

theorem Carries.held {p : Tac.Program} {vars : Tac.Valuation} {s t : State} (h : Carries vars s)
    (hst : Renames (Operand.place (selection p).pseudos) (Placeable (selection p).pseudos) s t) :
    Held (slotOf p) p.vars vars t := by
  intro x hx
  have hmem := mem_pseudos_selection.mpr hx
  have hread := hst (.pseudo x) ⟨rfl, fun y hy => by cases hy; exact hmem⟩
  exact hread.trans (h x)

/-- Placement brings no operand in that is the scratch register. -/
theorem operands_placed {p : Tac.Program} {placed : Program} {frame : Int32}
    (h : place (selection p) = .ok (placed, frame)) :
    ∀ i ∈ placed.code, ∀ o ∈ i.operands, o ∈ Unscratched := by
  obtain ⟨-, rfl, -⟩ := place_eq_ok_iff.mp h
  intro i hi o ho
  obtain ⟨j, hj, rfl⟩ := List.mem_map.mp hi
  rw [Instr.operands_mapOperands] at ho
  obtain ⟨o', ho', rfl⟩ := List.mem_map.mp ho
  have hscratch := (operands_selection j hj o' ho').1
  cases o' with
  | pseudo name => simp [Operand.place, Unscratched]
  | _ => exact hscratch

/-- A run of three-address code and the run of the code generated for it. -/
theorem run_generate {p : Tac.Program} {q : Program} (h : generate p = .ok q)
    (hvars : p.vars.card ≤ 2 ^ 29) {vars : Tac.Valuation} {s : State}
    (hs : Held (slotOf p) p.vars vars s) :
    EndsAlike (Held (slotOf p) p.vars) (Tac.run vars p.code) (run s q.code) := by
  obtain ⟨placed, frame, hnone, hplace, hlegal⟩ := generate_eq_ok_iff.mp h
  have hsel : EndsAlike Carries (Tac.run vars p.code) (run (s.loaded vars) (selection p).code) :=
    run_select p.code (List.findSome?_eq_none_iff.mp hnone) vars _ fun _ => rfl
  have hslots := run_place hplace (by rw [length_pseudos_selection]; exact hvars) hs.renames
  have hlast := run_legalize hlegal (operands_placed hplace) s
  have hplaced : EndsAlike (Held (slotOf p) p.vars) (Tac.run vars p.code) (run s placed.code) := by
    refine hsel.trans hslots ?_ ?_
    · exact fun s t hst => hst (.reg .ax) ⟨rfl, by simp⟩
    · exact fun vars s t hv hst => hv.held hst
  refine hplaced.trans hlast ?_ ?_
  · exact fun s t hst => hst (.reg .ax) (by simp [Unscratched])
  · intro vars s t hheld hst x hx
    exact (hst (.slot (slotOf p x)) (by simp [Unscratched])).trans (hheld x hx)

/-- Generated code keeps every variable of the three-address code in a slot of its own. Whatever
the variables and all other contents are, the two runs return the same value or both run off the
end, and the slots then hold what the variables are. -/
theorem generate_simulates (p : Tac.Program) (q : Program) (hvars : p.vars.card < 2 ^ 29)
    (h : generate p = .ok q) :
    ∃ slot : String → Int32, Set.InjOn slot p.vars ∧
      ∀ vars s, Held slot p.vars vars s →
        EndsAlike (Held slot p.vars) (Tac.run vars p.code) (run s q.code) :=
  ⟨slotOf p, slotOf_injOn hvars.le, fun _ _ hs => run_generate h hvars.le hs⟩

/-- A variable that is negated in place, one that is read before it is written, and an operator
after the return. -/
def restless : Tac.Program :=
  { name := "f"
    code := [.unary .negate (.var "a") (.var "a"), .unary .complement (.var "b") (.var "a"),
      .ret (.var "a"), .unary .negate (.constant 7) (.var "b")] }

def restlessCode : Program :=
  { name := "f"
    code := [.allocate 8, .mov (.slot (-4)) (.reg .r10), .mov (.reg .r10) (.slot (-4)),
      .unary .neg (.slot (-4)), .mov (.slot (-8)) (.reg .r10), .mov (.reg .r10) (.slot (-4)),
      .unary .not (.slot (-4)), .mov (.slot (-4)) (.reg .ax), .ret, .mov (.imm 7) (.slot (-8)),
      .unary .neg (.slot (-8))] }

theorem generate_simulates_restless :
    restless.vars.card < 2 ^ 29 ∧ generate restless = .ok restlessCode ∧
      ∃ slot : String → Int32, Set.InjOn slot restless.vars ∧
        ∀ vars s, Held slot restless.vars vars s →
          EndsAlike (Held slot restless.vars) (Tac.run vars restless.code)
            (run s restlessCode.code) :=
  ⟨by decide, by decide +kernel,
    generate_simulates restless restlessCode (by decide) (by decide +kernel)⟩

end UnaryC.Machine
