import Mathlib.Data.Set.Function
import UnaryC.Machine.Run

/-!
# Runs that end alike

Two runs of machine code are compared by how they end and by the contents at that point. The one
relation used between contents is a renaming of operands: what the first state holds at an operand,
the second holds at the operand's new name. Such a relation survives every write to an operand in
its domain, as long as no two operands of the domain get one name.
-/
namespace UnaryC.Machine

/-- Both runs return, both run off the end or both get stuck, in states that `R` relates. -/
inductive Ending.Rel (R : State → State → Prop) : Ending → Ending → Prop
  | returned {s t : State} (h : R s t) : Ending.Rel R (.returned s) (.returned t)
  | ranOff {s t : State} (h : R s t) : Ending.Rel R (.ranOff s) (.ranOff t)
  | stuck {s t : State} (h : R s t) : Ending.Rel R (.stuck s) (.stuck t)

theorem Ending.Rel.mono {R R' : State → State → Prop} (hR : ∀ s t, R s t → R' s t) {a b : Ending}
    (h : Ending.Rel R a b) : Ending.Rel R' a b := by
  cases h with
  | returned h => exact .returned (hR _ _ h)
  | ranOff h => exact .ranOff (hR _ _ h)
  | stuck h => exact .stuck (hR _ _ h)

theorem run_mov (s : State) (src dest : Operand) (code : List Instr) :
    run s (.mov src dest :: code) =
      (s.write? (s.read src) dest).elim (.stuck s) fun s => run s code := by
  simp only [run]
  cases s.write? (s.read src) dest <;> rfl

theorem run_unary (s : State) (op : Op) (dest : Operand) (code : List Instr) :
    run s (.unary op dest :: code) =
      (s.write? (op.apply (s.read dest)) dest).elim (.stuck s) fun s => run s code := by
  simp only [run]
  cases s.write? (op.apply (s.read dest)) dest <;> rfl

/-- Two writes that fail alike or lead to related states, each with a run after it. -/
theorem Ending.Rel.elim {R : State → State → Prop} {s t : State} {a b : Option State}
    {f g : State → Ending} (hs : R s t) (hab : Option.Rel R a b)
    (hfg : ∀ s t, R s t → Ending.Rel R (f s) (g t)) :
    Ending.Rel R (a.elim (.stuck s) f) (b.elim (.stuck t) g) := by
  cases hab with
  | none => exact .stuck hs
  | some h => exact hfg _ _ h

/-- What `s` holds at an operand of `D`, `t` holds at its new name. -/
def Renames (f : Operand → Operand) (D : Set Operand) (s t : State) : Prop :=
  ∀ o ∈ D, t.read (f o) = s.read o

/-- A renaming that keeps the operands of `D` apart, and immediates immediate. -/
structure Separates (f : Operand → Operand) (D : Set Operand) : Prop where
  injOn : Set.InjOn f D
  imm_iff : ∀ o ∈ D, (∃ value, f o = .imm value) ↔ ∃ value, o = .imm value

section

variable {f : Operand → Operand} {D : Set Operand}

theorem separates_id (D : Set Operand) : Separates id D :=
  ⟨Set.injOn_id D, fun _ _ => Iff.rfl⟩

theorem mapOperands_id (i : Instr) : i.mapOperands id = i := by
  cases i <;> rfl

theorem Renames.write (hf : Separates f D) {s t : State} (h : Renames f D s t) (v : Int32)
    {o : Operand} (ho : o ∈ D) : Option.Rel (Renames f D) (s.write? v o) (t.write? v (f o)) := by
  cases hs : s.write? v o with
  | none =>
    have himm := (hf.imm_iff o ho).mpr (State.write?_eq_none_iff.mp hs)
    rw [State.write?_eq_none_iff.mpr himm]
    exact .none
  | some s' =>
    cases ht : t.write? v (f o) with
    | none =>
      have himm := (hf.imm_iff o ho).mp (State.write?_eq_none_iff.mp ht)
      rw [State.write?_eq_none_iff.mpr himm] at hs
      cases hs
    | some t' =>
      refine .some fun o' ho' => ?_
      by_cases he : o' = o
      · subst he
        rw [State.read_write_same hs, State.read_write_same ht]
      · have hne : f o' ≠ f o := fun hfo => he (hf.injOn ho' ho hfo)
        rw [State.read_write_of_ne hs he, State.read_write_of_ne ht hne]
        exact h o' ho'

/-- One instruction with its operands renamed, before code that already runs alike. -/
theorem run_cons_mapOperands (hf : Separates f D) {i : Instr} (hi : ∀ o ∈ i.operands, o ∈ D)
    {code code' : List Instr}
    (hcode : ∀ s t, Renames f D s t → Ending.Rel (Renames f D) (run s code) (run t code'))
    {s t : State} (h : Renames f D s t) :
    Ending.Rel (Renames f D) (run s (i :: code)) (run t (i.mapOperands f :: code')) := by
  cases i with
  | mov src dest =>
    simp only [Instr.mapOperands, run_mov]
    rw [h src (hi src (by simp [Instr.operands]))]
    exact .elim h (h.write hf _ (hi dest (by simp [Instr.operands]))) hcode
  | unary op dest =>
    have hdest := hi dest (by simp [Instr.operands])
    simp only [Instr.mapOperands, run_unary]
    rw [h dest hdest]
    exact .elim h (h.write hf _ hdest) hcode
  | allocate amount => exact hcode s t h
  | ret => exact .returned h

/-- Code whose operands are all renamed runs as before. -/
theorem run_mapOperands (hf : Separates f D) (code : List Instr) :
    (∀ i ∈ code, ∀ o ∈ i.operands, o ∈ D) → ∀ s t, Renames f D s t →
      Ending.Rel (Renames f D) (run s code) (run t (code.map (Instr.mapOperands f))) := by
  induction code with
  | nil => exact fun _ s t h => .ranOff h
  | cons i code ih =>
    intro hD s t h
    have hi := hD i List.mem_cons_self
    replace ih := ih fun j hj => hD j (List.mem_cons_of_mem i hj)
    exact run_cons_mapOperands hf hi ih h

end

end UnaryC.Machine
