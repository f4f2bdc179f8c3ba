import UnaryC.Machine.Legal
import UnaryC.Proofs.RunSimulation

/-!
# Legalization changes the scratch register only

A move between two slots becomes two moves through the scratch register. Code that does not mention
that register cannot tell: the two runs end alike, and all other contents agree at that point. What
is refused is an operator that writes to an immediate, and nothing else.
-/
namespace UnaryC.Machine

/-- All operands but the scratch register. -/
def Unscratched : Set Operand :=
  {o | o ≠ .reg .r10}

/-- The two states hold the same everywhere but in the scratch register. -/
abbrev AgreeUnscratched : State → State → Prop :=
  Renames id Unscratched

theorem legalize_eq_ok_iff {p q : Program} {frame : Int32} :
    legalize p frame = .ok q ↔ p.code.findSome? legalizationFault? = none ∧
      q = { p with code := reserve frame ++ p.code.flatMap legalizeInstr } := by
  unfold legalize
  cases p.code.findSome? legalizationFault? with
  | none => simp [eq_comm]
  | some fault => simp

theorem legalizeInstr_cases (i : Instr) :
    legalizeInstr i = [i] ∨ ∃ src dest, i = .mov (.slot src) (.slot dest) ∧
      legalizeInstr i = [.mov (.slot src) (.reg .r10), .mov (.reg .r10) (.slot dest)] := by
  unfold legalizeInstr
  split
  next src dest => exact .inr ⟨src, dest, rfl, rfl⟩
  next => exact .inl rfl

theorem run_reserve (s : State) (frame : Int32) (code : List Instr) :
    run s (reserve frame ++ code) = run s code := by
  unfold reserve
  split <;> rfl

theorem AgreeUnscratched.write_scratch {s t t' : State} (h : AgreeUnscratched s t) {v : Int32}
    (ht : t.write? v (.reg .r10) = some t') : AgreeUnscratched s t' :=
  fun o ho => (State.read_write_of_ne ht ho).trans (h o ho)

/-- The move between slots and its two steps through the scratch register. -/
theorem run_mov_slots {src dest : Int32} {code code' : List Instr}
    (hcode : ∀ s t, AgreeUnscratched s t → Ending.Rel AgreeUnscratched (run s code) (run t code'))
    {s t : State} (h : AgreeUnscratched s t) :
    Ending.Rel AgreeUnscratched (run s (.mov (.slot src) (.slot dest) :: code))
      (run t (.mov (.slot src) (.reg .r10) :: .mov (.reg .r10) (.slot dest) :: code')) := by
  have hsrc : t.read (.slot src) = s.read (.slot src) := h (.slot src) (by simp [Unscratched])
  rw [run_mov t, hsrc]
  cases ht : t.write? (s.read (.slot src)) (.reg .r10) with
  | none => cases ht
  | some t' =>
    have h' := h.write_scratch ht
    rw [Option.elim_some, run_mov t', State.read_write_same ht, run_mov s]
    exact .elim h' (h'.write (separates_id _) _ (by simp [Unscratched])) hcode

theorem run_flatMap_legalizeInstr (code : List Instr) :
    (∀ i ∈ code, ∀ o ∈ i.operands, o ∈ Unscratched) → ∀ s t, AgreeUnscratched s t →
      Ending.Rel AgreeUnscratched (run s code) (run t (code.flatMap legalizeInstr)) := by
  induction code with
  | nil => exact fun _ s t h => .ranOff h
  | cons i code ih =>
    intro hcode s t h
    have hi := hcode i List.mem_cons_self
    replace ih := ih fun j hj => hcode j (List.mem_cons_of_mem i hj)
    rw [List.flatMap_cons]
    rcases legalizeInstr_cases i with hsame | ⟨src, dest, rfl, hsplit⟩
    · have hstep := run_cons_mapOperands (separates_id _) hi ih h
      rw [mapOperands_id] at hstep
      rw [hsame]
      exact hstep
    · rw [hsplit]
      exact run_mov_slots ih h

theorem run_legalize {p q : Program} {frame : Int32} (h : legalize p frame = .ok q)
    (hp : ∀ i ∈ p.code, ∀ o ∈ i.operands, o ∈ Unscratched) (s : State) :
    Ending.Rel AgreeUnscratched (run s p.code) (run s q.code) := by
  obtain ⟨-, rfl⟩ := legalize_eq_ok_iff.mp h
  rw [run_reserve]
  exact run_flatMap_legalizeInstr p.code hp s s fun o _ => rfl

theorem mov_slots_not_mem_legalizeInstr (i : Instr) (src dest : Int32) :
    .mov (.slot src) (.slot dest) ∉ legalizeInstr i := by
  rcases legalizeInstr_cases i with hsame | ⟨src', dest', rfl, hsplit⟩
  · rw [hsame, List.mem_singleton]
    intro hi
    rw [← hi] at hsame
    simp [legalizeInstr] at hsame
  · rw [hsplit]
    simp

/-- Legal code has no move between two slots. -/
theorem mov_slots_not_mem_legalize {p q : Program} {frame : Int32} (h : legalize p frame = .ok q)
    (src dest : Int32) : .mov (.slot src) (.slot dest) ∉ q.code := by
  obtain ⟨-, rfl⟩ := legalize_eq_ok_iff.mp h
  intro hmem
  rcases List.mem_append.mp hmem with hreserve | hcode
  · unfold reserve at hreserve
    split at hreserve <;> simp at hreserve
  · obtain ⟨i, -, hi⟩ := List.mem_flatMap.mp hcode
    exact mov_slots_not_mem_legalizeInstr i src dest hi

theorem legalizationFault?_eq_some_iff {i : Instr} {fault : Fault} :
    legalizationFault? i = some fault ↔
      ∃ op value, i = .unary op (.imm value) ∧ fault = .immediateDestination i := by
  unfold legalizationFault?
  split
  · next op value => simp [eq_comm]
  · next hne =>
    constructor
    · intro h
      cases h
    · rintro ⟨op, value, rfl, -⟩
      exact absurd rfl (hne op value)

theorem legalizationFault?_eq_none_iff {i : Instr} :
    legalizationFault? i = none ↔ ∀ op value, i ≠ .unary op (.imm value) := by
  unfold legalizationFault?
  split
  · next op value => simp
  · next hne => exact ⟨fun _ => hne, fun _ => rfl⟩

theorem legalize_eq_error_iff {p : Program} {frame : Int32} {fault : Fault} :
    legalize p frame = .error fault ↔ p.code.findSome? legalizationFault? = some fault := by
  rw [legalize]
  cases p.code.findSome? legalizationFault? <;> simp

/-- The two states hold the same in AX, in every slot and in every pseudo-register. -/
structure SameResults (s t : State) : Prop where
  ax : t.regs .ax = s.regs .ax
  slots : ∀ offset, t.slots offset = s.slots offset
  pseudos : ∀ name, t.pseudos name = s.pseudos name

theorem AgreeUnscratched.sameResults (s t : State) (h : AgreeUnscratched s t) : SameResults s t :=
  ⟨h (.reg .ax) (by simp [Unscratched]), fun offset => h (.slot offset) (by simp [Unscratched]),
    fun name => h (.pseudo name) (by simp [Unscratched])⟩

/-- Legal code has no move between two slots, and a program that does not mention the scratch
register runs as before: the two runs end alike, with the same contents outside that register.
Legalization refuses exactly the programs in which an operator writes to an immediate, and shows the
first such instruction. -/
theorem legalize_keepsResults (p : Program) (frame : Int32) :
    (∀ q, legalize p frame = .ok q →
      (∀ src dest, .mov (.slot src) (.slot dest) ∉ q.code) ∧
      (.reg .r10 ∉ p.operands → ∀ s, Ending.Rel SameResults (run s p.code) (run s q.code))) ∧
    ((∃ fault, legalize p frame = .error fault) ↔ ∃ op value, .unary op (.imm value) ∈ p.code) ∧
    ∀ fault, legalize p frame = .error fault →
      fault.detail = "Unary operation cannot write to an immediate" ∧
      ∃ before op value after, p.code = before ++ .unary op (.imm value) :: after ∧
        (∀ op' value', .unary op' (.imm value') ∉ before) ∧
        fault.node = (Instr.unary op (.imm value)).term.inline := by
  refine ⟨fun q h => ⟨mov_slots_not_mem_legalize h, fun hscratch s => ?_⟩, ⟨?_, ?_⟩,
    fun fault h => ?_⟩
  · have hunscratched : ∀ i ∈ p.code, ∀ o ∈ i.operands, o ∈ Unscratched := by
      intro i hi o ho heq
      rw [heq] at ho
      exact hscratch (List.mem_flatMap.mpr ⟨i, hi, ho⟩)
    exact (run_legalize h hunscratched s).mono AgreeUnscratched.sameResults
  · rintro ⟨fault, h⟩
    obtain ⟨i, hi, hfault⟩ := List.exists_of_findSome?_eq_some (legalize_eq_error_iff.mp h)
    obtain ⟨op, value, rfl, -⟩ := legalizationFault?_eq_some_iff.mp hfault
    exact ⟨op, value, hi⟩
  · rintro ⟨op, value, hi⟩
    simp only [legalize_eq_error_iff, ← Option.isSome_iff_exists, List.findSome?_isSome_iff]
    exact ⟨_, hi, rfl⟩
  · obtain ⟨before, i, after, hsplit, hfault, hbefore⟩ :=
      List.findSome?_eq_some_iff.mp (legalize_eq_error_iff.mp h)
    obtain ⟨op, value, rfl, rfl⟩ := legalizationFault?_eq_some_iff.mp hfault
    refine ⟨rfl, before, op, value, after, hsplit, fun op' value' hmem => ?_, rfl⟩
    exact legalizationFault?_eq_none_iff.mp (hbefore _ hmem) op' value' rfl

/-- Slots, a pseudo-register and AX in one program, with a move of a slot onto itself. -/
def shuffling : Program :=
  { name := "f"
    code := [.mov (.slot (-4)) (.slot (-8)), .mov (.slot (-8)) (.slot (-8)),
      .unary .neg (.slot (-8)), .mov (.slot 12) (.pseudo "a"), .allocate 4,
      .mov (.slot (-8)) (.reg .ax), .ret] }

def shufflingLegal : Program :=
  { name := "f"
    code := [.allocate 8, .mov (.slot (-4)) (.reg .r10), .mov (.reg .r10) (.slot (-8)),
      .mov (.slot (-8)) (.reg .r10), .mov (.reg .r10) (.slot (-8)), .unary .neg (.slot (-8)),
      .mov (.slot 12) (.pseudo "a"), .allocate 4, .mov (.slot (-8)) (.reg .ax), .ret] }

/-- Two operators that write to immediates, behind a move that does. -/
def immovable : Program :=
  { name := "f"
    code := [.mov (.reg .ax) (.imm 1), .unary .not (.imm (-7)), .unary .neg (.imm 3)] }

theorem legalize_keepsResults_shuffling :
    legalize shuffling 8 = .ok shufflingLegal ∧ .reg .r10 ∉ shuffling.operands ∧
    (∀ s, Ending.Rel SameResults (run s shuffling.code) (run s shufflingLegal.code)) ∧
    ∃ fault, legalize immovable 0 = .error fault ∧
      fault.detail = "Unary operation cannot write to an immediate" ∧
      fault.node = "Unary \x7b op: Not, dest: Imm(-7) \x7d" := by
  have hok : legalize shuffling 8 = .ok shufflingLegal := by decide +kernel
  have hscratch : .reg .r10 ∉ shuffling.operands := by decide
  obtain ⟨hkeeps, -, -⟩ := legalize_keepsResults shuffling 8
  obtain ⟨-, hrefuses, hfirst⟩ := legalize_keepsResults immovable 0
  obtain ⟨fault, hfault⟩ := hrefuses.mpr ⟨.neg, 3, by decide⟩
  refine ⟨hok, hscratch, (hkeeps _ hok).2 hscratch, fault, hfault, (hfirst fault hfault).1, ?_⟩
  have hsame : fault = .immediateDestination (.unary .not (.imm (-7))) :=
    Except.error.inj (hfault.symm.trans (by decide +kernel))
  rw [hsame]
  decide +kernel

end UnaryC.Machine
