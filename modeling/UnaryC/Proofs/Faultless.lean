import UnaryC.Machine.Assembly
import UnaryC.Proofs.Compiler

/-!
# Whatever parses compiles

Every pass of the backend refuses some code, and never the code it is given: lowering writes to
variables only, selection names no slot and reserves no frame, and placement leaves no operator an
immediate to write to. So a compilation fails in the scanner or the parser, or not at all. Placement
also leaves no pseudo-register, the one operand that has no text.
-/
namespace UnaryC

namespace Machine

/-- What is generated for a program that has no fault. -/
def generation (p : Tac.Program) : Program :=
  { name := p.name
    code := reserve (frameSize (selection p).pseudos.length) ++
      ((selection p).code.map
        (Instr.mapOperands (Operand.place (selection p).pseudos))).flatMap legalizeInstr }

/-- Selection neither reserves a frame nor names a slot. -/
theorem placementFault?_selection (p : Tac.Program) :
    (selection p).code.findSome? Instr.placementFault? = none := by
  rw [List.findSome?_eq_none_iff]
  intro j hj
  obtain ⟨i, -, hji⟩ := List.mem_flatMap.mp hj
  cases j with
  | allocate amount => cases i <;> simp [selectInstr] at hji
  | _ =>
    refine List.findSome?_eq_none_iff.mpr fun o ho => ?_
    have hslot := (operands_selection _ hj o ho).2
    cases o with
    | slot offset => exact absurd rfl (hslot offset)
    | _ => rfl

/-- An operator that is selected writes to the variable that its instruction writes to. -/
theorem dest_of_unary_mem_selectInstr {i : Tac.Instr} (hi : selectionFault? i = none) {op : Op}
    {dest : Operand} (h : .unary op dest ∈ selectInstr i) : ∃ x, dest = .pseudo x := by
  cases i with
  | ret value => simp [selectInstr] at h
  | unary op' src dest' =>
    cases dest' with
    | constant value => cases hi
    | var x =>
      simp only [selectInstr, List.mem_cons, List.not_mem_nil, or_false, reduceCtorEq,
        Instr.unary.injEq, false_or] at h
      exact ⟨x, h.2⟩

theorem legalizationFault?_placed {p : Tac.Program}
    (h : p.code.findSome? selectionFault? = none) (names : List String) :
    ((selection p).code.map (Instr.mapOperands (Operand.place names))).findSome?
      legalizationFault? = none := by
  rw [List.findSome?_eq_none_iff]
  intro k hk
  obtain ⟨j, hj, rfl⟩ := List.mem_map.mp hk
  obtain ⟨i, hi, hji⟩ := List.mem_flatMap.mp hj
  cases j with
  | unary op dest =>
    have hfault := List.findSome?_eq_none_iff.mp h i hi
    obtain ⟨x, rfl⟩ := dest_of_unary_mem_selectInstr hfault hji
    rfl
  | _ => rfl

/-- Code generation fails in its first pass, or not at all. -/
theorem generate_eq (p : Tac.Program) :
    generate p = (p.code.findSome? selectionFault?).elim (.ok (generation p)) .error := by
  cases hsel : p.code.findSome? selectionFault? with
  | some fault =>
    have hselect : select p = .error fault := by simp only [select, hsel]
    rw [generate, hselect]
    rfl
  | none =>
    refine generate_eq_ok_iff.mpr ⟨_, _, hsel, place_eq_ok_iff.mpr
      ⟨placementFault?_selection p, rfl, rfl⟩, legalize_eq_ok_iff.mpr ⟨?_, rfl⟩⟩
    exact legalizationFault?_placed hsel _

theorem generate_eq_ok_iff_generation {p : Tac.Program} {q : Program} :
    generate p = .ok q ↔ p.code.findSome? selectionFault? = none ∧ q = generation p := by
  rw [generate_eq]
  cases p.code.findSome? selectionFault? <;> simp [eq_comm]

theorem place_ne_pseudo (names : List String) (o : Operand) (x : String) :
    o.place names ≠ .pseudo x := by
  cases o <;> simp [Operand.place]

theorem mem_operands_legalizeInstr {i j : Instr} (hj : j ∈ legalizeInstr i) {o : Operand}
    (ho : o ∈ j.operands) : o = .reg .r10 ∨ o ∈ i.operands := by
  rcases legalizeInstr_cases i with hsame | ⟨src, dest, rfl, hsplit⟩
  · rw [hsame, List.mem_singleton] at hj
    exact .inr (hj ▸ ho)
  · rw [hsplit] at hj
    simp only [List.mem_cons, List.not_mem_nil, or_false] at hj
    rcases hj with rfl | rfl
    · simp only [Instr.operands, List.mem_cons, List.not_mem_nil, or_false] at ho ⊢
      rcases ho with rfl | rfl
      · exact .inr (.inl rfl)
      · exact .inl rfl
    · simp only [Instr.operands, List.mem_cons, List.not_mem_nil, or_false] at ho ⊢
      rcases ho with rfl | rfl
      · exact .inl rfl
      · exact .inr (.inr rfl)

/-- Every pseudo-register gets a slot. -/
theorem pseudo_not_mem_generation (p : Tac.Program) (x : String) :
    .pseudo x ∉ (generation p).operands := by
  intro h
  obtain ⟨k, hk, ho⟩ := List.mem_flatMap.mp h
  rcases List.mem_append.mp hk with hreserve | hcode
  · unfold reserve at hreserve
    split at hreserve
    · rw [List.mem_singleton.mp hreserve] at ho
      cases ho
    · cases hreserve
  · obtain ⟨j, hj, hkj⟩ := List.mem_flatMap.mp hcode
    obtain ⟨i, -, rfl⟩ := List.mem_map.mp hj
    rcases mem_operands_legalizeInstr hkj ho with hscratch | hplaced
    · cases hscratch
    · rw [Instr.operands_mapOperands] at hplaced
      obtain ⟨o, -, hx⟩ := List.mem_map.mp hplaced
      exact place_ne_pseudo _ o x hx

/-- The text `x` is missing if there is a pseudo-register to blame, and that one is blamed. -/
def Blames {α : Type} (x : Except Unplaced α) (name? : Option String) : Prop :=
  ∀ u, x = .error u ↔ name? = some u.name

theorem Blames.eq_none_iff {α : Type} {x : Except Unplaced α} {name? : Option String}
    (h : Blames x name?) : name? = none ↔ ∃ a, x = .ok a := by
  cases x with
  | error u => simp [(h u).mp rfl]
  | ok a =>
    cases name? with
    | none => simp
    | some name => cases (h ⟨name⟩).mpr rfl

theorem blames_ok {α : Type} (a : α) : Blames (.ok a) none :=
  fun u => by simp

/-- Of two parts the first to fail is to blame. -/
theorem Blames.bind {α β : Type} {x : Except Unplaced α} {f : α → Except Unplaced β}
    {first? second? : Option String} (hx : Blames x first?) (hf : ∀ a, Blames (f a) second?) :
    Blames (x >>= f) (first?.or second?) := by
  intro u
  cases hxa : x with
  | error v =>
    rw [hxa] at hx
    rw [(hx v).mp rfl, Option.some_or, ← (hx v).mp rfl, ← hx u]
    simp [Bind.bind, Except.bind]
  | ok a =>
    rw [hx.eq_none_iff.mpr ⟨a, hxa⟩, Option.none_or]
    exact hf a u

theorem Operand.blames_assembly (o : Operand) : Blames o.assembly o.pseudo? := by
  cases o with
  | pseudo name =>
    intro u
    simp only [assembly, pseudo?, Except.error.injEq, Option.some.injEq]
    exact ⟨fun h => h ▸ rfl, fun h => congrArg Unplaced.mk h⟩
  | _ => exact blames_ok _

theorem Instr.blames_assembly (i : Instr) :
    Blames i.assembly (i.operands.findSome? Operand.pseudo?) := by
  cases i with
  | mov src dest =>
    change Blames _ (([src] ++ [dest]).findSome? Operand.pseudo?)
    rw [List.findSome?_append, List.findSome?_singleton, List.findSome?_singleton,
      ← Option.or_none (o := dest.pseudo?)]
    exact src.blames_assembly.bind fun _ => dest.blames_assembly.bind fun _ => blames_ok _
  | unary op dest =>
    change Blames _ ([dest].findSome? Operand.pseudo?)
    rw [List.findSome?_singleton, ← Option.or_none (o := dest.pseudo?)]
    exact dest.blames_assembly.bind fun _ => blames_ok _
  | allocate amount => exact blames_ok _
  | ret => exact blames_ok _

theorem blames_codeAssembly (code : List Instr) :
    Blames (codeAssembly code) ((code.flatMap Instr.operands).findSome? Operand.pseudo?) := by
  induction code with
  | nil => exact blames_ok ""
  | cons i code ih =>
    rw [List.flatMap_cons, List.findSome?_append,
      ← Option.or_none (o := (code.flatMap Instr.operands).findSome? _)]
    exact i.blames_assembly.bind fun _ => ih.bind fun _ => blames_ok _

/-- A program has a text unless a pseudo-register is left; the first of these is to blame. -/
theorem Program.blames_assembly (p : Program) :
    Blames p.assembly (p.operands.findSome? Operand.pseudo?) := by
  rw [← Option.or_none (o := p.operands.findSome? _)]
  exact (blames_codeAssembly p.code).bind fun _ => blames_ok _

theorem exists_assembly_iff {p : Program} :
    (∃ text, p.assembly = .ok text) ↔ ∀ x, .pseudo x ∉ p.operands := by
  rw [← p.blames_assembly.eq_none_iff, List.findSome?_eq_none_iff]
  constructor
  · intro h x hx
    cases h _ hx
  · intro h o ho
    cases o with
    | pseudo x => exact absurd ho (h x)
    | _ => rfl

end Machine

namespace Tac

/-- Lowering writes to variables only. -/
theorem selectionFault?_lower (p : Tree.Program) :
    (lower p).code.findSome? Machine.selectionFault? = none := by
  rw [List.findSome?_eq_none_iff, code_lower]
  intro i hi
  rcases List.mem_append.mp hi with hi | hi
  · obtain ⟨a, -, rfl⟩ := List.mem_map.mp hi
    rfl
  · rw [List.mem_singleton.mp hi]
    rfl

end Tac

/-- Generating code is the last that is done to a tree, and always succeeds. -/
theorem generateSource_eq (lines : List String) :
    generateSource lines =
      (parseSource lines).map fun tree => Machine.generation (Tac.lower tree) := by
  rw [generateSource, lowerSource]
  cases parseSource lines with
  | error e => rfl
  | ok tree =>
    have hgen : Machine.generate (Tac.lower tree) = .ok (Machine.generation (Tac.lower tree)) := by
      rw [Machine.generate_eq, Tac.selectionFault?_lower]
      rfl
    simp only [bind, Except.bind, pure, Except.pure, hgen]
    rfl

theorem exists_assembly_of_generateSource {lines : List String} {program : Machine.Program}
    (h : generateSource lines = .ok program) : ∃ text, program.assembly = .ok text := by
  rw [generateSource_eq] at h
  cases hparse : parseSource lines with
  | error e => rw [hparse] at h; cases h
  | ok tree =>
    rw [hparse] at h
    cases h
    exact Machine.exists_assembly_iff.mpr (Machine.pseudo_not_mem_generation (Tac.lower tree))

theorem parseSource_ne_codegen (lines : List String) (fault : Machine.Fault) :
    parseSource lines ≠ .error (.codegen fault) := by
  rw [parseSource, scanSource]
  cases Token.scan lines with
  | error e => simp [Except.mapError, bind, Except.bind]
  | ok tokens =>
    change (Tree.parse tokens).mapError CompileError.parse ≠ _
    cases Tree.parse tokens <;> simp [Except.mapError]

theorem map_ne_codegen {α β : Type} {x : Except CompileError α} {f : α → β} {fault : Machine.Fault}
    (h : x ≠ .error (.codegen fault)) : x.map f ≠ .error (.codegen fault) := by
  cases x with
  | error e => simpa [Except.map] using h
  | ok a => simp [Except.map]

theorem compile_ne_codegen (lines : List String) (stage : Stage) (fault : Machine.Fault) :
    compile lines stage ≠ .error (.codegen fault) := by
  have hparse := parseSource_ne_codegen lines fault
  cases stage with
  | lex =>
    rw [compile, scanSource]
    cases Token.scan lines <;> simp [Except.mapError, Except.map]
  | parse => exact map_ne_codegen hparse
  | tacky => exact map_ne_codegen (map_ne_codegen hparse)
  | codegen =>
    rw [compile, generateSource_eq]
    exact map_ne_codegen (map_ne_codegen hparse)

/-- Lines compile to machine code if they parse. No compilation fails in the backend, and all code
that comes out of it is without pseudo-registers and has a text. -/
theorem compile_codegen_of_parses (lines : List String) :
    ((compile lines .codegen).isOk ↔ (compile lines .parse).isOk) ∧
    (∀ stage fault, compile lines stage ≠ .error (.codegen fault)) ∧
    ∀ artifact, compile lines .codegen = .ok artifact →
      ∃ p text, artifact = .machine p ∧ (∀ x, .pseudo x ∉ p.operands) ∧ p.assembly = .ok text := by
  refine ⟨?_, compile_ne_codegen lines, fun artifact h => ?_⟩
  · simp only [compile, generateSource_eq]
    cases parseSource lines <;> rfl
  · rw [compile, generateSource_eq] at h
    cases hparse : parseSource lines with
    | error e => rw [hparse] at h; cases h
    | ok tree =>
      rw [hparse] at h
      have hpseudo := Machine.pseudo_not_mem_generation (Tac.lower tree)
      obtain ⟨text, htext⟩ := Machine.exists_assembly_iff.mpr hpseudo
      exact ⟨_, text, (Except.ok.inj h).symm, hpseudo, htext⟩

theorem compile_codegen_of_parses_wrapping :
    compile wrapping .codegen = .ok (.machine wrappingCode) ∧ (compile wrapping .parse).isOk ∧
      (∀ x, .pseudo x ∉ wrappingCode.operands) ∧ ∃ text, wrappingCode.assembly = .ok text := by
  have hcode : compile wrapping .codegen = .ok (.machine wrappingCode) := by decide +kernel
  obtain ⟨hparse, -, htext⟩ := compile_codegen_of_parses wrapping
  obtain ⟨p, text, hp, hpseudo, hassembly⟩ := htext _ hcode
  cases hp
  exact ⟨hcode, hparse.mp (by rw [hcode]; rfl), hpseudo, text, hassembly⟩

end UnaryC
