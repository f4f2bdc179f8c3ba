import UnaryC.Proofs.Faultless

/-!
# What is generated, and what is refused

Each pass establishes a part of what the machine asks for, and the passes after it keep that part.
Selection writes to variables only, placement gives every variable a slot of its own among as many
as there are variables, and legalization takes the moves between slots apart and reserves the frame.
Selection is also the only pass that refuses anything: what it makes, the other two accept.
-/
namespace UnaryC.Machine

/-- The instructions that are generated after the frame has been reserved. -/
inductive Generated (slots : Nat) : Instr → Prop
  | loadImm (value : Int32) (r : Register) : Generated slots (.mov (.imm value) (.reg r))
  | loadSlot {k : Nat} (hk : k < slots) (r : Register) :
      Generated slots (.mov (.slot (slotOffset k)) (.reg r))
  | storeImm (value : Int32) {k : Nat} (hk : k < slots) :
      Generated slots (.mov (.imm value) (.slot (slotOffset k)))
  | storeReg (r : Register) {k : Nat} (hk : k < slots) :
      Generated slots (.mov (.reg r) (.slot (slotOffset k)))
  | unary (op : Op) {k : Nat} (hk : k < slots) : Generated slots (.unary op (.slot (slotOffset k)))
  | ret : Generated slots .ret

/-- What is generated for a program that has no fault, but for the frame. -/
def body (p : Tac.Program) : List Instr :=
  ((selection p).code.map (Instr.mapOperands (Operand.place (selection p).pseudos))).flatMap
    legalizeInstr

theorem code_generation (p : Tac.Program) :
    (generation p).code = reserve (frameSize p.vars.card) ++ body p := by
  rw [← length_pseudos_selection]
  rfl

/-- Each variable has one of as many slots as there are variables. -/
theorem idxOf_lt_card {p : Tac.Program} {i : Tac.Instr} (hi : i ∈ p.code) {x : String}
    (hx : .var x ∈ i.values) : (selection p).pseudos.idxOf x < p.vars.card := by
  rw [← length_pseudos_selection]
  exact List.idxOf_lt_length_of_mem
    (mem_pseudos_selection.mpr (Tac.mem_vars_iff.mpr ⟨i, hi, hx⟩))

theorem generated_legalizeInstr {p : Tac.Program} {i : Tac.Instr} (hi : i ∈ p.code)
    (hfault : selectionFault? i = none) {j : Instr} (hj : j ∈ selectInstr i) :
    ∀ k ∈ legalizeInstr (j.mapOperands (Operand.place (selection p).pseudos)),
      Generated p.vars.card k := by
  cases i with
  | ret value =>
    simp only [selectInstr, List.mem_cons, List.not_mem_nil, or_false] at hj
    rcases hj with rfl | rfl
    · cases value with
      | constant value => exact List.forall_mem_singleton.mpr (.loadImm value .ax)
      | var x =>
        have hx := idxOf_lt_card hi (x := x) (by simp [Tac.Instr.values])
        exact List.forall_mem_singleton.mpr (.loadSlot hx .ax)
    · exact List.forall_mem_singleton.mpr .ret
  | unary op src dest =>
    cases dest with
    | constant value => cases hfault
    | var x =>
      have hx := idxOf_lt_card hi (x := x) (by simp [Tac.Instr.values])
      simp only [selectInstr, List.mem_cons, List.not_mem_nil, or_false] at hj
      rcases hj with rfl | rfl
      · cases src with
        | constant value => exact List.forall_mem_singleton.mpr (.storeImm value hx)
        | var y =>
          -- Two slots: the move goes through the scratch register.
          have hy := idxOf_lt_card hi (x := y) (by simp [Tac.Instr.values])
          exact List.forall_mem_cons.mpr
            ⟨.loadSlot hy .r10, List.forall_mem_singleton.mpr (.storeReg .r10 hx)⟩
      · exact List.forall_mem_singleton.mpr (.unary (opOf op) hx)

theorem generated_body {p : Tac.Program} (h : p.code.findSome? selectionFault? = none) :
    ∀ i ∈ body p, Generated p.vars.card i := by
  intro k hk
  obtain ⟨j', hj', hk⟩ := List.mem_flatMap.mp hk
  obtain ⟨j, hj, rfl⟩ := List.mem_map.mp hj'
  obtain ⟨i, hi, hj⟩ := List.mem_flatMap.mp hj
  exact generated_legalizeInstr hi (List.findSome?_eq_none_iff.mp h i hi) hj k hk

theorem generated_of_mem {p : Tac.Program} (h : p.code.findSome? selectionFault? = none) {i : Instr}
    (hi : i ∈ (generation p).code) :
    (∃ amount, i = .allocate amount) ∨ Generated p.vars.card i := by
  rw [code_generation, List.mem_append] at hi
  rcases hi with hreserve | hbody
  · unfold reserve at hreserve
    split at hreserve
    · exact .inl ⟨_, List.mem_singleton.mp hreserve⟩
    · cases hreserve
  · exact .inr (generated_body h i hbody)

/-- No instruction that is generated moves between slots, or writes to an immediate. -/
theorem Generated.ne {slots : Nat} {i : Instr} (h : Generated slots i) :
    (∀ src dest, i ≠ .mov (.slot src) (.slot dest)) ∧ (∀ src value, i ≠ .mov src (.imm value)) ∧
      ∀ op value, i ≠ .unary op (.imm value) := by
  cases h <;> simp

theorem Generated.offset {slots : Nat} {i : Instr} (h : Generated slots i) {offset : Int32}
    (ho : .slot offset ∈ i.operands) : ∃ k < slots, offset = slotOffset k := by
  cases h with
  | loadImm value r => simp [Instr.operands] at ho
  | loadSlot hk r => exact ⟨_, hk, by simpa [Instr.operands] using ho⟩
  | storeImm value hk => exact ⟨_, hk, by simpa [Instr.operands] using ho⟩
  | storeReg r hk => exact ⟨_, hk, by simpa [Instr.operands] using ho⟩
  | unary op hk => exact ⟨_, hk, by simpa [Instr.operands] using ho⟩
  | ret => cases ho

/-- Legalization drops no operand. -/
theorem exists_mem_legalizeInstr {i : Instr} {o : Operand} (ho : o ∈ i.operands) :
    ∃ j ∈ legalizeInstr i, o ∈ j.operands := by
  rcases legalizeInstr_cases i with hsame | ⟨src, dest, rfl, hsplit⟩
  · exact ⟨i, by rw [hsame]; exact List.mem_singleton_self i, ho⟩
  · rw [hsplit]
    simp only [Instr.operands, List.mem_cons, List.not_mem_nil, or_false] at ho
    rcases ho with rfl | rfl
    · exact ⟨_, List.mem_cons_self, by simp [Instr.operands]⟩
    · exact ⟨_, List.mem_cons_of_mem _ List.mem_cons_self, by simp [Instr.operands]⟩

/-- The slots of the generated code are as many as there are variables. -/
theorem slot_mem_generation_iff {p : Tac.Program} (h : p.code.findSome? selectionFault? = none)
    {offset : Int32} :
    .slot offset ∈ (generation p).operands ↔ ∃ k < p.vars.card, offset = slotOffset k := by
  constructor
  · intro ho
    obtain ⟨i, hi, ho⟩ := List.mem_flatMap.mp ho
    rcases generated_of_mem h hi with ⟨amount, rfl⟩ | hgenerated
    · cases ho
    · exact hgenerated.offset ho
  · rintro ⟨k, hk, rfl⟩
    rw [← length_pseudos_selection] at hk
    -- The variable with that number occurs somewhere, and its slot is there in its place.
    have hx := List.getElem_mem hk
    obtain ⟨i, hi, hoperand⟩ := List.mem_flatMap.mp (mem_pseudos_iff.mp hx)
    have hplaced : .slot (slotOffset k) ∈
        (i.mapOperands (Operand.place (selection p).pseudos)).operands := by
      rw [Instr.operands_mapOperands]
      refine List.mem_map.mpr ⟨_, hoperand, ?_⟩
      rw [Operand.place, (nodup_pseudos _).idxOf_getElem]
    obtain ⟨j, hj, ho⟩ := exists_mem_legalizeInstr hplaced
    refine List.mem_flatMap.mpr ⟨j, ?_, ho⟩
    rw [code_generation]
    exact List.mem_append_right _ (List.mem_flatMap.mpr ⟨_, List.mem_map.mpr ⟨i, hi, rfl⟩, hj⟩)

theorem exists_slotOffset_iff {slots : Nat} (hslots : slots < 2 ^ 29) {offset : Int32} :
    (∃ k < slots, offset = slotOffset k) ↔
      4 ∣ offset.toInt ∧ -4 * slots ≤ offset.toInt ∧ offset.toInt ≤ -4 := by
  constructor
  · rintro ⟨k, hk, rfl⟩
    rw [toInt_slotOffset (hk.trans hslots)]
    omega
  · rintro ⟨⟨m, hm⟩, hlow, hhigh⟩
    refine ⟨(-m - 1).toNat, by omega, Int32.toInt_inj.mp ?_⟩
    rw [toInt_slotOffset (by omega)]
    omega

/-- Every use of the scratch register is one half of a move between slots. -/
def Paired (code : List Instr) : Prop :=
  ∀ before i after, code = before ++ i :: after → .reg .r10 ∈ i.operands →
    (∃ src dest rest, i = .mov (.slot src) (.reg .r10) ∧
      after = .mov (.reg .r10) (.slot dest) :: rest) ∨
    ∃ rest src dest, before = rest ++ [.mov (.slot src) (.reg .r10)] ∧
      i = .mov (.reg .r10) (.slot dest)

theorem paired_of_unscratched {code : List Instr}
    (h : ∀ i ∈ code, ∀ o ∈ i.operands, o ∈ Unscratched) : Paired code := by
  rintro before i after rfl hscratch
  exact absurd rfl (h i (by simp) _ hscratch)

theorem Paired.append {a b : List Instr} (ha : Paired a) (hb : Paired b) : Paired (a ++ b) := by
  intro before i after hsplit hscratch
  rcases List.append_eq_append_iff.mp hsplit with ⟨c, rfl, hc⟩ | ⟨c, rfl, hc⟩
  · rcases hb c i after hc hscratch with hfirst | ⟨rest, src, dest, rfl, hi⟩
    · exact .inl hfirst
    · exact .inr ⟨a ++ rest, src, dest, (List.append_assoc ..).symm, hi⟩
  · cases c with
    | nil =>
      rcases hb [] i after hc.symm hscratch with hfirst | ⟨rest, src, dest, hnil, -⟩
      · exact .inl hfirst
      · simp at hnil
    | cons j c =>
      cases hc
      rcases ha before i c rfl hscratch with ⟨src, dest, rest, hi, rfl⟩ | hsecond
      · exact .inl ⟨src, dest, rest ++ b, hi, rfl⟩
      · exact .inr hsecond

theorem paired_through (src dest : Int32) :
    Paired [.mov (.slot src) (.reg .r10), .mov (.reg .r10) (.slot dest)] := by
  intro before i after hsplit _
  cases before with
  | nil =>
    cases hsplit
    exact .inl ⟨src, dest, [], rfl, rfl⟩
  | cons first before =>
    cases before with
    | nil =>
      cases hsplit
      exact .inr ⟨[], src, dest, rfl, rfl⟩
    | cons second before => simp at hsplit

theorem paired_flatMap_legalizeInstr {code : List Instr}
    (h : ∀ i ∈ code, ∀ o ∈ i.operands, o ∈ Unscratched) : Paired (code.flatMap legalizeInstr) := by
  induction code with
  | nil => exact paired_of_unscratched nofun
  | cons i code ih =>
    rw [List.flatMap_cons]
    refine Paired.append ?_ (ih fun j hj => h j (List.mem_cons_of_mem i hj))
    rcases legalizeInstr_cases i with hsame | ⟨src, dest, rfl, hsplit⟩
    · rw [hsame]
      exact paired_of_unscratched (List.forall_mem_singleton.mpr (h i List.mem_cons_self))
    · rw [hsplit]
      exact paired_through src dest

theorem paired_generation (p : Tac.Program) : Paired (generation p).code := by
  rw [code_generation]
  refine Paired.append (paired_of_unscratched fun i hi o ho => ?_) ?_
  · unfold reserve at hi
    split at hi
    · rw [List.mem_singleton.mp hi] at ho
      cases ho
    · cases hi
  · exact paired_flatMap_legalizeInstr
      (operands_placed (place_eq_ok_iff.mpr ⟨placementFault?_selection p, rfl, rfl⟩))

/-- Code that the machine can encode, and that has a frame of so many slots. -/
structure Legal (slots : Nat) (p : Program) : Prop where
  no_pseudo : ∀ x, .pseudo x ∉ p.operands
  no_slot_to_slot : ∀ src dest, .mov (.slot src) (.slot dest) ∉ p.code
  no_mov_to_imm : ∀ src value, .mov src (.imm value) ∉ p.code
  no_unary_on_imm : ∀ op value, .unary op (.imm value) ∉ p.code
  slot_iff : ∀ offset : Int32, .slot offset ∈ p.operands ↔
    4 ∣ offset.toInt ∧ -4 * slots ≤ offset.toInt ∧ offset.toInt ≤ -4
  frame : ∃ rest, (∀ amount, .allocate amount ∉ rest) ∧
    (slots = 0 ∧ p.code = rest ∨
      0 < slots ∧ ∃ amount : Int32, amount.toInt = 4 * slots ∧ p.code = .allocate amount :: rest)
  scratch : Paired p.code

theorem frame_generation {p : Tac.Program} (hvars : p.vars.card < 2 ^ 29)
    (h : p.code.findSome? selectionFault? = none) :
    ∃ rest, (∀ amount, .allocate amount ∉ rest) ∧
      (p.vars.card = 0 ∧ (generation p).code = rest ∨
        0 < p.vars.card ∧ ∃ amount : Int32, amount.toInt = 4 * p.vars.card ∧
          (generation p).code = .allocate amount :: rest) := by
  have hsize := toInt_frameSize hvars
  have hnone : ∀ amount, .allocate amount ∉ body p := fun amount hmem =>
    nomatch generated_body h _ hmem
  refine ⟨body p, hnone, ?_⟩
  rw [code_generation, reserve]
  by_cases hzero : p.vars.card = 0
  · rw [hzero]
    exact .inl ⟨rfl, rfl⟩
  · have hpos : 0 < frameSize p.vars.card := by
      rw [Int32.lt_iff_toInt_lt, hsize, Int32.toInt_zero]
      omega
    rw [if_pos hpos]
    exact .inr ⟨by omega, _, by rw [hsize]; omega, rfl⟩

/-- Whatever is generated can be encoded, and its frame has one slot for each variable. -/
theorem generate_legal (p : Tac.Program) (q : Program) (hvars : p.vars.card < 2 ^ 29)
    (h : generate p = .ok q) : Legal p.vars.card q := by
  obtain ⟨hfault, rfl⟩ := generate_eq_ok_iff_generation.mp h
  exact {
    no_pseudo := pseudo_not_mem_generation p
    no_slot_to_slot := fun src dest hi =>
      (generated_of_mem hfault hi).elim nofun fun hg => hg.ne.1 src dest rfl
    no_mov_to_imm := fun src value hi =>
      (generated_of_mem hfault hi).elim nofun fun hg => hg.ne.2.1 src value rfl
    no_unary_on_imm := fun op value hi =>
      (generated_of_mem hfault hi).elim nofun fun hg => hg.ne.2.2 op value rfl
    slot_iff := fun offset =>
      (slot_mem_generation_iff hfault).trans (exists_slotOffset_iff hvars)
    frame := frame_generation hvars hfault
    scratch := paired_generation p }

theorem generate_legal_restless :
    restless.vars.card = 2 ∧ generate restless = .ok restlessCode ∧ Legal 2 restlessCode := by
  have hvars : restless.vars.card = 2 := by decide
  have hgen : generate restless = .ok restlessCode := by decide +kernel
  have hlegal := generate_legal restless restlessCode (by rw [hvars]; decide) hgen
  rw [hvars] at hlegal
  exact ⟨hvars, hgen, hlegal⟩

theorem selectionFault?_eq_some_iff {i : Tac.Instr} {fault : Fault} :
    selectionFault? i = some fault ↔
      ∃ op src value, i = .unary op src (.constant value) ∧ fault = .constantDestination i := by
  unfold selectionFault?
  split
  · next op src value => simp [eq_comm]
  · next hne =>
    constructor
    · nofun
    · rintro ⟨op, src, value, rfl, -⟩
      exact absurd rfl (hne op src value)

theorem selectionFault?_eq_none_iff {i : Tac.Instr} :
    selectionFault? i = none ↔ ∀ op src value, i ≠ .unary op src (.constant value) := by
  unfold selectionFault?
  split
  · next op src value => simp
  · next hne => exact ⟨fun _ => hne, fun _ => rfl⟩

theorem generate_eq_error_iff {p : Tac.Program} {fault : Fault} :
    generate p = .error fault ↔ p.code.findSome? selectionFault? = some fault := by
  rw [generate_eq]
  cases p.code.findSome? selectionFault? <;> simp

theorem select_eq_error_iff {p : Tac.Program} {fault : Fault} :
    select p = .error fault ↔ p.code.findSome? selectionFault? = some fault := by
  rw [select]
  cases p.code.findSome? selectionFault? <;> simp

/-- Code generation refuses three-address code exactly if some operator writes to a constant. The
refusal is that of selection and shows the first such instruction. What selection makes is refused
neither by placement nor, after that, by legalization. -/
theorem generate_refuses (p : Tac.Program) :
    ((∃ fault, generate p = .error fault) ↔
      ∃ op src value, .unary op src (.constant value) ∈ p.code) ∧
    (∀ fault, generate p = .error fault → select p = .error fault ∧
      fault.detail = "Unary destination must be a variable" ∧
      ∃ before op src value after, p.code = before ++ .unary op src (.constant value) :: after ∧
        (∀ op' src' value', .unary op' src' (.constant value') ∉ before) ∧
        fault.node = (Tac.Instr.unary op src (.constant value)).term.inline) ∧
    ∀ selected, select p = .ok selected → ∃ placed frame q,
      place selected = .ok (placed, frame) ∧ legalize placed frame = .ok q := by
  refine ⟨⟨?_, ?_⟩, fun fault h => ?_, fun selected h => ?_⟩
  · rintro ⟨fault, h⟩
    obtain ⟨i, hi, hfault⟩ := List.exists_of_findSome?_eq_some (generate_eq_error_iff.mp h)
    obtain ⟨op, src, value, rfl, -⟩ := selectionFault?_eq_some_iff.mp hfault
    exact ⟨op, src, value, hi⟩
  · rintro ⟨op, src, value, hi⟩
    simp only [generate_eq_error_iff, ← Option.isSome_iff_exists, List.findSome?_isSome_iff]
    exact ⟨_, hi, rfl⟩
  · rw [generate_eq_error_iff] at h
    refine ⟨select_eq_error_iff.mpr h, ?_⟩
    obtain ⟨before, i, after, hsplit, hfault, hbefore⟩ := List.findSome?_eq_some_iff.mp h
    obtain ⟨op, src, value, rfl, rfl⟩ := selectionFault?_eq_some_iff.mp hfault
    refine ⟨rfl, before, op, src, value, after, hsplit, fun op' src' value' hmem => ?_, rfl⟩
    exact selectionFault?_eq_none_iff.mp (hbefore _ hmem) op' src' value' rfl
  · obtain ⟨hnone, rfl⟩ := select_eq_ok_iff.mp h
    exact ⟨_, _, _, place_eq_ok_iff.mpr ⟨placementFault?_selection p, rfl, rfl⟩,
      legalize_eq_ok_iff.mpr ⟨legalizationFault?_placed hnone _, rfl⟩⟩

/-- Two operators that write to constants, behind one that does not and a return. -/
def overwriting : Tac.Program :=
  { name := "f"
    code := [.unary .negate (.constant 1) (.var "a"), .ret (.var "a"),
      .unary .complement (.var "a") (.constant (-7)),
      .unary .negate (.constant 2) (.constant 3)] }

theorem generate_refuses_overwriting :
    ∃ fault, generate overwriting = .error fault ∧ select overwriting = .error fault ∧
      fault.detail = "Unary destination must be a variable" ∧
      fault.node = "Unary \x7b op: Complement, src: Var(\"a\"), dest: Constant(-7) \x7d" ∧
      ∃ placed frame q, place (selection restless) = .ok (placed, frame) ∧
        legalize placed frame = .ok q := by
  obtain ⟨hrefuses, hfirst, -⟩ := generate_refuses overwriting
  have hmem : .unary .negate (.constant 2) (.constant 3) ∈ overwriting.code := by decide
  obtain ⟨fault, hfault⟩ := hrefuses.mpr ⟨_, _, _, hmem⟩
  obtain ⟨hselect, hdetail, -⟩ := hfirst fault hfault
  have hnone : restless.code.findSome? selectionFault? = none := by decide
  refine ⟨fault, hfault, hselect, hdetail, ?_,
    (generate_refuses restless).2.2 _ (select_eq_ok_iff.mpr ⟨hnone, rfl⟩)⟩
  have hsame : fault = .constantDestination (.unary .complement (.var "a") (.constant (-7))) :=
    Except.error.inj (hfault.symm.trans (by decide +kernel))
  rw [hsame]
  decide +kernel

end UnaryC.Machine
