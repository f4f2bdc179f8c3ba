import UnaryC.Proofs.Legal
import UnaryC.Proofs.Placement

/-!
# Passes that run twice

Placement leaves no pseudo-register, and refuses slots. So a second placement finds nothing to do if
the first found nothing, and is refused otherwise; behind legalization it is refused at the frame.
Legalization makes code that it leaves as it is.
-/
namespace UnaryC.Machine

open Text (Decimal.ofInt32)

theorem mapOperands_eq_self {f : Operand → Operand} {i : Instr} (h : ∀ o ∈ i.operands, f o = o) :
    i.mapOperands f = i := by
  cases i <;> simp_all [Instr.operands, Instr.mapOperands]

/-- A program that placement accepts has no slots. -/
theorem slot_not_mem_of_place {p : Program} {r : Program × Int32} (h : place p = .ok r)
    (offset : Int32) : .slot offset ∉ p.operands := by
  intro hslot
  obtain ⟨i, hi, ho⟩ := List.mem_flatMap.mp hslot
  have hfault := (operands_placeable (place_eq_ok_iff.mp h).1 i hi _ ho).1
  cases hfault

/-- The frame is empty exactly if there are no pseudo-registers. -/
theorem frame_eq_zero_iff {p q : Program} {frame : Int32} (h : place p = .ok (q, frame))
    (hn : p.names.card < 2 ^ 29) : frame = 0 ↔ ∀ x, .pseudo x ∉ p.operands := by
  obtain ⟨-, -, rfl⟩ := place_eq_ok_iff.mp h
  have hlength : p.pseudos.length = p.names.card := length_pseudosOf p.operands
  have hsize : (frameSize p.pseudos.length).toInt = (4 * p.pseudos.length : Nat) :=
    toInt_frameSize (hlength ▸ hn)
  have hempty : (∀ x, .pseudo x ∉ p.operands) ↔ p.pseudos.length = 0 := by
    simp only [List.length_eq_zero_iff, List.eq_nil_iff_forall_not_mem, mem_pseudos_iff]
  rw [hempty, ← Int32.toInt_inj, hsize, Int32.toInt_zero]
  omega

/-- Without pseudo-registers, placement changes nothing. -/
theorem eq_of_place {p q : Program} {frame : Int32} (h : place p = .ok (q, frame))
    (hp : ∀ x, .pseudo x ∉ p.operands) : q = p := by
  obtain ⟨-, rfl, -⟩ := place_eq_ok_iff.mp h
  have hinstr : ∀ i ∈ p.code, i.mapOperands (Operand.place p.pseudos) = i := by
    intro i hi
    refine mapOperands_eq_self fun o ho => place_of_not_pseudo _ fun x hx => ?_
    exact hp x (List.mem_flatMap.mpr ⟨i, hi, hx ▸ ho⟩)
  rw [List.map_congr_left hinstr, List.map_id']

/-- With pseudo-registers, the placed program has a slot. -/
theorem exists_slot_of_place {p q : Program} {frame : Int32} (h : place p = .ok (q, frame))
    {x : String} (hx : .pseudo x ∈ p.operands) : ∃ offset, .slot offset ∈ q.operands := by
  obtain ⟨-, rfl, -⟩ := place_eq_ok_iff.mp h
  obtain ⟨i, hi, ho⟩ := List.mem_flatMap.mp hx
  refine ⟨slotOffset (p.pseudos.idxOf x), List.mem_flatMap.mpr
    ⟨_, List.mem_map_of_mem hi, ?_⟩⟩
  rw [Instr.operands_mapOperands]
  exact List.mem_map_of_mem (f := Operand.place p.pseudos) ho

/-- A placed program can be placed exactly if its frame is empty. -/
theorem exists_place_of_place_iff {p q : Program} {frame : Int32}
    (h : place p = .ok (q, frame)) (hn : p.names.card < 2 ^ 29) :
    (∃ r, place q = .ok r) ↔ frame = 0 := by
  rw [frame_eq_zero_iff h hn]
  constructor
  · rintro ⟨r, hr⟩ x hx
    obtain ⟨offset, hslot⟩ := exists_slot_of_place h hx
    exact slot_not_mem_of_place hr offset hslot
  · intro hp
    rw [eq_of_place h hp]
    exact ⟨_, h⟩

/-- Behind legalization, placement is refused at the frame. -/
theorem place_legalize {p q : Program} {frame : Int32} (h : legalize p frame = .ok q)
    (hframe : 0 < frame) : place q = .error (.frameReserved frame) := by
  obtain ⟨-, rfl⟩ := legalize_eq_ok_iff.mp h
  rw [reserve, if_pos hframe]
  rfl

theorem node_frameReserved (amount : Int32) :
    (Fault.frameReserved amount).node = "AllocateStack(" ++ Decimal.ofInt32 amount ++ ")" := by
  simp [Fault.node, Instr.term, Text.Term.inline, Text.Term.inlineAll]

/-- The instruction needs no legalization and is not refused. -/
def Instr.Settled (i : Instr) : Prop :=
  (∀ src dest, i ≠ .mov (.slot src) (.slot dest)) ∧ ∀ op value, i ≠ .unary op (.imm value)

theorem legalizeInstr_of_settled {i : Instr} (h : i.Settled) : legalizeInstr i = [i] := by
  rcases legalizeInstr_cases i with hsame | ⟨src, dest, hi, -⟩
  · exact hsame
  · exact absurd hi (h.1 src dest)

theorem settled_legalizeInstr {i : Instr} (h : legalizationFault? i = none) :
    ∀ j ∈ legalizeInstr i, j.Settled := by
  intro j hj
  refine ⟨fun src dest hmov => mov_slots_not_mem_legalizeInstr i src dest (hmov ▸ hj), ?_⟩
  rcases legalizeInstr_cases i with hsame | ⟨src, dest, rfl, hsplit⟩
  · rw [hsame, List.mem_singleton] at hj
    rw [hj]
    exact legalizationFault?_eq_none_iff.mp h
  · rw [hsplit] at hj
    intro op value hop
    rw [hop] at hj
    simp at hj

/-- Legalization makes settled instructions only. -/
theorem settled_of_legalize {p q : Program} {frame : Int32} (h : legalize p frame = .ok q) :
    ∀ i ∈ q.code, i.Settled := by
  obtain ⟨hfault, rfl⟩ := legalize_eq_ok_iff.mp h
  intro i hi
  rcases List.mem_append.mp hi with hreserve | hcode
  · unfold reserve at hreserve
    split at hreserve
    · rw [List.mem_singleton.mp hreserve]
      exact ⟨by simp, by simp⟩
    · cases hreserve
  · obtain ⟨j, hj, hij⟩ := List.mem_flatMap.mp hcode
    exact settled_legalizeInstr (List.findSome?_eq_none_iff.mp hfault j hj) i hij

/-- Legalization leaves settled code as it is, if it has no frame to reserve. -/
theorem legalize_of_settled {p : Program} (h : ∀ i ∈ p.code, i.Settled) {frame : Int32}
    (hframe : frame ≤ 0) : legalize p frame = .ok p := by
  have hcode : p.code.flatMap legalizeInstr = p.code := by
    rw [List.flatMap_congr fun i hi => legalizeInstr_of_settled (h i hi), List.flatMap_singleton']
  refine legalize_eq_ok_iff.mpr ⟨?_, ?_⟩
  · exact List.findSome?_eq_none_iff.mpr fun i hi => legalizationFault?_eq_none_iff.mpr (h i hi).2
  · rw [hcode, reserve, if_neg (Int32.not_lt.mpr hframe), List.nil_append]

/-- What happens if a pass runs again. A placed program is placed again exactly if its frame is
empty; then it is the program from before, and stays it. Otherwise legal code of it is refused, with
the frame shown. Legal code has no move between two slots and is not changed by legalizing it with
no frame. -/
theorem passes_again :
    (∀ (p q : Program) (frame : Int32), p.names.card < 2 ^ 29 → place p = .ok (q, frame) →
      ((∃ r, place q = .ok r) ↔ frame = 0) ∧
      (frame = 0 → q = p ∧ place q = .ok (p, 0)) ∧
      (0 < frame → ∀ f, legalize q frame = .ok f → ∃ fault, place f = .error fault ∧
        fault.detail = "Stack already allocated before pseudo-register replacement" ∧
        fault.node = "AllocateStack(" ++ Decimal.ofInt32 frame ++ ")")) ∧
    ∀ (p f : Program) (frame : Int32), legalize p frame = .ok f →
      (∀ src dest, .mov (.slot src) (.slot dest) ∉ f.code) ∧ ∀ k ≤ 0, legalize f k = .ok f := by
  refine ⟨fun p q frame hn h => ⟨exists_place_of_place_iff h hn, fun hzero => ?_, ?_⟩,
    fun p f frame h => ⟨fun src dest hmov => ?_, fun k hk => ?_⟩⟩
  · have hq := eq_of_place h ((frame_eq_zero_iff h hn).mp hzero)
    rw [hq, hzero] at h
    rw [hq]
    exact ⟨rfl, h⟩
  · intro hframe f hf
    exact ⟨_, place_legalize hf hframe, rfl, node_frameReserved frame⟩
  · exact (settled_of_legalize h _ hmov).1 src dest rfl
  · exact legalize_of_settled (settled_of_legalize h) hk

def crossedLegal : Program :=
  { name := "f"
    code := [.allocate 8, .mov (.imm 1) (.slot (-4)), .mov (.slot (-4)) (.reg .r10),
      .mov (.reg .r10) (.slot (-8)), .unary .neg (.slot (-4)), .mov (.slot (-8)) (.reg .ax),
      .ret] }

/-- Registers only, and a move to an immediate. -/
def slotless : Program :=
  { name := "f", code := [.mov (.imm 1) (.reg .ax), .mov (.reg .ax) (.imm 2), .ret] }

theorem passes_again_crossed :
    crossed.names.card < 2 ^ 29 ∧ place crossed = .ok (crossedSlots, 8) ∧
    (¬ ∃ r, place crossedSlots = .ok r) ∧ legalize crossedSlots 8 = .ok crossedLegal ∧
    (∃ fault, place crossedLegal = .error fault ∧ fault.node = "AllocateStack(8)") ∧
    (∀ k ≤ 0, legalize crossedLegal k = .ok crossedLegal) ∧
    slotless.names.card < 2 ^ 29 ∧ place slotless = .ok (slotless, 0) ∧
    ∃ r, place slotless = .ok r := by
  have hplace : place crossed = .ok (crossedSlots, 8) := by decide +kernel
  have hlegalize : legalize crossedSlots 8 = .ok crossedLegal := by decide +kernel
  have hslotless : place slotless = .ok (slotless, 0) := by decide +kernel
  obtain ⟨hplaces, hlegalizes⟩ := passes_again
  obtain ⟨hiff, -, hrefused⟩ := hplaces _ _ _ (by decide) hplace
  obtain ⟨fault, hfault, -, hnode⟩ := hrefused (by decide) _ hlegalize
  refine ⟨by decide, hplace, fun h => absurd (hiff.mp h) (by decide), hlegalize,
    ⟨fault, hfault, hnode.trans (by decide +kernel)⟩, (hlegalizes _ _ _ hlegalize).2, by decide,
    hslotless, (hplaces _ _ _ (by decide) hslotless).1.mpr rfl⟩

end UnaryC.Machine
