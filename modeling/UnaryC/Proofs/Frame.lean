import Mathlib.Algebra.Group.Nat.Defs
import Mathlib.Algebra.Group.Int.Defs
import Mathlib.Data.List.Basic
import Mathlib.Data.List.Dedup
import Mathlib.Data.List.Nodup
import UnaryC.Machine.Frame
import UnaryC.Proofs.RunSimulation

/-!
# Slots for pseudo-registers

Offsets are 32-bit words. Up to 2^29 slots of four bytes their arithmetic is exact, so different
pseudo-registers get different slots and a program runs on the slots as it ran on them.
-/
namespace UnaryC.Machine

theorem toInt_slotOffset {number : Nat} (h : number < 2 ^ 29) :
    (slotOffset number).toInt = -4 * (number + 1) := by
  unfold slotOffset
  exact Int32.toInt_ofInt_of_le (by omega) (by omega)

theorem slotOffset_inj {m n : Nat} (hm : m < 2 ^ 29) (hn : n < 2 ^ 29)
    (h : slotOffset m = slotOffset n) : m = n := by
  have he := congrArg Int32.toInt h
  rw [toInt_slotOffset hm, toInt_slotOffset hn] at he
  omega

theorem toInt_frameSize {slots : Nat} (h : slots < 2 ^ 29) :
    (frameSize slots).toInt = (4 * slots : Nat) := by
  rw [frameSize, Int32.toInt_ofInt_of_le (by omega) (by omega)]
  omega

theorem nodup_eraseDups {α : Type} [BEq α] [LawfulBEq α] (l : List α) : l.eraseDups.Nodup := by
  induction hn : l.length using Nat.strong_induction_on generalizing l with
  | h n ih =>
    cases l with
    | nil => simp
    | cons a l =>
      rw [List.eraseDups_cons, List.nodup_cons]
      have hl := List.length_filter_le (fun b => !b == a) l
      rw [List.length_cons] at hn
      exact ⟨by simp, ih _ (by omega) _ rfl⟩

/-- The names of pseudo-registers in a list of operands, in the order of their first occurrence. -/
def pseudosOf (operands : List Operand) : List String :=
  (operands.filterMap Operand.pseudo?).eraseDups

theorem nodup_pseudosOf (operands : List Operand) : (pseudosOf operands).Nodup :=
  nodup_eraseDups _

theorem mem_pseudosOf {operands : List Operand} {x : String} :
    x ∈ pseudosOf operands ↔ .pseudo x ∈ operands := by
  simp only [pseudosOf, List.mem_eraseDups, List.mem_filterMap]
  constructor
  · rintro ⟨o, ho, hx⟩
    cases o with
    | pseudo name => cases hx; exact ho
    | _ => cases hx
  · exact fun h => ⟨_, h, rfl⟩

theorem nodup_pseudos (p : Program) : p.pseudos.Nodup :=
  nodup_pseudosOf p.operands

theorem mem_pseudos_iff {p : Program} {x : String} : x ∈ p.pseudos ↔ .pseudo x ∈ p.operands :=
  mem_pseudosOf

/-- The operands that can be given a place among the slots of `names`. -/
def Placeable (names : List String) : Set Operand :=
  {o | o.placementFault? = none ∧ ∀ x, o = .pseudo x → x ∈ names}

theorem place_eq_slot_iff {names : List String} {o : Operand} (ho : o ∈ Placeable names)
    {offset : Int32} :
    o.place names = .slot offset ↔
      ∃ x ∈ names, o = .pseudo x ∧ offset = slotOffset (names.idxOf x) := by
  cases o with
  | slot offset' => cases ho.1
  | pseudo name =>
    have hname := ho.2 name rfl
    simp only [Operand.place, Operand.slot.injEq, Operand.pseudo.injEq]
    constructor
    · exact fun h => ⟨name, hname, rfl, h.symm⟩
    · rintro ⟨x, -, rfl, h⟩
      exact h.symm
  | imm value => simp [Operand.place]
  | reg register => simp [Operand.place]

theorem place_of_not_pseudo (names : List String) {o : Operand} (ho : ∀ x, o ≠ .pseudo x) :
    o.place names = o := by
  cases o with
  | pseudo name => exact absurd rfl (ho name)
  | _ => rfl

/-- Slots keep apart as many pseudo-registers as there are slots below the frame pointer. -/
theorem separates_place {names : List String} (hn : names.length ≤ 2 ^ 29) :
    Separates (Operand.place names) (Placeable names) := by
  constructor
  · intro o ho o' ho' h
    by_cases hx : ∃ x, o = .pseudo x
    · obtain ⟨x, rfl⟩ := hx
      have hmem := ho.2 x rfl
      obtain ⟨y, hy, rfl, he⟩ := (place_eq_slot_iff ho').mp h.symm
      have hlx := List.idxOf_lt_length_of_mem hmem
      have hly := List.idxOf_lt_length_of_mem hy
      have hidx := slotOffset_inj (by omega) (by omega) he
      rw [(List.idxOf_inj hmem).mp hidx]
    · have hplace := place_of_not_pseudo names fun x hox => hx ⟨x, hox⟩
      rw [hplace] at h
      by_cases hy : ∃ y, o' = .pseudo y
      · obtain ⟨y, rfl⟩ := hy
        rw [h] at ho
        cases ho.1
      · rw [h]
        exact place_of_not_pseudo names fun y hoy => hy ⟨y, hoy⟩
  · intro o ho
    cases o <;> simp [Operand.place]

theorem place_eq_ok_iff {p q : Program} {frame : Int32} :
    place p = .ok (q, frame) ↔ p.code.findSome? Instr.placementFault? = none ∧
      q = { p with code := p.code.map (Instr.mapOperands (Operand.place p.pseudos)) } ∧
      frame = frameSize p.pseudos.length := by
  unfold place
  cases p.code.findSome? Instr.placementFault? with
  | none => simp [eq_comm]
  | some fault => simp

/-- A program that can be placed has only operands that can. -/
theorem operands_placeable {p : Program} (h : p.code.findSome? Instr.placementFault? = none) :
    ∀ i ∈ p.code, ∀ o ∈ i.operands, o ∈ Placeable p.pseudos := by
  intro i hi o ho
  refine ⟨?_, ?_⟩
  · have hfault := List.findSome?_eq_none_iff.mp h i hi
    cases i with
    | allocate amount => cases hfault
    | _ => exact List.findSome?_eq_none_iff.mp hfault o ho
  · rintro x rfl
    exact mem_pseudos_iff.mpr (List.mem_flatMap.mpr ⟨i, hi, ho⟩)

theorem run_place {p q : Program} {frame : Int32} (h : place p = .ok (q, frame))
    (hn : p.pseudos.length ≤ 2 ^ 29) {s t : State}
    (hst : Renames (Operand.place p.pseudos) (Placeable p.pseudos) s t) :
    Ending.Rel (Renames (Operand.place p.pseudos) (Placeable p.pseudos))
      (run s p.code) (run t q.code) := by
  obtain ⟨hfault, rfl, -⟩ := place_eq_ok_iff.mp h
  exact run_mapOperands (separates_place hn) p.code (operands_placeable hfault) s t hst

end UnaryC.Machine
