import UnaryC.Proofs.AssemblyReader
import UnaryC.Proofs.Generation
import UnaryC.Proofs.StackFrame

/-!
# Emitted functions keep the stack discipline

Code generation hands out slots, reserves a frame for them, and writes a prologue and epilogue
around the code that uses them. The three agree: the slots are four bytes each and lie in the frame,
whose size is four bytes for each variable. So the caller finds its stack and frame pointers and the
return address as they were.
-/
namespace UnaryC

namespace Machine

theorem ret_mem_body {p : Tac.Program} {v : Tac.Value} (h : .ret v ∈ p.code) : .ret ∈ body p := by
  refine List.mem_flatMap.mpr ⟨.ret, List.mem_map.mpr ⟨.ret, ?_, rfl⟩, List.mem_singleton.mpr rfl⟩
  exact List.mem_flatMap.mpr ⟨.ret v, h, by simp [selectInstr]⟩

end Machine

namespace X86

open Machine (Generated)

/-- How far the instruction moves the stack pointer down for a frame. -/
def Instr.reserved : Instr → Nat
  | subq amount .rsp => amount.toInt.toNat
  | _ => 0

def reserved : List Instr → Nat
  | [] => 0
  | i :: code => i.reserved + reserved code

theorem reserved_append (a b : List Instr) : reserved (a ++ b) = reserved a + reserved b := by
  induction a with
  | nil => simp [reserved]
  | cons i a ih => simp [reserved, ih, Nat.add_assoc]

theorem within_slot {slots k : Nat} (hslots : slots < 2 ^ 29) (hk : k < slots) :
    (Operand.frame (Machine.slotOffset k)).Within (4 * slots) := by
  have hoffset := Machine.toInt_slotOffset (Nat.lt_trans hk hslots)
  exact ⟨by omega, by omega⟩

theorem expand_generated {slots : Nat} (hslots : slots < 2 ^ 29) {i : Machine.Instr}
    (h : Generated slots i) : i = .ret ∨ ∃ x, expand i = .ok [x] ∧ x.Within (4 * slots) := by
  cases h with
  | loadImm value r => exact .inr ⟨_, rfl, .load trivial⟩
  | loadSlot hk r => exact .inr ⟨_, rfl, .load (within_slot hslots hk)⟩
  | storeImm value hk => exact .inr ⟨_, rfl, .store nofun (within_slot hslots hk)⟩
  | storeReg r hk => exact .inr ⟨_, rfl, .store nofun (within_slot hslots hk)⟩
  | unary op hk => exact .inr ⟨_, rfl, .unary (within_slot hslots hk)⟩
  | ret => exact .inl rfl

theorem expandAll_cons {i : Machine.Instr} {code : List Machine.Instr} {head tail : List Instr}
    (hi : expand i = .ok head) (hcode : expandAll code = .ok tail) :
    expandAll (i :: code) = .ok (head ++ tail) :=
  expandAll_cons_eq_ok_iff.mpr ⟨head, tail, hi, hcode, rfl⟩

theorem expandAll_append {a b : List Machine.Instr} {first rest : List Instr}
    (ha : expandAll a = .ok first) (hb : expandAll b = .ok rest) :
    expandAll (a ++ b) = .ok (first ++ rest) := by
  induction a generalizing first with
  | nil =>
    cases ha
    exact hb
  | cons i a ih =>
    obtain ⟨head, tail, hi, htail, rfl⟩ := expandAll_cons_eq_ok_iff.mp ha
    rw [List.append_assoc]
    exact expandAll_cons hi (ih htail)

theorem expandAll_reserve (frame : Int32) :
    expandAll (Machine.reserve frame) = .ok (reservation frame) := by
  unfold Machine.reserve reservation
  split <;> rfl

/-- Generated code keeps to the frame up to its first return, and reserves nothing. -/
theorem expandAll_generated {slots : Nat} (hslots : slots < 2 ^ 29) {code : List Machine.Instr}
    (h : ∀ i ∈ code, Generated slots i) :
    ∃ xs, expandAll code = .ok xs ∧ reserved xs = 0 ∧
      (.ret ∉ code → ∀ x ∈ xs, x.Within (4 * slots)) := by
  induction code with
  | nil => exact ⟨[], rfl, rfl, nofun⟩
  | cons i code ih =>
    obtain ⟨tail, htail, hzero, hwithin⟩ := ih fun j hj => h j (List.mem_cons_of_mem i hj)
    rcases expand_generated hslots (h i List.mem_cons_self) with rfl | ⟨x, hx, hxwithin⟩
    · exact ⟨_, expandAll_cons rfl htail, by simpa [reserved, Instr.reserved] using hzero,
        fun hret => absurd List.mem_cons_self hret⟩
    · refine ⟨_, expandAll_cons hx htail, ?_, fun hret => List.forall_mem_cons.mpr ⟨hxwithin, ?_⟩⟩
      · cases hxwithin <;> simpa [reserved, Instr.reserved] using hzero
      · exact hwithin fun hmem => hret (List.mem_cons_of_mem i hmem)

theorem reserved_reservation (amount : Int32) :
    reserved (reservation amount) = amount.toInt.toNat := by
  unfold reservation
  split
  · simp [reserved, Instr.reserved]
  · next hpos =>
    rw [Int32.lt_iff_toInt_lt, Int32.toInt_zero] at hpos
    change 0 = amount.toInt.toNat
    omega

theorem reserved_framed (amount : Int32) (body rest : List Instr) :
    reserved (framed amount body rest) =
      reserved (reservation amount) + (reserved body + reserved rest) := by
  simp [framed, reserved, reserved_append, Instr.reserved]

/-- The emitted instructions are a function whose body keeps to its frame. -/
theorem instructions_generation {p : Tac.Program} (hvars : p.vars.card < 2 ^ 29)
    (hfault : p.code.findSome? Machine.selectionFault? = none) {v : Tac.Value}
    (hret : .ret v ∈ p.code) :
    ∃ inner rest, instructions (Machine.generation p) =
        .ok (framed (Machine.frameSize p.vars.card) inner rest) ∧
      (∀ x ∈ inner, x.Within (4 * p.vars.card)) ∧ reserved inner = 0 ∧ reserved rest = 0 := by
  obtain ⟨a, b, hbody, ha⟩ := List.eq_append_cons_of_mem (Machine.ret_mem_body hret)
  have hgenerated := Machine.generated_body hfault
  rw [hbody] at hgenerated
  obtain ⟨inner, hinner, hzero, hwithin⟩ := expandAll_generated hvars fun i hi =>
    hgenerated i (List.mem_append_left _ hi)
  obtain ⟨rest, hrest, hzero', -⟩ := expandAll_generated hvars fun i hi =>
    hgenerated i (List.mem_append_right _ (List.mem_cons_of_mem _ hi))
  refine ⟨inner, rest, ?_, hwithin ha, hzero, hzero'⟩
  have hall := expandAll_append (expandAll_reserve (Machine.frameSize p.vars.card))
    (expandAll_append hinner (expandAll_cons (i := .ret) rfl hrest))
  rw [← hbody, ← Machine.code_generation] at hall
  rw [instructions, hall]
  rfl

/-- Whatever is generated for three-address code with a return lists instructions that keep the
stack discipline, from every state with room for the frame and the saved frame pointer. No other
instructions have that text. -/
theorem generate_keepsStack (p : Tac.Program) (q : Machine.Program)
    (hret : ∃ v, .ret v ∈ p.code) (hvars : p.vars.card < 2 ^ 29)
    (h : Machine.generate p = .ok q) :
    ∃ code, (∀ code', q.assembly = .ok (listing q.name code') ↔ code' = code) ∧
      reserved code = 4 * p.vars.card ∧
      ∀ s : State, 8 + reserved code ≤ (s.regs .rsp).toNat →
        ∃ t trace, run s code = some (t, trace) ∧ KeepsStack (reserved code) s t trace := by
  obtain ⟨v, hv⟩ := hret
  rw [Machine.generate_eq] at h
  cases hfault : p.code.findSome? Machine.selectionFault? with
  | some fault => rw [hfault] at h; cases h
  | none =>
    rw [hfault] at h
    cases h
    obtain ⟨inner, rest, hcode, hinner, hzero, hzero'⟩ := instructions_generation hvars hfault hv
    have hsize := Machine.toInt_frameSize hvars
    have hreserved : reserved (framed (Machine.frameSize p.vars.card) inner rest) =
        4 * p.vars.card := by
      rw [reserved_framed, reserved_reservation, hzero, hzero', hsize, Int.toNat_natCast,
        Nat.add_zero]
    refine ⟨framed (Machine.frameSize p.vars.card) inner rest, fun code' => ?_, hreserved, ?_⟩
    · rw [assembly_eq_ok_listing_iff, hcode, Except.ok.injEq, eq_comm]
    · rw [hreserved]
      exact fun s hs => run_framed hsize hinner hs rest

/-- The stack begins at the lowest address, with as little room as a frame of two slots needs. -/
def tight : State :=
  { regs := fun
      | .rsp => 16
      | .rbp => 0xdeadbeef
      | _ => 0
    memory := fun a => a.setWidth 8 }

theorem generate_keepsStack_restless :
    (∃ v, .ret v ∈ Machine.restless.code) ∧ Machine.restless.vars.card < 2 ^ 29 ∧
      Machine.generate Machine.restless = .ok Machine.restlessCode ∧
      ∃ code, (∀ code', Machine.restlessCode.assembly = .ok (listing "f" code') ↔ code' = code) ∧
        reserved code = 8 ∧ 8 + reserved code ≤ (tight.regs .rsp).toNat ∧
        ∃ t trace, run tight code = some (t, trace) ∧ KeepsStack 8 tight t trace := by
  have hret : ∃ v, .ret v ∈ Machine.restless.code := ⟨.var "a", by decide⟩
  have hvars : Machine.restless.vars.card = 2 := by decide
  have hgen : Machine.generate Machine.restless = .ok Machine.restlessCode := by decide +kernel
  obtain ⟨code, htext, hreserved, hrun⟩ :=
    generate_keepsStack Machine.restless Machine.restlessCode hret (by rw [hvars]; decide) hgen
  rw [hvars] at hreserved
  have hroom : 8 + reserved code ≤ (tight.regs .rsp).toNat := by rw [hreserved]; decide
  refine ⟨hret, by rw [hvars]; decide, hgen, code, htext, hreserved, hroom, ?_⟩
  rw [hreserved] at hrun
  exact hrun tight (hreserved ▸ hroom)

end X86

end UnaryC
