import UnaryC.Proofs.ByteMachine

/-!
# Frames on the stack

A function that keeps to its frame moves neither the frame pointer nor the stack pointer, and
touches memory only between the two. The instructions that do so are told by their operands alone.
Around them, the prologue saves the caller's frame pointer above the frame and the epilogue brings
it back, along with the stack pointer.
-/
namespace UnaryC.X86

/-- Runs all of the code, which must not return. -/
def exec (s : State) : List Instr → Option (State × List Access)
  | [] => some (s, [])
  | i :: code =>
    (s.step i).bind fun (s, first) => (exec s code).map fun (t, rest) => (t, first ++ rest)

theorem exec_cons {s t u : State} {i : Instr} {code : List Instr} {first rest : List Access}
    (hstep : s.step i = some (t, first)) (hcode : exec t code = some (u, rest)) :
    exec s (i :: code) = some (u, first ++ rest) := by
  simp [exec, hstep, hcode]

theorem exec_append {s t u : State} {a b : List Instr} {first rest : List Access}
    (ha : exec s a = some (t, first)) (hb : exec t b = some (u, rest)) :
    exec s (a ++ b) = some (u, first ++ rest) := by
  induction a generalizing s first with
  | nil =>
    obtain ⟨rfl, rfl⟩ := Prod.mk.inj (Option.some.inj ha)
    exact hb
  | cons i a ih =>
    obtain ⟨⟨s', head⟩, hstep, hrest⟩ := Option.bind_eq_some_iff.mp ha
    obtain ⟨⟨t', tail⟩, hexec, hpair⟩ := Option.map_eq_some_iff.mp hrest
    obtain ⟨rfl, rfl⟩ := Prod.mk.inj hpair
    rw [List.append_assoc]
    exact exec_cons hstep (ih hexec)

/-- A run stops at the first return, whatever follows it. -/
theorem run_append_ret {s t : State} {code : List Instr} {trace : List Access}
    (h : exec s code = some (t, trace)) (rest : List Instr) :
    run s (code ++ .ret :: rest) = some (t, trace) := by
  induction code generalizing s trace with
  | nil => exact h
  | cons i code ih =>
    obtain ⟨⟨s', head⟩, hstep, htail⟩ := Option.bind_eq_some_iff.mp h
    obtain ⟨⟨t', tail⟩, hexec, hpair⟩ := Option.map_eq_some_iff.mp htail
    obtain ⟨rfl, rfl⟩ := Prod.mk.inj hpair
    have hrun : run s (i :: (code ++ .ret :: rest)) =
        (s.step i).bind fun (s, first) =>
          (run s (code ++ .ret :: rest)).map fun (t, rest) => (t, first ++ rest) := by
      cases i with
      | ret => cases hstep
      | _ => rfl
    rw [List.cons_append, hrun]
    simp [hstep, ih hexec]

/-- The access stays between two addresses. -/
def Access.Inside (lo hi : Nat) (x : Access) : Prop :=
  lo ≤ x.address.toNat ∧ x.address.toNat + x.size ≤ hi

/-- The access reads or writes the byte at `a`. -/
def Access.Covers (x : Access) (a : BitVec 64) : Prop :=
  (a - x.address).toNat < x.size

theorem Access.Inside.of_covers {lo hi : Nat} {x : Access} {a : BitVec 64} (hx : x.Inside lo hi)
    (hhi : hi ≤ 2 ^ 64) (ha : x.Covers a) : lo ≤ a.toNat ∧ a.toNat < hi := by
  obtain ⟨hlow, hhigh⟩ := hx
  have hdist : (2 ^ 64 - x.address.toNat + a.toNat) % 2 ^ 64 < x.size := by
    rw [← BitVec.toNat_sub]
    exact ha
  have hlt := x.address.isLt
  have hlt' := a.isLt
  omega

/-- Memory is the same but between two addresses. -/
def SameOutside (lo hi : Nat) (m m' : Memory) : Prop :=
  ∀ a : BitVec 64, ¬ (lo ≤ a.toNat ∧ a.toNat < hi) → m' a = m a

namespace SameOutside

variable {lo hi : Nat} {m m' m'' : Memory}

theorem trans (h : SameOutside lo hi m m') (h' : SameOutside lo hi m' m'') :
    SameOutside lo hi m m'' :=
  fun a ha => (h' a ha).trans (h a ha)

theorem mono {lo' hi' : Nat} (h : SameOutside lo hi m m') (hlo : lo' ≤ lo) (hhi : hi ≤ hi') :
    SameOutside lo' hi' m m' :=
  fun a ha => h a (by omega)

/-- A word above stays as it is. -/
theorem load (h : SameOutside lo hi m m') {a : BitVec 64} {n : Nat} (ha : hi ≤ a.toNat)
    (hn : a.toNat + n ≤ 2 ^ 64 + lo) : m'.load a n = m.load a n := by
  refine Memory.load_congr fun k hk => h _ ?_
  have hlt := a.isLt
  rw [BitVec.toNat_add, BitVec.toNat_ofNat]
  omega

end SameOutside

theorem write?_memory {s t : State} {v : BitVec 32} {dest : Operand} {a : BitVec 64} (i : Instr)
    (h : s.write? v dest = some t)
    (ha : ∀ x ∈ s.accesses i .write dest, ¬ x.Covers a) : t.memory a = s.memory a := by
  cases dest with
  | imm value => cases h
  | reg register => cases h; rfl
  | frame offset =>
    cases h
    exact if_neg (ha _ (List.mem_singleton.mpr rfl))

theorem step_movl {s : State} {src dest : Operand}
    (h : ∀ o o', src = .frame o → dest ≠ .frame o') :
    s.step (.movl src dest) = (s.write? (s.read src) dest).map fun t =>
      (t, s.accesses (.movl src dest) .read src ++ s.accesses (.movl src dest) .write dest) := by
  cases src with
  | frame o =>
    cases dest with
    | frame o' => exact absurd rfl (h o o' rfl)
    | _ => rfl
  | _ => cases dest <;> rfl

/-- The record is complete: memory changes only where a write is recorded. -/
theorem step_memory {s t : State} {i : Instr} {accesses : List Access} {a : BitVec 64}
    (h : s.step i = some (t, accesses))
    (ha : ∀ x ∈ accesses, x.kind = .write → ¬ x.Covers a) : t.memory a = s.memory a := by
  have hlog : ∀ {v : BitVec 32} {dest : Operand} {reads : List Access},
      ((s.write? v dest).map fun t => (t, reads ++ s.accesses i .write dest)) =
        some (t, accesses) → t.memory a = s.memory a := by
    intro v dest reads h
    obtain ⟨t', hwrite, hpair⟩ := Option.map_eq_some_iff.mp h
    obtain ⟨rfl, rfl⟩ := Prod.mk.inj hpair
    refine write?_memory i hwrite fun x hx => ha x (List.mem_append_right _ hx) ?_
    cases dest with
    | frame offset => rw [List.mem_singleton.mp hx]
    | _ => cases hx
  cases i with
  | pushq src =>
    cases h
    exact if_neg (ha _ (List.mem_singleton.mpr rfl) rfl)
  | popq dest => cases h; rfl
  | movq src dest => cases h; rfl
  | subq amount dest => cases h; rfl
  | movl src dest =>
    by_cases hmem : ∃ o o', src = .frame o ∧ dest = .frame o'
    · obtain ⟨o, o', rfl, rfl⟩ := hmem
      cases h
    · rw [step_movl fun o o' ho ho' => hmem ⟨o, o', ho, ho'⟩] at h
      exact hlog h
  | unary op dest => exact hlog h
  | ret => cases h

/-- Places in the frame are among its lowest `n` bytes. -/
def Operand.Within (n : Nat) : Operand → Prop
  | frame offset => -n ≤ offset.toInt ∧ offset.toInt ≤ -4
  | _ => True

/-- The instructions that keep to a frame of `n` bytes. -/
inductive Instr.Within (n : Nat) : Instr → Prop
  | load {src : Operand} {r : Machine.Register} (hsrc : src.Within n) :
      Within n (.movl src (.reg r))
  | store {src : Operand} {o : Int32} (hsrc : ∀ o', src ≠ .frame o')
      (hdest : (Operand.frame o).Within n) : Within n (.movl src (.frame o))
  | unary {op : Machine.Op} {o : Int32} (hdest : (Operand.frame o).Within n) :
      Within n (.unary op (.frame o))

/-- The frame lies between the stack pointer and the frame pointer, which is `b`. -/
structure State.Framed (b : BitVec 64) (n : Nat) (s : State) : Prop where
  base : s.regs .rbp = b
  top : (s.regs .rsp).toNat + n = b.toNat

/-- The access is made to the frame, while the stack pointer is at its lower end. -/
def Access.InFrame (b : BitVec 64) (n : Nat) (x : Access) : Prop :=
  x.Inside (b.toNat - n) b.toNat ∧ x.top.toNat = b.toNat - n

namespace State.Framed

variable {b : BitVec 64} {n : Nat} {s t : State}

theorem toNat_frameAddress (hs : s.Framed b n) {o : Int32} (ho : (Operand.frame o).Within n) :
    ((s.frameAddress o).toNat : Int) = b.toNat + o.toInt := by
  have hext : o.toBitVec.signExtend 64 = BitVec.ofInt 64 o.toInt := rfl
  obtain ⟨hlow, hhigh⟩ := ho
  have htop := hs.top
  have hb := b.isLt
  rw [frameAddress, hs.base, hext, BitVec.toNat_add, BitVec.toNat_ofInt]
  omega

theorem accesses_inFrame (hs : s.Framed b n) {o : Operand} (ho : o.Within n) {i : Instr}
    {kind : AccessKind} : ∀ x ∈ s.accesses i kind o, x.InFrame b n := by
  intro x hx
  cases o with
  | frame offset =>
    obtain rfl := List.mem_singleton.mp hx
    have haddress := hs.toNat_frameAddress ho
    have htop := hs.top
    obtain ⟨hlow, hhigh⟩ := ho
    refine ⟨⟨?_, ?_⟩, ?_⟩ <;> simp only <;> omega
  | _ => cases hx

theorem write? (hs : s.Framed b n) {v : BitVec 32} {dest : Operand}
    (h : s.write? v dest = some t) : t.Framed b n := by
  cases dest with
  | imm value => cases h
  | reg register =>
    cases h
    exact ⟨by cases register <;> exact hs.base, by cases register <;> exact hs.top⟩
  | frame offset =>
    cases h
    exact ⟨hs.base, hs.top⟩

theorem of_write (hs : s.Framed b n) {i : Instr} {v : BitVec 32} {src dest : Operand}
    (hstep : s.step i = (s.write? v dest).map fun t =>
      (t, s.accesses i .read src ++ s.accesses i .write dest))
    (hsrc : src.Within n) (hdest : dest.Within n) (himm : ∀ value, dest ≠ .imm value) :
    ∃ t accesses, s.step i = some (t, accesses) ∧ t.Framed b n ∧
      ∀ x ∈ accesses, x.InFrame b n := by
  obtain ⟨t, ht⟩ : ∃ t, s.write? v dest = some t := by
    cases dest with
    | imm value => exact absurd rfl (himm value)
    | reg register => exact ⟨_, rfl⟩
    | frame offset => exact ⟨_, rfl⟩
  rw [ht] at hstep
  refine ⟨t, _, hstep, hs.write? ht, fun x hx => ?_⟩
  rcases List.mem_append.mp hx with hx | hx
  · exact hs.accesses_inFrame hsrc x hx
  · exact hs.accesses_inFrame hdest x hx

/-- One instruction that keeps to the frame. -/
theorem step (hs : s.Framed b n) {i : Instr} (hi : i.Within n) :
    ∃ t accesses, s.step i = some (t, accesses) ∧ t.Framed b n ∧
      ∀ x ∈ accesses, x.InFrame b n := by
  cases hi with
  | load hsrc => exact hs.of_write (step_movl fun _ _ _ => nofun) hsrc trivial nofun
  | @store src o hsrc hdest =>
    have hwithin : src.Within n := by
      cases src with
      | frame o' => exact absurd rfl (hsrc o')
      | _ => trivial
    exact hs.of_write (step_movl fun o' _ ho' => absurd ho' (hsrc o')) hwithin hdest nofun
  | unary hdest => exact hs.of_write rfl hdest hdest nofun

/-- Any number of instructions that keep to the frame. -/
theorem exec (hs : s.Framed b n) {code : List Instr} (hcode : ∀ i ∈ code, i.Within n) :
    ∃ t trace, exec s code = some (t, trace) ∧ t.Framed b n ∧
      SameOutside (b.toNat - n) b.toNat s.memory t.memory ∧ ∀ x ∈ trace, x.InFrame b n := by
  induction code generalizing s with
  | nil => exact ⟨s, [], rfl, hs, fun _ _ => rfl, nofun⟩
  | cons i code ih =>
    obtain ⟨s', first, hstep, hs', hfirst⟩ := hs.step (hcode i List.mem_cons_self)
    obtain ⟨t, rest, hexec, ht, hsame, hrest⟩ :=
      ih hs' fun j hj => hcode j (List.mem_cons_of_mem i hj)
    refine ⟨t, first ++ rest, exec_cons hstep hexec, ht, fun a ha => ?_, fun x hx => ?_⟩
    · rw [hsame a ha]
      refine step_memory hstep fun x hx _ hcovers => ha ?_
      exact (hfirst x hx).1.of_covers (Nat.le_of_lt b.isLt) hcovers
    · exact (List.mem_append.mp hx).elim (hfirst x) (hrest x)

end State.Framed

def reservation (amount : Int32) : List Instr :=
  if 0 < amount then [.subq amount .rsp] else []

/-- A function with a frame of that size: prologue, body and epilogue, and what follows its first
return. -/
def framed (amount : Int32) (body rest : List Instr) : List Instr :=
  .pushq .rbp :: .movq .rsp .rbp :: (reservation amount ++ (body ++
    .movq .rbp .rsp :: .popq .rbp :: .ret :: rest))

/-- The write that saves the caller's frame pointer. -/
def State.saving (s : State) : Access :=
  ⟨.pushq .rbp, .write, s.regs .rsp - 8, 8, s.regs .rsp - 8⟩

/-- A frame below the saved frame pointer of the caller. -/
theorem exec_prologue {s : State} {amount : Int32} {n : Nat} (hn : amount.toInt = n)
    (hspace : 8 + n ≤ (s.regs .rsp).toNat) :
    ∃ t, exec s (.pushq .rbp :: .movq .rsp .rbp :: reservation amount) =
        some (t, [s.saving]) ∧
      t.Framed (s.regs .rsp - 8) n ∧
      t.memory = s.memory.store (s.regs .rsp - 8) 8 (s.regs .rbp) := by
  unfold reservation
  split
  · refine ⟨_, rfl, ⟨rfl, ?_⟩, rfl⟩
    have hext : amount.toBitVec.signExtend 64 = BitVec.ofInt 64 amount.toInt := rfl
    change (s.regs .rsp - 8 - amount.toBitVec.signExtend 64).toNat + n = (s.regs .rsp - 8).toNat
    have hlt := (s.regs .rsp).isLt
    rw [hext, hn, BitVec.toNat_sub, BitVec.toNat_sub, BitVec.toNat_ofInt]
    have height : (8 : BitVec 64).toNat = 8 := rfl
    omega
  · next hpos =>
    have hzero : n = 0 := by
      rw [Int32.lt_iff_toInt_lt, hn, Int32.toInt_zero] at hpos
      omega
    exact ⟨_, rfl, ⟨rfl, by rw [hzero]; rfl⟩, rfl⟩

theorem exec_epilogue (t : State) :
    ∃ u, exec t [.movq .rbp .rsp, .popq .rbp] =
        some (u, [⟨.popq .rbp, .read, t.regs .rbp, 8, t.regs .rbp⟩]) ∧
      u.regs .rsp = t.regs .rbp + 8 ∧ u.regs .rbp = t.memory.load (t.regs .rbp) 8 ∧
      u.memory = t.memory :=
  ⟨_, rfl, rfl, rfl, rfl⟩

theorem toNat_sub_eight {a : BitVec 64} (ha : 8 ≤ a.toNat) : (a - 8).toNat = a.toNat - 8 := by
  have hlt := a.isLt
  have height : (8 : BitVec 64).toNat = 8 := rfl
  rw [BitVec.toNat_sub]
  omega

theorem saving_inside {s : State} (hspace : 8 ≤ (s.regs .rsp).toNat) :
    s.saving.Inside ((s.regs .rsp).toNat - 8) (s.regs .rsp).toNat := by
  have hbase := toNat_sub_eight hspace
  exact ⟨Nat.le_of_eq hbase.symm, by simp only [State.saving, hbase]; omega⟩

theorem sameOutside_store {s : State} (hspace : 8 ≤ (s.regs .rsp).toNat) :
    SameOutside ((s.regs .rsp).toNat - 8) (s.regs .rsp).toNat s.memory
      (s.memory.store (s.regs .rsp - 8) 8 (s.regs .rbp)) :=
  fun _ ha => if_neg fun hcovers =>
    ha ((saving_inside hspace).of_covers (Nat.le_of_lt (s.regs .rsp).isLt) hcovers)

/-- The accesses of a function with a frame of `n` bytes that is entered at `s`: it saves the frame
pointer of its caller, uses its frame, and reads from the top of the stack what it saved. -/
inductive FrameAccess (s : State) (n : Nat) : Access → Prop
  | save : FrameAccess s n s.saving
  | body {x : Access} (h : x.InFrame (s.regs .rsp - 8) n) : FrameAccess s n x
  | restore {x : Access} (hkind : x.kind = .read) (htop : x.top = x.address) : FrameAccess s n x

namespace FrameAccess

variable {s : State} {n : Nat} {x : Access}

theorem inside_of_ne_saving (h : FrameAccess s n x) (hspace : 8 ≤ (s.regs .rsp).toNat)
    (hwrite : x.kind = .write) (hne : x ≠ s.saving) :
    x.Inside ((s.regs .rsp).toNat - 8 - n) ((s.regs .rsp).toNat - 8) := by
  cases h with
  | save => exact absurd rfl hne
  | body h => exact toNat_sub_eight hspace ▸ h.1
  | restore hkind htop => cases hkind.symm.trans hwrite

theorem inside (h : FrameAccess s n x) (hspace : 8 ≤ (s.regs .rsp).toNat)
    (hwrite : x.kind = .write) :
    x.Inside ((s.regs .rsp).toNat - 8 - n) (s.regs .rsp).toNat := by
  by_cases hsaving : x = s.saving
  · obtain ⟨hlow, hhigh⟩ := saving_inside hspace
    exact hsaving ▸ ⟨Nat.le_trans (Nat.sub_le _ _) hlow, hhigh⟩
  · obtain ⟨hlow, hhigh⟩ := h.inside_of_ne_saving hspace hwrite hsaving
    exact ⟨hlow, Nat.le_trans hhigh (Nat.sub_le _ _)⟩

theorem top_le (h : FrameAccess s n x) : x.top.toNat ≤ x.address.toNat := by
  cases h with
  | save => exact Nat.le_refl _
  | body h => exact h.2 ▸ h.1.1
  | restore hkind htop => exact Nat.le_of_eq (congrArg _ htop)

end FrameAccess

/-- What the caller of a function with a frame of `n` bytes relies on. The run of the function goes
from `s`, where it is entered, to `t`, where it is about to return. -/
structure KeepsStack (n : Nat) (s t : State) (trace : List Access) : Prop where
  rsp : t.regs .rsp = s.regs .rsp
  rbp : t.regs .rbp = s.regs .rbp
  returnAddress : t.memory.load (s.regs .rsp) 8 = s.memory.load (s.regs .rsp) 8
  saved : t.memory.load (s.regs .rsp - 8) 8 = s.regs .rbp
  memory : SameOutside ((s.regs .rsp).toNat - 8 - n) (s.regs .rsp).toNat s.memory t.memory
  writes : ∀ x ∈ trace, x.kind = .write →
    x.Inside ((s.regs .rsp).toNat - 8 - n) (s.regs .rsp).toNat
  /-- All writes but the one that saves the frame pointer. -/
  body : ∀ x ∈ trace, x.kind = .write → x ≠ s.saving →
    x.Inside ((s.regs .rsp).toNat - 8 - n) ((s.regs .rsp).toNat - 8)
  /-- Nothing below the stack pointer is used. -/
  top : ∀ x ∈ trace, x.top.toNat ≤ x.address.toNat

theorem run_framed {s : State} {amount : Int32} {n : Nat} {body : List Instr}
    (hn : amount.toInt = n) (hbody : ∀ i ∈ body, i.Within n)
    (hspace : 8 + n ≤ (s.regs .rsp).toNat) (rest : List Instr) :
    ∃ t trace, run s (framed amount body rest) = some (t, trace) ∧ KeepsStack n s t trace := by
  obtain ⟨s₁, hpro, hframe₁, hmemory₁⟩ := exec_prologue hn hspace
  obtain ⟨s₂, inner, hexec, hframe₂, hsame, hinner⟩ := hframe₁.exec hbody
  obtain ⟨t, hepi, hrsp, hrbp, hmemory⟩ := exec_epilogue s₂
  have hrun := run_append_ret (exec_append (exec_append hpro hexec) hepi) rest
  have hbase := toNat_sub_eight (a := s.regs .rsp) (by omega)
  have hlt := (s.regs .rsp).isLt
  have hsmall := amount.toInt_lt
  rw [hframe₂.base] at hrsp hrbp
  have hsaved : s₂.memory.load (s.regs .rsp - 8) 8 = s.regs .rbp := by
    rw [hsame.load (Nat.le_refl _) (by omega), hmemory₁]
    exact Memory.load_store _ _ (by decide) _
  have houtside : SameOutside ((s.regs .rsp).toNat - 8 - n) (s.regs .rsp).toNat
      s.memory t.memory := by
    rw [hmemory]
    refine .trans ?_ (hsame.mono (by omega) (by omega))
    rw [hmemory₁]
    exact (sameOutside_store (by omega)).mono (by omega) (Nat.le_refl _)
  have haccess : ∀ x ∈ [s.saving] ++ inner ++ [⟨.popq .rbp, .read, s₂.regs .rbp, 8, s₂.regs .rbp⟩],
      FrameAccess s n x := by
    intro x hx
    rw [List.append_assoc, List.mem_append, List.mem_append, List.mem_singleton,
      List.mem_singleton] at hx
    rcases hx with rfl | hx | rfl
    · exact .save
    · exact .body (hinner x hx)
    · exact .restore rfl rfl
  simp only [List.append_assoc, List.cons_append, List.nil_append] at hrun
  refine ⟨t, _, hrun, ?_⟩
  exact
    { rsp := by rw [hrsp, BitVec.sub_add_cancel]
      rbp := hrbp.trans hsaved
      returnAddress := houtside.load (Nat.le_refl _) (by omega)
      saved := by rw [hmemory, hsaved]
      memory := houtside
      writes := fun x hx => (haccess x hx).inside (by omega)
      body := fun x hx => (haccess x hx).inside_of_ne_saving (by omega)
      top := fun x hx => (haccess x hx).top_le }

end UnaryC.X86
