import Mathlib.Data.Finset.Card
import UnaryC.Proofs.Frame

/-!
# Slots in the order of first use

Which slot a pseudo-register gets is a matter of order alone: its number is the number of names that
occur before it does. Placement can therefore be done in one walk through the program, with a table
of the names met so far and the offset of the last slot. The walk below does it in arithmetic that
stops instead of wrapping; it never stops for that reason, and refuses what placement refuses.
-/
namespace UnaryC.Machine

theorem pseudosOf_append (a b : List Operand) :
    pseudosOf (a ++ b) =
      pseudosOf a ++ ((b.filterMap Operand.pseudo?).removeAll
        (a.filterMap Operand.pseudo?)).eraseDups := by
  rw [pseudosOf, List.filterMap_append, List.eraseDups_append]
  rfl

/-- A name keeps its number when more operands follow. -/
theorem idxOf_pseudosOf_append {a : List Operand} {x : String} (h : .pseudo x ∈ a)
    (b : List Operand) : (pseudosOf (a ++ b)).idxOf x = (pseudosOf a).idxOf x := by
  rw [pseudosOf_append]
  exact List.idxOf_append_of_mem (mem_pseudosOf.mpr h)

theorem eraseDups_concat (l : List String) (x : String) :
    (l ++ [x]).eraseDups = if x ∈ l then l.eraseDups else l.eraseDups ++ [x] := by
  rw [List.eraseDups_append]
  by_cases h : x ∈ l <;> simp [List.removeAll, List.eraseDups_cons, h]

theorem pseudosOf_concat_of_none {a : List Operand} {o : Operand} (h : o.pseudo? = none) :
    pseudosOf (a ++ [o]) = pseudosOf a := by
  rw [pseudosOf, List.filterMap_append, List.filterMap_cons_none h, List.filterMap_nil,
    List.append_nil]
  rfl

/-- A name that has not occurred gets the next number. -/
theorem pseudosOf_concat_pseudo (a : List Operand) (x : String) :
    pseudosOf (a ++ [.pseudo x]) =
      if .pseudo x ∈ a then pseudosOf a else pseudosOf a ++ [x] := by
  have hmem : x ∈ a.filterMap Operand.pseudo? ↔ .pseudo x ∈ a := by
    rw [← mem_pseudosOf, pseudosOf, List.mem_eraseDups]
  rw [pseudosOf, List.filterMap_append]
  exact (eraseDups_concat _ x).trans (if_congr hmem rfl rfl)

theorem idxOf_pseudosOf_concat {a : List Operand} {x : String} (h : .pseudo x ∉ a) :
    (pseudosOf (a ++ [.pseudo x])).idxOf x = (pseudosOf a).length := by
  rw [pseudosOf_concat_pseudo, if_neg h,
    List.idxOf_append_of_notMem fun hx => h (mem_pseudosOf.mp hx), List.idxOf_cons_self,
    Nat.add_zero]

/-- The names of the pseudo-registers. -/
def Program.names (p : Program) : Finset String :=
  (p.operands.filterMap Operand.pseudo?).toFinset

/-- How many names occur before `x` first does. -/
def Program.rank (p : Program) (x : String) : Nat :=
  (p.names.filter fun y =>
    p.operands.idxOf (.pseudo y) < p.operands.idxOf (.pseudo x)).card

theorem toFinset_pseudosOf (operands : List Operand) :
    (pseudosOf operands).toFinset = (operands.filterMap Operand.pseudo?).toFinset := by
  ext x
  simp [pseudosOf]

theorem mem_names_iff {p : Program} {x : String} : x ∈ p.names ↔ .pseudo x ∈ p.operands := by
  rw [Program.names, ← toFinset_pseudosOf, List.mem_toFinset, mem_pseudosOf]

theorem length_pseudosOf (operands : List Operand) :
    (pseudosOf operands).length = (operands.filterMap Operand.pseudo?).toFinset.card := by
  rw [← toFinset_pseudosOf, List.toFinset_card_of_nodup (nodup_pseudosOf operands)]

/-- The number of a pseudo-register's slot is its rank. -/
theorem idxOf_pseudos {p : Program} {x : String} (hx : x ∈ p.names) :
    p.pseudos.idxOf x = p.rank x := by
  -- Cut the operands where the name first occurs: the names before are those of lower rank.
  obtain ⟨a, b, hsplit, ha⟩ := List.eq_append_cons_of_mem (mem_names_iff.mp hx)
  have hnumber : p.pseudos.idxOf x = (pseudosOf a).length := by
    change (pseudosOf p.operands).idxOf x = _
    rw [hsplit, List.append_cons, idxOf_pseudosOf_append (by simp), idxOf_pseudosOf_concat ha]
  rw [hnumber, length_pseudosOf, Program.rank]
  congr 1
  ext y
  rw [← toFinset_pseudosOf, List.mem_toFinset, mem_pseudosOf, Finset.mem_filter, mem_names_iff]
  have hfirst : p.operands.idxOf (.pseudo x) = a.length := by
    rw [hsplit, List.idxOf_append_of_notMem ha, List.idxOf_cons_self, Nat.add_zero]
  rw [hfirst, hsplit]
  constructor
  · intro hy
    refine ⟨List.mem_append_left _ hy, ?_⟩
    rw [List.idxOf_append_of_mem hy]
    exact List.idxOf_lt_length_of_mem hy
  · rintro ⟨-, hlt⟩
    by_contra hy
    rw [List.idxOf_append_of_notMem hy] at hlt
    omega

/-- What stops the walk: a value that is no 32-bit word, or what placement refuses. -/
inductive Halt where
  | overflow
  | refused (fault : Fault)
deriving DecidableEq, Repr

/-- The 32-bit word of that value, if there is one. -/
def checked (value : Int) : Except Halt Int32 :=
  if -2 ^ 31 ≤ value ∧ value < 2 ^ 31 then .ok (Int32.ofInt value) else .error .overflow

/-- The slots handed out so far, and the offset of the last one. -/
structure Walker where
  table : List (String × Int32) := []
  last : Int32 := 0
deriving DecidableEq, Repr

namespace Walker

def operand (s : Walker) : Operand → Except Halt (Operand × Walker)
  | .pseudo x =>
    match s.table.lookup x with
    | some offset => .ok (.slot offset, s)
    | none => do
      let offset ← checked (s.last.toInt - 4)
      return (.slot offset, { table := (x, offset) :: s.table, last := offset })
  | .slot offset => .error (.refused (.slotTaken offset))
  | o => .ok (o, s)

def instr (s : Walker) : Instr → Except Halt (Instr × Walker)
  | .mov src dest => do
    let (src, s) ← s.operand src
    let (dest, s) ← s.operand dest
    return (.mov src dest, s)
  | .unary op dest => do
    let (dest, s) ← s.operand dest
    return (.unary op dest, s)
  | .allocate amount => .error (.refused (.frameReserved amount))
  | .ret => .ok (.ret, s)

def code (s : Walker) : List Instr → Except Halt (List Instr × Walker)
  | [] => .ok ([], s)
  | i :: rest => do
    let (i, s) ← s.instr i
    let (rest, s) ← s.code rest
    return (i :: rest, s)

end Walker

/-- Placement in one walk through the program. -/
def walk (p : Program) : Except Halt (Program × Int32) := do
  let (code, s) ← Walker.code {} p.code
  let frame ← checked (-s.last.toInt)
  return ({ p with code := code }, frame)

/-- The table holds those names, each with its slot; the last offset is that of the last slot. -/
structure Walker.Knows (s : Walker) (names : List String) : Prop where
  lookup : ∀ x, s.table.lookup x =
    if x ∈ names then some (slotOffset (names.idxOf x)) else none
  last : s.last.toInt = -4 * names.length

/-- The walk is refused if there is a fault, and else makes `a` and knows the names in `seen`. -/
structure Walks {α : Type} (w : Except Halt (α × Walker)) (fault? : Option Fault) (a : α)
    (seen : List Operand) : Prop where
  refused : ∀ fault ∈ fault?, w = .error (.refused fault)
  passes : fault? = none → ∃ s : Walker, w = .ok (a, s) ∧ s.Knows (pseudosOf seen)

theorem walks_ok {α : Type} {a : α} {s : Walker} {seen : List Operand}
    (h : s.Knows (pseudosOf seen)) : Walks (.ok (a, s)) none a seen :=
  ⟨nofun, fun _ => ⟨s, rfl, h⟩⟩

theorem walks_error {α : Type} {a : α} {fault : Fault} {seen : List Operand} :
    Walks (.error (.refused fault)) (some fault) a seen :=
  ⟨fun _ h => by rw [Option.mem_some_iff.mp h], nofun⟩

theorem Walks.bind {α β : Type} {w : Except Halt (α × Walker)}
    {f : α × Walker → Except Halt (β × Walker)} {fault? fault'? : Option Fault} {a : α} {b : β}
    {seen seen' : List Operand} (h : Walks w fault? a seen)
    (hf : ∀ s : Walker, s.Knows (pseudosOf seen) → Walks (f (a, s)) fault'? b seen') :
    Walks (w >>= f) (fault?.or fault'?) b seen' := by
  cases fault? with
  | none =>
    obtain ⟨s, rfl, hs⟩ := h.passes rfl
    rw [Option.none_or]
    exact hf s hs
  | some fault =>
    rw [h.refused fault rfl, Option.some_or]
    exact walks_error

/-- A new name gets the slot below the last one. -/
theorem Walker.Knows.insert {s : Walker} {names : List String} (h : s.Knows names) {x : String}
    (hx : x ∉ names) (hn : names.length < 2 ^ 29) :
    checked (s.last.toInt - 4) = .ok (slotOffset names.length) ∧
    Walker.Knows
      { table := (x, slotOffset names.length) :: s.table, last := slotOffset names.length }
      (names ++ [x]) := by
  have hvalue : s.last.toInt - 4 = -4 * ((names.length : Int) + 1) := by
    rw [h.last]
    omega
  refine ⟨?_, fun y => ?_, ?_⟩
  · rw [checked, hvalue, if_pos ⟨by omega, by omega⟩]
    rfl
  · change List.lookup y ((x, slotOffset names.length) :: s.table) = _
    by_cases hy : y = x
    · subst hy
      rw [List.lookup_cons_self, if_pos (by simp), List.idxOf_append_of_notMem hx,
        List.idxOf_cons_self, Nat.add_zero]
    · rw [List.lookup_cons, beq_false_of_ne hy, h.lookup y]
      by_cases hmem : y ∈ names
      · rw [if_pos hmem, if_pos (List.mem_append_left _ hmem), List.idxOf_append_of_mem hmem]
      · rw [if_neg hmem, if_neg (by simp [hmem, hy])]
  · rw [toInt_slotOffset hn, List.length_append, List.length_singleton]
    omega

section

-- The operands of the whole program, of which those in `seen` come first.
variable {all : List Operand} (hn : (pseudosOf all).length < 2 ^ 29)

include hn

/-- The walk past one operand. -/
theorem Walker.Knows.operand {s : Walker} {seen : List Operand} (h : s.Knows (pseudosOf seen))
    (o : Operand) (hall : seen ++ [o] <+: all) :
    Walks (s.operand o) o.placementFault? (o.place (pseudosOf all)) (seen ++ [o]) := by
  cases o with
  | imm value => exact walks_ok (by rwa [pseudosOf_concat_of_none rfl])
  | reg register => exact walks_ok (by rwa [pseudosOf_concat_of_none rfl])
  | slot offset => exact walks_error
  | pseudo x =>
    obtain ⟨more, rfl⟩ := hall
    have hplace : (Operand.pseudo x).place (pseudosOf (seen ++ [.pseudo x] ++ more)) =
        .slot (slotOffset ((pseudosOf (seen ++ [.pseudo x])).idxOf x)) := by
      rw [Operand.place, idxOf_pseudosOf_append (by simp)]
    rw [hplace]
    by_cases hx : .pseudo x ∈ seen
    · have hfound : s.operand (.pseudo x) =
          .ok (.slot (slotOffset ((pseudosOf seen).idxOf x)), s) := by
        simp only [Walker.operand, h.lookup x, if_pos (mem_pseudosOf.mpr hx)]
      rw [hfound, pseudosOf_concat_pseudo, if_pos hx]
      exact walks_ok (by rwa [pseudosOf_concat_pseudo, if_pos hx])
    · have hnew : x ∉ pseudosOf seen := fun hmem => hx (mem_pseudosOf.mp hmem)
      have hlength : (pseudosOf seen).length < 2 ^ 29 := by
        rw [pseudosOf_append, pseudosOf_concat_pseudo, if_neg hx] at hn
        simp only [List.length_append, List.length_singleton] at hn
        omega
      obtain ⟨hchecked, hknows⟩ := h.insert hnew hlength
      have hgiven : s.operand (.pseudo x) =
          .ok (.slot (slotOffset (pseudosOf seen).length),
            { table := (x, slotOffset (pseudosOf seen).length) :: s.table
              last := slotOffset (pseudosOf seen).length }) := by
        simp only [Walker.operand, h.lookup x, if_neg hnew, hchecked]
        rfl
      rw [hgiven, idxOf_pseudosOf_concat hx]
      exact walks_ok (by rwa [pseudosOf_concat_pseudo, if_neg hx])

/-- The walk past one instruction, source before destination. -/
theorem Walker.Knows.instr {s : Walker} {seen : List Operand} (h : s.Knows (pseudosOf seen))
    (i : Instr) (hall : seen ++ i.operands <+: all) :
    Walks (s.instr i) i.placementFault? (i.mapOperands (Operand.place (pseudosOf all)))
      (seen ++ i.operands) := by
  cases i with
  | mov src dest =>
    have hsplit : seen ++ (Instr.mov src dest).operands = seen ++ [src] ++ [dest] := by
      simp [Instr.operands]
    have hfault : (Instr.mov src dest).placementFault? =
        src.placementFault?.or (dest.placementFault?.or none) := by
      rw [← List.findSome?_singleton (f := Operand.placementFault?),
        ← List.findSome?_singleton (f := Operand.placementFault?), Option.or_none,
        ← List.findSome?_append]
      rfl
    rw [hsplit] at hall ⊢
    rw [hfault]
    refine (h.operand hn src ((List.prefix_append _ _).trans hall)).bind fun s hs => ?_
    exact (hs.operand hn dest hall).bind fun s hs => walks_ok hs
  | unary op dest =>
    have hfault : (Instr.unary op dest).placementFault? = dest.placementFault?.or none := by
      rw [Option.or_none]
      exact List.findSome?_singleton
    rw [hfault]
    exact (h.operand hn dest hall).bind fun s hs => walks_ok hs
  | allocate amount => exact walks_error
  | ret => exact walks_ok (by rwa [Instr.operands, List.append_nil])

/-- The walk through the rest of a program. -/
theorem Walker.Knows.code (rest : List Instr) :
    ∀ {s : Walker} {seen : List Operand}, s.Knows (pseudosOf seen) →
      seen ++ rest.flatMap Instr.operands <+: all →
      Walks (s.code rest) (rest.findSome? Instr.placementFault?)
        (rest.map (Instr.mapOperands (Operand.place (pseudosOf all))))
        (seen ++ rest.flatMap Instr.operands) := by
  induction rest with
  | nil =>
    intro s seen h _
    exact walks_ok (by rwa [List.flatMap_nil, List.append_nil])
  | cons i rest ih =>
    intro s seen h hall
    have hfault : (i :: rest).findSome? Instr.placementFault? =
        i.placementFault?.or ((rest.findSome? Instr.placementFault?).or none) := by
      rw [Option.or_none, ← List.findSome?_singleton (f := Instr.placementFault?),
        ← List.findSome?_append]
      rfl
    rw [List.flatMap_cons, ← List.append_assoc] at hall ⊢
    rw [hfault, List.map_cons]
    refine (h.instr hn i ((List.prefix_append _ _).trans hall)).bind fun s hs => ?_
    exact (ih hs hall).bind fun s hs => walks_ok hs

end

/-- The walk does what placement does. Its arithmetic does not overflow, neither while slots are
handed out nor when the size of the frame is taken. -/
theorem walk_eq {p : Program} (hn : p.pseudos.length < 2 ^ 29) :
    walk p = (place p).mapError .refused := by
  have hstart : Walker.Knows {} (pseudosOf []) := ⟨fun x => rfl, rfl⟩
  have hcode := hstart.code hn p.code (List.prefix_refl _)
  unfold walk place
  cases hfault : p.code.findSome? Instr.placementFault? with
  | some fault =>
    rw [hcode.refused fault hfault]
    rfl
  | none =>
    obtain ⟨s, hs, hknows⟩ := hcode.passes hfault
    have hframe : checked (-s.last.toInt) = .ok (frameSize p.pseudos.length) := by
      have hlast : s.last.toInt = -4 * p.pseudos.length := hknows.last
      have hvalue : -s.last.toInt = 4 * (p.pseudos.length : Int) := by omega
      rw [checked, hvalue, if_pos ⟨by omega, by omega⟩]
      rfl
    rw [hs]
    change (checked (-s.last.toInt) >>= _) = _
    rw [hframe]
    rfl

/-- A part of a program that placement looks at. -/
inductive Node where
  | instr (i : Instr)
  | operand (o : Operand)
deriving DecidableEq, Repr

namespace Node

def text : Node → String
  | instr i => i.term.inline
  | operand o => o.term.inline

/-- The frame is reserved there, or a slot is named. -/
def Taken (n : Node) : Prop :=
  (∃ amount, n = .instr (.allocate amount)) ∨ ∃ offset, n = .operand (.slot offset)

def fault? : Node → Option Fault
  | instr (.allocate amount) => some (.frameReserved amount)
  | operand (.slot offset) => some (.slotTaken offset)
  | _ => none

theorem fault?_eq_none_iff {n : Node} : n.fault? = none ↔ ¬ n.Taken := by
  cases n with
  | instr i => cases i <;> simp [fault?, Taken]
  | operand o => cases o <;> simp [fault?, Taken]

theorem node_of_fault? {n : Node} {fault : Fault} (h : n.fault? = some fault) :
    fault.node = n.text := by
  cases n with
  | instr i =>
    cases i with
    | allocate amount => cases h; rfl
    | _ => cases h
  | operand o =>
    cases o with
    | slot offset => cases h; rfl
    | _ => cases h

end Node

/-- An instruction and then its operands, source before destination. -/
def Instr.nodes (i : Instr) : List Node :=
  .instr i :: i.operands.map .operand

def Program.nodes (p : Program) : List Node :=
  p.code.flatMap Instr.nodes

theorem placementFault?_eq (i : Instr) : i.placementFault? = i.nodes.findSome? Node.fault? := by
  have hoperands : ∀ operands : List Operand,
      (operands.map Node.operand).findSome? Node.fault? =
        operands.findSome? Operand.placementFault? := by
    intro operands
    rw [List.findSome?_map]
    congr 1
    funext o
    cases o <;> rfl
  cases i with
  | mov src dest => exact (hoperands [src, dest]).symm
  | unary op dest => exact (hoperands [dest]).symm
  | allocate amount => rfl
  | ret => rfl

/-- What placement refuses, over the parts of the program in order. -/
theorem findSome?_placementFault? (p : Program) :
    p.code.findSome? Instr.placementFault? = p.nodes.findSome? Node.fault? := by
  rw [Program.nodes]
  induction p.code with
  | nil => rfl
  | cons i code ih =>
    rw [List.flatMap_cons, List.findSome?_append, ← ih, ← placementFault?_eq]
    cases h : i.placementFault? <;> simp [h]

theorem place_eq_error_iff {p : Program} {fault : Fault} :
    place p = .error fault ↔ p.nodes.findSome? Node.fault? = some fault := by
  rw [← findSome?_placementFault?, place]
  cases p.code.findSome? Instr.placementFault? <;> simp

theorem mem_nodes_iff {p : Program} {n : Node} :
    n ∈ p.nodes ↔ (∃ i ∈ p.code, n = .instr i) ∨ ∃ o ∈ p.operands, n = .operand o := by
  simp only [Program.nodes, Program.operands, Instr.nodes, List.mem_flatMap, List.mem_cons,
    List.mem_map]
  constructor
  · rintro ⟨i, hi, rfl | ⟨o, ho, rfl⟩⟩
    · exact .inl ⟨i, hi, rfl⟩
    · exact .inr ⟨o, ⟨i, hi, ho⟩, rfl⟩
  · rintro (⟨i, hi, rfl⟩ | ⟨o, ⟨i, hi, ho⟩, rfl⟩)
    · exact ⟨i, hi, .inl rfl⟩
    · exact ⟨i, hi, .inr ⟨o, ho, rfl⟩⟩

theorem exists_taken_iff {p : Program} :
    (∃ n ∈ p.nodes, n.Taken) ↔
      (∃ amount, .allocate amount ∈ p.code) ∨ ∃ offset, .slot offset ∈ p.operands := by
  constructor
  · rintro ⟨n, hn, htaken⟩
    rcases mem_nodes_iff.mp hn with ⟨i, hi, rfl⟩ | ⟨o, ho, rfl⟩
    · obtain ⟨amount, heq⟩ := htaken.resolve_right (by simp)
      cases heq
      exact .inl ⟨amount, hi⟩
    · obtain ⟨offset, heq⟩ := htaken.resolve_left (by simp)
      cases heq
      exact .inr ⟨offset, ho⟩
  · rintro (⟨amount, hi⟩ | ⟨offset, ho⟩)
    · exact ⟨_, mem_nodes_iff.mpr (.inl ⟨_, hi, rfl⟩), .inl ⟨amount, rfl⟩⟩
    · exact ⟨_, mem_nodes_iff.mpr (.inr ⟨_, ho, rfl⟩), .inr ⟨offset, rfl⟩⟩

/-- The operand with a slot in place of a pseudo-register. -/
def Operand.resolve (slot : String → Int32) : Operand → Operand
  | pseudo x => .slot (slot x)
  | operand => operand

/-- Placement refuses a program exactly if it has a frame or a slot already, and names the first
such part. Otherwise the pseudo-register of each name is replaced by the slot with the number of
names that occur before it, all else stays, and the frame has four bytes for each name. No two names
share a slot, and no word overflows in a walk that hands out slots one by one. -/
theorem place_firstUse (p : Program) (hn : p.names.card < 2 ^ 29) :
    ((∃ fault, place p = .error fault) ↔
      (∃ amount, .allocate amount ∈ p.code) ∨ ∃ offset, .slot offset ∈ p.operands) ∧
    (∀ fault, place p = .error fault → ∃ before node after, p.nodes = before ++ node :: after ∧
      (∀ n ∈ before, ¬ n.Taken) ∧ node.Taken ∧ fault.node = node.text) ∧
    (∀ q frame, place p = .ok (q, frame) → ∃ slot : String → Int32,
      q = { p with code := p.code.map (Instr.mapOperands (Operand.resolve slot)) } ∧
      (∀ x ∈ p.names, (slot x).toInt = -4 * (p.rank x + 1)) ∧
      frame.toInt = 4 * p.names.card ∧
      ∀ x ∈ p.names, ∀ y ∈ p.names, slot x = slot y ↔ x = y) ∧
    walk p = (place p).mapError .refused := by
  have hlength : p.pseudos.length = p.names.card := length_pseudosOf p.operands
  refine ⟨?_, fun fault h => ?_, fun q frame h => ?_, walk_eq (hlength ▸ hn)⟩
  · rw [← exists_taken_iff]
    simp only [place_eq_error_iff, ← Option.isSome_iff_exists, List.findSome?_isSome_iff]
    simp [Option.isSome_iff_ne_none, Node.fault?_eq_none_iff]
  · obtain ⟨before, node, after, hsplit, hnode, hbefore⟩ :=
      List.findSome?_eq_some_iff.mp (place_eq_error_iff.mp h)
    refine ⟨before, node, after, hsplit, fun n hmem => ?_, ?_, Node.node_of_fault? hnode⟩
    · exact Node.fault?_eq_none_iff.mp (hbefore n hmem)
    · by_contra htaken
      rw [Node.fault?_eq_none_iff.mpr htaken] at hnode
      cases hnode
  · obtain ⟨-, rfl, rfl⟩ := place_eq_ok_iff.mp h
    have hmem : ∀ x ∈ p.names, x ∈ p.pseudos := fun x hx =>
      mem_pseudos_iff.mpr (mem_names_iff.mp hx)
    have hlt : ∀ x ∈ p.names, p.pseudos.idxOf x < 2 ^ 29 := fun x hx =>
      (List.idxOf_lt_length_of_mem (hmem x hx)).trans (hlength ▸ hn)
    refine ⟨fun x => slotOffset (p.pseudos.idxOf x), ?_, fun x hx => ?_, ?_, fun x hx y hy => ?_⟩
    · have hresolve : Operand.place p.pseudos =
          Operand.resolve fun x => slotOffset (p.pseudos.idxOf x) := by
        funext o
        cases o <;> rfl
      rw [hresolve]
    · rw [toInt_slotOffset (hlt x hx), idxOf_pseudos hx]
    · rw [hlength, toInt_frameSize hn]
      omega
    · refine ⟨fun h => ?_, fun h => h ▸ rfl⟩
      exact (List.idxOf_inj (hmem x hx)).mp (slotOffset_inj (hlt x hx) (hlt y hy) h)

/-- Two names, of which the second in the alphabet occurs first. -/
def crossed : Program :=
  { name := "f"
    code := [.mov (.imm 1) (.pseudo "b"), .mov (.pseudo "b") (.pseudo "a"),
      .unary .neg (.pseudo "b"), .mov (.pseudo "a") (.reg .ax), .ret] }

def crossedSlots : Program :=
  { name := "f"
    code := [.mov (.imm 1) (.slot (-4)), .mov (.slot (-4)) (.slot (-8)),
      .unary .neg (.slot (-4)), .mov (.slot (-8)) (.reg .ax), .ret] }

/-- A slot, and behind it a frame. -/
def halfPlaced : Program :=
  { name := "f", code := [.ret, .mov (.pseudo "a") (.slot (-4)), .allocate 8] }

theorem place_firstUse_crossed :
    crossed.names.card < 2 ^ 29 ∧ place crossed = .ok (crossedSlots, 8) ∧
    walk crossed = .ok (crossedSlots, 8) ∧
    (∃ slot, crossedSlots.code = crossed.code.map (Instr.mapOperands (Operand.resolve slot)) ∧
      (slot "b").toInt = -4 ∧ (slot "a").toInt = -8 ∧ slot "a" ≠ slot "b") ∧
    halfPlaced.names.card < 2 ^ 29 ∧ place halfPlaced = .error (.slotTaken (-4)) ∧
    ∃ before node after, halfPlaced.nodes = before ++ node :: after ∧
      (∀ n ∈ before, ¬ n.Taken) ∧ node.Taken ∧ node.text = "Stack(-4)" := by
  have hok : place crossed = .ok (crossedSlots, 8) := by decide +kernel
  have herror : place halfPlaced = .error (.slotTaken (-4)) := by decide +kernel
  have htext : (Fault.slotTaken (-4)).node = "Stack(-4)" := by decide +kernel
  obtain ⟨-, -, hplaced, hwalk⟩ := place_firstUse crossed (by decide)
  obtain ⟨slot, hcode, hslot, -, hinj⟩ := hplaced _ _ hok
  obtain ⟨before, node, after, hsplit, hbefore, htaken, hnode⟩ :=
    (place_firstUse halfPlaced (by decide)).2.1 _ herror
  refine ⟨by decide, hok, by rw [hwalk, hok]; rfl, ⟨slot, ?_, ?_, ?_, ?_⟩, by decide, herror,
    before, node, after, hsplit, hbefore, htaken, hnode.symm.trans htext⟩
  · exact congrArg Program.code hcode
  · rw [hslot "b" (by decide), show crossed.rank "b" = 0 from by decide]
    rfl
  · rw [hslot "a" (by decide), show crossed.rank "a" = 1 from by decide]
    rfl
  · exact fun h => absurd ((hinj "a" (by decide) "b" (by decide)).mp h) (by decide)

end UnaryC.Machine
