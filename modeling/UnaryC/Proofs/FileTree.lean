import UnaryC.Files.FileTree
import UnaryC.Proofs.Path

/-!
# Where paths lead

A path leads on as long as there are folders on the way. So files that come and go elsewhere do not
change where it leads, and two paths through the same folders lead to different places if their last
parts are different and one of them is a name.
-/
namespace UnaryC.Files.FileTree

open UnaryC.Files.Path (joined IsName)

variable {t t' : FileTree}

/-- Where one part of a path leads from a folder. -/
def stepFrom (loc : Location) (part : List Char) : Location :=
  if part = [] ∨ part = ['.'] then loc
  else if part = ['.', '.'] then loc.dropLast
  else loc ++ [String.ofList part]

theorem follow_eq_ok_iff {loc l : Location} {part : List Char} :
    t.follow loc part = .ok l ↔ t.get? loc = some .folder ∧ l = stepFrom loc part := by
  unfold follow stepFrom
  cases t.get? loc with
  | none => simp
  | some node =>
    cases node with
    | file content => simp
    | folder =>
      by_cases hhere : part = [] ∨ part = ['.']
      · simp [hhere, @eq_comm _ l]
      · by_cases habove : part = ['.', '.'] <;> simp [hhere, habove, @eq_comm _ l]

/-- The location of the folder that those parts lead to. -/
def folderOf (t : FileTree) (folders : List (List Char)) : Except FileError Location :=
  folders.foldlM t.follow (if folders.head? = some [] then [] else t.here)

theorem locate_joined (t : FileTree) {folders : List (List Char)} {last : List Char}
    (hfolders : ∀ part ∈ folders, '/' ∉ part) (hlast : '/' ∉ last) :
    t.locate ⟨String.ofList (joined folders last)⟩ =
      (do let dir ← t.folderOf folders; t.follow dir last) := by
  have hstart : (joined folders last).head? = some '/' ↔ folders.head? = some [] := by
    cases folders with
    | nil =>
      have : last.head? ≠ some '/' := fun h => hlast (List.mem_of_mem_head? h)
      simpa [joined] using this
    | cons part folders =>
      cases part with
      | nil => simp [joined]
      | cons c part =>
        have : c ≠ '/' := fun h => hfolders _ List.mem_cons_self (h ▸ List.mem_cons_self)
        simp [joined, this]
  simp only [locate, String.toList_ofList, Path.splitSlash_joined hfolders hlast, hstart,
    List.foldlM_append, folderOf]
  simp

/-- Every folder stays a folder. -/
structure KeepsFolders (t t' : FileTree) : Prop where
  here : t'.here = t.here
  folder : ∀ loc, t.get? loc = some .folder → t'.get? loc = some .folder

theorem KeepsFolders.locate (h : KeepsFolders t t') {p : Path} {loc : Location}
    (hp : t.locate p = .ok loc) : t'.locate p = .ok loc := by
  have hfold : ∀ (parts : List (List Char)) (start : Location),
      parts.foldlM t.follow start = .ok loc → parts.foldlM t'.follow start = .ok loc := by
    intro parts
    induction parts with
    | nil => exact fun start hstart => hstart
    | cons part parts ih =>
      intro start hparts
      rw [List.foldlM_cons] at hparts ⊢
      cases hfollow : t.follow start part with
      | error e => rw [hfollow] at hparts; cases hparts
      | ok next =>
        rw [hfollow] at hparts
        obtain ⟨hfolder, rfl⟩ := follow_eq_ok_iff.mp hfollow
        rw [follow_eq_ok_iff.mpr ⟨h.folder start hfolder, rfl⟩]
        exact ih _ hparts
  simp only [FileTree.locate, h.here] at hp ⊢
  exact hfold _ _ hp

/-- The root is a folder. -/
theorem ne_nil_of_get? {loc : Location} (h : t.get? loc ≠ some .folder) : loc ≠ [] := by
  rintro rfl
  exact h rfl

theorem keepsFolders_insert {loc : Location} (h : t.get? loc ≠ some .folder) (node : Node) :
    KeepsFolders t (t.insert loc node) := by
  refine ⟨rfl, fun other hother => ?_⟩
  have hne : other ≠ loc := fun he => h (he ▸ hother)
  rw [get?_insert t loc other node (ne_nil_of_get? h), if_neg hne, hother]

theorem keepsFolders_erase {loc : Location} (h : t.get? loc ≠ some .folder) :
    KeepsFolders t (t.erase loc) := by
  refine ⟨rfl, fun other hother => ?_⟩
  have hne : other ≠ loc := fun he => h (he ▸ hother)
  rw [get?_erase t loc other (ne_nil_of_get? h), if_neg hne, hother]

/-- A file that comes makes no difference to where paths lead. -/
theorem locate_insert_file_iff {loc l : Location} (h : t.get? loc ≠ some .folder)
    {content : ByteArray} {p : Path} :
    (t.insert loc (.file content)).locate p = .ok l ↔ t.locate p = .ok l := by
  have hback : KeepsFolders (t.insert loc (.file content)) t := by
    refine ⟨rfl, fun other hother => ?_⟩
    rw [get?_insert t loc other _ (ne_nil_of_get? h)] at hother
    split at hother
    · cases hother
    · exact hother
  exact ⟨hback.locate, (keepsFolders_insert h _).locate⟩

/-- Nor does one that goes. -/
theorem locate_erase_iff {loc l : Location} (h : t.get? loc ≠ some .folder) {p : Path} :
    (t.erase loc).locate p = .ok l ↔ t.locate p = .ok l := by
  have hback : KeepsFolders (t.erase loc) t := by
    refine ⟨rfl, fun other hother => ?_⟩
    rw [get?_erase t loc other (ne_nil_of_get? h)] at hother
    split at hother
    · cases hother
    · exact hother
  exact ⟨hback.locate, (keepsFolders_erase h).locate⟩

theorem write_eq_ok_iff {p : Path} {content : ByteArray} :
    t.write p content = .ok t' ↔ ∃ loc, t.locate p = .ok loc ∧ t.get? loc ≠ some .folder ∧
      t' = t.insert loc (.file content) := by
  unfold write
  cases t.locate p with
  | error e => simp [bind, Except.bind]
  | ok loc =>
    cases hget : t.get? loc with
    | none => simp [bind, Except.bind, pure, Except.pure, hget, @eq_comm _ t']
    | some node =>
      cases node with
      | file old => simp [bind, Except.bind, pure, Except.pure, hget, @eq_comm _ t']
      | folder => simp [bind, Except.bind, throw, throwThe, MonadExceptOf.throw, hget]

/-- The path leads to a place for a file, where one is or nothing. -/
structure Reaches (t : FileTree) (p : Path) (loc : Location) : Prop where
  locate : t.locate p = .ok loc
  free : t.get? loc ≠ some .folder

namespace Reaches

variable {p q : Path} {loc other : Location}

theorem write (h : t.Reaches p loc) (content : ByteArray) :
    t.write p content = .ok (t.insert loc (.file content)) :=
  write_eq_ok_iff.mpr ⟨loc, h.locate, h.free, rfl⟩

theorem insert (h : t.Reaches p loc) (hother : t.Reaches q other) (content : ByteArray) :
    (t.insert other (.file content)).Reaches p loc := by
  refine ⟨(locate_insert_file_iff hother.free).mpr h.locate, ?_⟩
  rw [get?_insert t other loc _ (ne_nil_of_get? hother.free)]
  split
  · simp
  · exact h.free

theorem erase (h : t.Reaches p loc) (hother : t.Reaches q other) :
    (t.erase other).Reaches p loc := by
  refine ⟨(locate_erase_iff hother.free).mpr h.locate, ?_⟩
  rw [get?_erase t other loc (ne_nil_of_get? hother.free)]
  split
  · simp
  · exact h.free

end Reaches

theorem remove_eq_ok_iff {p : Path} :
    t.remove p = .ok t' ↔ ∃ loc content, t.locate p = .ok loc ∧
      t.get? loc = some (.file content) ∧ t' = t.erase loc := by
  unfold remove
  cases t.locate p with
  | error e => simp [bind, Except.bind]
  | ok loc =>
    cases hget : t.get? loc with
    | none => simp [bind, Except.bind, throw, throwThe, MonadExceptOf.throw, hget]
    | some node =>
      cases node with
      | file content => simp [bind, Except.bind, pure, Except.pure, hget, @eq_comm _ t']
      | folder => simp [bind, Except.bind, throw, throwThe, MonadExceptOf.throw, hget]

theorem erase_insert_self (t : FileTree) (loc : Location) (node : Node) :
    (t.insert loc node).erase loc = t.erase loc := by
  simp [insert, erase, List.filter_filter]

theorem erase_insert_of_ne {loc other : Location} (h : other ≠ loc) (t : FileTree) (node : Node) :
    (t.insert other node).erase loc = (t.erase loc).insert other node := by
  have hkept : (other != loc) = true := by simpa using h
  simp [insert, erase, hkept, List.filter_filter, Bool.and_comm]

theorem erase_eq_self {loc : Location} (h : t.get? loc = none) : t.erase loc = t := by
  have hlookup : t.entries.lookup loc = none := by
    unfold get? at h
    split at h
    · cases h
    · exact h
  have hkeys := List.lookup_eq_none_iff.mp hlookup
  have hentries : t.entries.filter (fun entry => entry.1 != loc) = t.entries := by
    rw [List.filter_eq_self]
    intro entry hentry
    have hne := hkeys entry hentry
    rw [bne_iff_ne]
    rintro rfl
    simp at hne
  rw [erase, hentries]

/-- The path leads to a location, and that is what there is. -/
def Holds (p : Path) (node? : Option Node) (t : FileTree) : Prop :=
  ∃ loc, t.locate p = .ok loc ∧ t.get? loc = node?

instance (p : Path) (node? : Option Node) (t : FileTree) : Decidable (t.Holds p node?) :=
  decidable_of_iff ((t.locate p).toOption.map t.get? = some node?) (by
    unfold Holds
    cases t.locate p <;> simp [Except.toOption])

theorem read_eq_ok_iff {p : Path} {content : ByteArray} :
    t.read p = .ok content ↔ t.Holds p (some (.file content)) := by
  unfold read Holds
  cases t.locate p with
  | error e => simp [bind, Except.bind]
  | ok loc =>
    cases hget : t.get? loc with
    | none => simp [bind, Except.bind, throw, throwThe, MonadExceptOf.throw, hget]
    | some node =>
      cases node with
      | file old => simp [bind, Except.bind, pure, Except.pure, hget]
      | folder => simp [bind, Except.bind, throw, throwThe, MonadExceptOf.throw, hget]

theorem fromUTF8?_eq_some_iff {bytes : ByteArray} {text : String} :
    String.fromUTF8? bytes = some text ↔ bytes = text.toUTF8 := by
  unfold String.fromUTF8?
  split
  · rw [Option.some.injEq]
    exact ⟨fun h => h ▸ rfl, fun h => String.toByteArray_inj.mp h⟩
  · next hvalid =>
    simp only [reduceCtorEq, false_iff]
    rintro rfl
    exact hvalid text.isValidUTF8

theorem readText_eq_ok_iff {p : Path} {text : String} :
    t.readText p = .ok text ↔ t.read p = .ok text.toUTF8 := by
  unfold readText
  cases t.read p with
  | error e => simp [bind, Except.bind]
  | ok content =>
    simp only [bind, Except.bind, Except.ok.injEq, ← fromUTF8?_eq_some_iff]
    cases String.fromUTF8? content with
    | none => simp [throw, throwThe, MonadExceptOf.throw]
    | some text' => simp [pure, Except.pure]

/-- A path to something other than a folder ends with a name, unless it has no stem. -/
theorem exists_joined_of_locate {p : Path} {loc : Location} (hp : t.locate p = .ok loc)
    (hnode : t.get? loc ≠ some .folder) (hstem : p.hasStem) :
    ∃ folders name dir, p = ⟨String.ofList (joined folders name)⟩ ∧
      (∀ part ∈ folders, '/' ∉ part) ∧ IsName name ∧
      t.folderOf folders = .ok dir ∧ loc = dir ++ [String.ofList name] := by
  obtain ⟨folders, name, hfolders, hslash, hpath⟩ := Path.exists_joined p.text.toList
  obtain rfl : p = ⟨String.ofList (joined folders name)⟩ := by rw [← hpath, String.ofList_toList]
  rw [locate_joined t hfolders hslash] at hp
  cases hdir : t.folderOf folders with
  | error e => rw [hdir] at hp; cases hp
  | ok dir =>
    rw [hdir] at hp
    obtain ⟨hfolder, rfl⟩ := follow_eq_ok_iff.mp hp
    have hhere : ¬ (name = [] ∨ name = ['.']) := by
      intro h
      rw [stepFrom, if_pos h] at hnode
      exact hnode hfolder
    have habove : name ≠ ['.', '.'] := by
      rintro rfl
      simp [Path.hasStem, Path.leaf?_joined_above hfolders] at hstem
    rw [not_or] at hhere
    refine ⟨folders, name, dir, rfl, hfolders, ⟨hslash, hhere.1, hhere.2, habove⟩, hdir, ?_⟩
    simp [stepFrom, hhere, habove]

/-- Where two parts lead from one folder, if they are not the same and one of them is a name. -/
theorem stepFrom_ne {a b : List Char} (ha : IsName a) (hne : a ≠ b) (dir : Location) :
    stepFrom dir a ≠ stepFrom dir b := by
  have hstep : stepFrom dir a = dir ++ [String.ofList a] := by
    simp [stepFrom, ha.ne_nil, ha.ne_here, ha.ne_above]
  rw [hstep]
  unfold stepFrom
  split
  · simp
  · split
    · intro hsame
      have hlength := congrArg List.length hsame
      simp only [List.length_append, List.length_singleton, List.length_dropLast] at hlength
      omega
    · intro hsame
      exact hne (String.ofList_injective (List.cons.inj (List.append_cancel_left hsame)).1)

/-- Whatever there is lies in a folder. -/
def Grounded (t : FileTree) : Prop :=
  ∀ loc node, t.get? loc = some node → t.get? loc.dropLast = some .folder

theorem grounded_of_entries
    (h : ∀ entry ∈ t.entries, t.get? entry.1.dropLast = some .folder) : t.Grounded := by
  intro loc node hget
  unfold get? at hget
  split at hget
  · next hroot => simp [get?, hroot]
  · obtain ⟨before, after, hentries, -⟩ := List.lookup_eq_some_iff.mp hget
    exact h (loc, node) (by simp [hentries])

namespace Holds

variable {p q : Path} {node? : Option Node}

/-- A file and those that have its path with another extension have their names in one folder. -/
theorem exists_siblings (h : t.Holds p node?) (hnode : node? ≠ some .folder) (hstem : p.hasStem) :
    ∃ folders name dir, p = ⟨String.ofList (joined folders name)⟩ ∧ IsName name ∧
      t.get? dir = some .folder ∧
      (∀ {last}, '/' ∉ last →
        t.locate ⟨String.ofList (joined folders last)⟩ = .ok (stepFrom dir last)) ∧
      ∀ extension, p.withExtension extension =
        ⟨String.ofList (joined folders (Path.renamed name extension))⟩ := by
  obtain ⟨loc, hloc, hget⟩ := h
  obtain ⟨folders, name, dir, rfl, hfolders, hname, hdir, -⟩ :=
    exists_joined_of_locate hloc (hget ▸ hnode) hstem
  have hfolder : t.get? dir = some .folder := by
    rw [locate_joined t hfolders hname.slash, hdir] at hloc
    exact (follow_eq_ok_iff.mp hloc).1
  refine ⟨folders, name, dir, rfl, hname, hfolder, fun hlast => ?_,
    Path.withExtension_joined hfolders hname⟩
  rw [locate_joined t hfolders hlast, hdir]
  exact follow_eq_ok_iff.mpr ⟨hfolder, rfl⟩

/-- With another extension a path leads elsewhere. -/
theorem locate_withExtension_ne (h : t.Holds p node?) (hnode : node? ≠ some .folder)
    (hstem : p.hasStem) {extension : String} (hslash : '/' ∉ extension.toList)
    (hne : p.withExtension extension ≠ p) :
    t.locate (p.withExtension extension) ≠ t.locate p := by
  obtain ⟨folders, name, dir, rfl, hname, -, hlocate, hwith⟩ := h.exists_siblings hnode hstem
  rw [hwith] at hne ⊢
  rw [hlocate hname.slash, hlocate (Path.slash_not_mem_renamed hname.slash hslash)]
  exact fun hsame => stepFrom_ne hname (fun he => hne (by rw [← he])) dir (Except.ok.inj hsame).symm

theorem exists_locate_withExtension (h : t.Holds p node?) (hnode : node? ≠ some .folder)
    (hstem : p.hasStem) {extension : String} (hslash : '/' ∉ extension.toList) :
    ∃ loc, t.locate (p.withExtension extension) = .ok loc := by
  obtain ⟨folders, name, dir, rfl, hname, -, hlocate, hwith⟩ := h.exists_siblings hnode hstem
  rw [hwith]
  exact ⟨_, hlocate (Path.slash_not_mem_renamed hname.slash hslash)⟩

/-- Two extensions lead to different places where they make different paths. -/
theorem locate_withExtension_inj (h : t.Holds p node?) (hnode : node? ≠ some .folder)
    (hstem : p.hasStem) {a b : String} (ha : a ≠ "") (haslash : '/' ∉ a.toList)
    (hbslash : '/' ∉ b.toList) (hne : p.withExtension a ≠ p.withExtension b) :
    t.locate (p.withExtension a) ≠ t.locate (p.withExtension b) := by
  obtain ⟨folders, name, dir, rfl, hname, -, hlocate, hwith⟩ := h.exists_siblings hnode hstem
  rw [hwith, hwith] at hne ⊢
  have hlast : Path.renamed name a ≠ Path.renamed name b := fun he => hne (by rw [he])
  rw [hlocate (Path.slash_not_mem_renamed hname.slash haslash),
    hlocate (Path.slash_not_mem_renamed hname.slash hbslash)]
  exact fun hsame =>
    stepFrom_ne (Path.isName_renamed hname ha haslash hlast) hlast dir (Except.ok.inj hsame)

/-- Where two extensions make the same path, that path leads up to a folder. -/
theorem folder_of_withExtension_eq (h : t.Holds p node?) (hnode : node? ≠ some .folder)
    (hstem : p.hasStem) (ht : t.Grounded) {a b : String} (hending : Path.ending a ≠ Path.ending b)
    (heq : p.withExtension a = p.withExtension b) :
    t.Holds (p.withExtension a) (some .folder) := by
  obtain ⟨folders, name, dir, rfl, -, hfolder, hlocate, hwith⟩ := h.exists_siblings hnode hstem
  rw [hwith, hwith, Path.mk.injEq, String.ofList_inj] at heq
  have habove := Path.renamed_eq_above (List.append_cancel_left heq) hending
  rw [hwith, habove]
  exact ⟨dir.dropLast, hlocate (by decide), ht dir _ hfolder⟩

theorem exists_write (h : t.Holds p node?) (hnode : node? ≠ some .folder) (content : ByteArray) :
    ∃ t', t.write p content = .ok t' := by
  obtain ⟨loc, hloc, hget⟩ := h
  exact ⟨_, write_eq_ok_iff.mpr ⟨loc, hloc, hget ▸ hnode, rfl⟩⟩

theorem exists_remove {content : ByteArray} (h : t.Holds p (some (.file content))) :
    ∃ t', t.remove p = .ok t' := by
  obtain ⟨loc, hloc, hget⟩ := h
  exact ⟨_, remove_eq_ok_iff.mpr ⟨loc, content, hloc, hget, rfl⟩⟩

theorem of_write {content : ByteArray} (h : t.write p content = .ok t') :
    t'.Holds p (some (.file content)) := by
  obtain ⟨loc, hloc, hnode, rfl⟩ := write_eq_ok_iff.mp h
  refine ⟨loc, (keepsFolders_insert hnode _).locate hloc, ?_⟩
  rw [get?_insert t loc loc _ (ne_nil_of_get? hnode), if_pos rfl]

theorem of_remove (h : t.remove p = .ok t') : t'.Holds p none := by
  obtain ⟨loc, content, hloc, hfile, rfl⟩ := remove_eq_ok_iff.mp h
  have hnode : t.get? loc ≠ some .folder := by simp [hfile]
  refine ⟨loc, (keepsFolders_erase hnode).locate hloc, ?_⟩
  rw [get?_erase t loc loc (ne_nil_of_get? hnode), if_pos rfl]

theorem read_eq_notFound (h : t.Holds p none) : t.read p = .error .notFound := by
  obtain ⟨loc, hloc, hget⟩ := h
  simp [FileTree.read, hloc, hget, bind, Except.bind, throw, throwThe, MonadExceptOf.throw]

/-- What is written elsewhere does not matter here. -/
theorem write (h : t.Holds p node?) (hne : t.locate q ≠ t.locate p) {content : ByteArray}
    (hwrite : t.write q content = .ok t') : t'.Holds p node? := by
  obtain ⟨loc, hloc, hget⟩ := h
  obtain ⟨other, hother, hnode, rfl⟩ := write_eq_ok_iff.mp hwrite
  refine ⟨loc, (keepsFolders_insert hnode _).locate hloc, ?_⟩
  have hdiff : loc ≠ other := fun he => hne (by rw [hother, hloc, he])
  rw [get?_insert t other loc _ (ne_nil_of_get? hnode), if_neg hdiff, hget]

theorem exists_file_of_write {old content : ByteArray} (h : t.Holds p (some (.file old)))
    (hwrite : t.write q content = .ok t') : ∃ new, t'.Holds p (some (.file new)) := by
  by_cases hsame : t.locate q = t.locate p
  · obtain ⟨loc, hloc, hnode, rfl⟩ := write_eq_ok_iff.mp hwrite
    refine ⟨content, loc, (locate_insert_file_iff hnode).mpr (hsame ▸ hloc), ?_⟩
    rw [get?_insert t loc loc _ (ne_nil_of_get? hnode), if_pos rfl]
  · exact ⟨old, h.write hsame hwrite⟩

theorem remove (h : t.Holds p node?) (hne : t.locate q ≠ t.locate p)
    (hremove : t.remove q = .ok t') : t'.Holds p node? := by
  obtain ⟨loc, hloc, hget⟩ := h
  obtain ⟨other, content, hother, hfile, rfl⟩ := remove_eq_ok_iff.mp hremove
  have hnode : t.get? other ≠ some .folder := by simp [hfile]
  refine ⟨loc, (keepsFolders_erase hnode).locate hloc, ?_⟩
  have hdiff : loc ≠ other := fun he => hne (by rw [hother, hloc, he])
  rw [get?_erase t other loc (ne_nil_of_get? hnode), if_neg hdiff, hget]

end Holds

/-- The path leads nowhere, or to a place where there is nothing. -/
def Vacant (p : Path) (t : FileTree) : Prop :=
  ∀ loc, t.locate p = .ok loc → t.get? loc = none

instance (p : Path) (t : FileTree) : Decidable (t.Vacant p) :=
  decidable_of_iff ((t.locate p).toOption.bind t.get? = none) (by
    unfold Vacant
    cases t.locate p <;> simp [Except.toOption])

namespace Vacant

variable {p q : Path}

theorem not_holds (h : t.Vacant p) (node : Node) : ¬ t.Holds p (some node) := by
  rintro ⟨loc, hloc, hget⟩
  rw [h loc hloc] at hget
  cases hget

theorem reaches (h : t.Vacant p) {loc : Location} (hloc : t.locate p = .ok loc) :
    t.Reaches p loc :=
  ⟨hloc, by simp [h loc hloc]⟩

theorem write (h : t.Vacant p) (hne : t.locate q ≠ t.locate p) {content : ByteArray}
    (hwrite : t.write q content = .ok t') : t'.Vacant p := by
  intro loc hloc
  obtain ⟨other, hother, hfree, rfl⟩ := write_eq_ok_iff.mp hwrite
  rw [locate_insert_file_iff hfree] at hloc
  have hdiff : loc ≠ other := fun he => hne (by rw [hother, hloc, he])
  rw [get?_insert t other loc _ (ne_nil_of_get? hfree), if_neg hdiff, h loc hloc]

/-- Another extension leads elsewhere than one under which there is nothing. -/
theorem locate_withExtension_ne {a b : String} (h : t.Vacant (p.withExtension a))
    {content : ByteArray} (hp : t.Holds p (some (.file content))) (hstem : p.hasStem)
    (ht : t.Grounded) (ha : a ≠ "") (haslash : '/' ∉ a.toList) (hbslash : '/' ∉ b.toList)
    (hending : Path.ending a ≠ Path.ending b) :
    t.locate (p.withExtension b) ≠ t.locate (p.withExtension a) := by
  have hpath : p.withExtension a ≠ p.withExtension b := fun heq =>
    h.not_holds _ (hp.folder_of_withExtension_eq (by simp) hstem ht hending heq)
  exact (hp.locate_withExtension_inj (by simp) hstem ha haslash hbslash hpath).symm

end Vacant

end UnaryC.Files.FileTree
