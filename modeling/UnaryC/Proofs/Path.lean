import UnaryC.Files.Path

/-!
# Paths as folders and a name

A path is the parts before its last slash and the part after it. Where the last part is a name, so
not empty and not one of the two made of dots alone, a new extension changes that part only. It may
become two dots, which is no name: that happens where one dot is all there is before the extension.
-/
namespace UnaryC.Files.Path

/-- The folders on the way, each with a slash after it, and the last part. -/
def joined (folders : List (List Char)) (last : List Char) : List Char :=
  folders.flatMap (· ++ ['/']) ++ last

/-- A part that names a file or folder in the folder where it stands. -/
structure IsName (part : List Char) : Prop where
  slash : '/' ∉ part
  ne_nil : part ≠ []
  ne_here : part ≠ ['.']
  ne_above : part ≠ ['.', '.']

theorem splitSlash_of_not_mem {part : List Char} (h : '/' ∉ part) : splitSlash part = [part] := by
  induction part with
  | nil => rfl
  | cons c part ih =>
    rw [List.mem_cons, not_or] at h
    rw [splitSlash, if_neg (Ne.symm h.1), ih h.2]

theorem splitSlash_append {part : List Char} (h : '/' ∉ part) (rest : List Char) :
    splitSlash (part ++ '/' :: rest) = part :: splitSlash rest := by
  induction part with
  | nil => rfl
  | cons c part ih =>
    rw [List.mem_cons, not_or] at h
    rw [List.cons_append, splitSlash, if_neg (Ne.symm h.1), ih h.2]

theorem splitSlash_joined {folders : List (List Char)} {last : List Char}
    (hfolders : ∀ part ∈ folders, '/' ∉ part) (hlast : '/' ∉ last) :
    splitSlash (joined folders last) = folders ++ [last] := by
  induction folders with
  | nil => exact splitSlash_of_not_mem hlast
  | cons part folders ih =>
    have hcons : joined (part :: folders) last = part ++ '/' :: joined folders last := by
      simp [joined]
    rw [hcons, splitSlash_append (hfolders part List.mem_cons_self),
      ih fun q hq => hfolders q (List.mem_cons_of_mem part hq), List.cons_append]

theorem exists_joined (path : List Char) : ∃ folders last,
    (∀ part ∈ folders, '/' ∉ part) ∧ '/' ∉ last ∧ path = joined folders last := by
  induction path with
  | nil => exact ⟨[], [], nofun, nofun, rfl⟩
  | cons c path ih =>
    obtain ⟨folders, last, hfolders, hlast, rfl⟩ := ih
    by_cases hc : c = '/'
    · subst hc
      exact ⟨[] :: folders, last, List.forall_mem_cons.mpr ⟨nofun, hfolders⟩, hlast, rfl⟩
    · cases folders with
      | nil =>
        exact ⟨[], c :: last, nofun, fun h => (List.mem_cons.mp h).elim (hc ∘ Eq.symm) hlast, rfl⟩
      | cons part folders =>
        obtain ⟨hpart, hfolders⟩ := List.forall_mem_cons.mp hfolders
        refine ⟨(c :: part) :: folders, last, List.forall_mem_cons.mpr ⟨?_, hfolders⟩, hlast, rfl⟩
        exact fun h => (List.mem_cons.mp h).elim (hc ∘ Eq.symm) hpart

section

variable {folders : List (List Char)} {name : List Char}

theorem leaf?_joined (hfolders : ∀ part ∈ folders, '/' ∉ part) (hname : IsName name) :
    leaf? (joined folders name) = some ⟨folders.flatMap (· ++ ['/']), name⟩ := by
  simp [leaf?, splitSlash_joined hfolders hname.slash, hname.ne_nil, hname.ne_here, hname.ne_above]

theorem leaf?_joined_above (hfolders : ∀ part ∈ folders, '/' ∉ part) :
    leaf? (joined folders ['.', '.']) = none := by
  simp [leaf?, splitSlash_joined hfolders]

end

/-- A name has no extension, or is a stem, a dot and the extension. -/
theorem splitName_cases (name : List Char) :
    splitName name = (name, none) ∨
      ∃ stem extension, stem ≠ [] ∧ name = stem ++ '.' :: extension ∧
        splitName name = (stem, some extension) := by
  have hsplit := List.takeWhile_append_dropWhile (p := (· != '.')) (l := name.reverse)
  unfold splitName
  cases hdrop : name.reverse.dropWhile (· != '.') with
  | nil => exact .inl rfl
  | cons c before =>
    cases before with
    | nil => exact .inl rfl
    | cons d before =>
      have hdot : c = '.' := by
        have hhead := List.head_dropWhile_not (· != '.') (l := name.reverse) (by simp [hdrop])
        simpa [hdrop] using hhead
      rw [hdrop, hdot] at hsplit
      refine .inr ⟨(d :: before).reverse, (name.reverse.takeWhile (· != '.')).reverse,
        by simp, ?_, rfl⟩
      have hname := congrArg List.reverse hsplit
      rw [List.reverse_reverse, List.reverse_append, List.reverse_cons] at hname
      rw [List.append_assoc] at hname
      exact hname.symm

theorem splitName_dot {stem : List Char} (h : stem ≠ []) :
    splitName (stem ++ ['.']) = (stem, some []) := by
  have hrev : (stem ++ ['.']).reverse = '.' :: stem.reverse := by simp
  unfold splitName
  rw [hrev]
  cases hstem : stem.reverse with
  | nil => exact absurd (List.reverse_eq_nil_iff.mp hstem) h
  | cons c before =>
    have hstem' : stem = (c :: before).reverse := by rw [← hstem, List.reverse_reverse]
    simp [hstem']

/-- What a new extension is, with its dot. -/
def ending (extension : String) : String :=
  if extension = "" then "" else "." ++ extension

/-- The path without its extension, but with the dot that stood before it. -/
def base (p : Path) : List Char :=
  p.text.toList.take (p.text.toList.length - (extension? p.text.toList).elim 0 List.length)

theorem withExtension_eq (p : Path) (extension : String) :
    p.withExtension extension =
      match leaf? p.base with
      | none => ⟨String.ofList p.base⟩
      | some leaf =>
        ⟨String.ofList (leaf.folder ++ (splitName leaf.name).1) ++ ending extension⟩ := by
  unfold withExtension base ending
  rfl

/-- A path that names no file has no extension to replace. -/
theorem withExtension_of_not_hasStem {p : Path} (h : ¬ p.hasStem) (extension : String) :
    p.withExtension extension = p := by
  have hleaf : leaf? p.text.toList = none := by
    simpa [hasStem] using h
  have hbase : p.base = p.text.toList := by
    simp [base, extension?, hleaf]
  rw [withExtension_eq, hbase, hleaf, String.ofList_toList]

/-- A path that names a file has one extension at most. -/
theorem ending_eq_of_withExtension {p : Path} (hstem : p.hasStem) {e e' : String}
    (h : p.withExtension e = p) (h' : p.withExtension e' = p) : ending e = ending e' := by
  have heq := h.trans h'.symm
  rw [withExtension_eq] at h heq
  rw [withExtension_eq] at heq
  cases hleaf : leaf? p.base with
  | none =>
    rw [hleaf] at h
    have htext : p.text = String.ofList p.base := congrArg Path.text h.symm
    rw [hasStem, htext, String.toList_ofList, hleaf] at hstem
    cases hstem
  | some leaf =>
    rw [hleaf] at heq
    exact (String.append_right_inj _).mp (Path.mk.inj heq)

/-- The last part of a path that has been given a new extension. -/
def renamed (name : List Char) (extension : String) : List Char :=
  match splitName name with
  | (['.'], some _) => ['.', '.']
  | (stem, _) => stem ++ (ending extension).toList

section

variable {folders : List (List Char)} {name : List Char}

theorem withExtension_joined (hfolders : ∀ part ∈ folders, '/' ∉ part) (hname : IsName name)
    (extension : String) :
    withExtension ⟨String.ofList (joined folders name)⟩ extension =
      ⟨String.ofList (joined folders (renamed name extension))⟩ := by
  have hleaf := leaf?_joined hfolders hname
  rw [withExtension_eq]
  rcases splitName_cases name with hnone | ⟨stem, old, hstem, hdot, hsome⟩
  · have hbase : base ⟨String.ofList (joined folders name)⟩ = joined folders name := by
      simp [base, extension?, hleaf, hnone]
    rw [hbase, hleaf, Path.mk.injEq, ← String.toList_inj]
    simp [renamed, hnone, joined]
  · have hbase : base ⟨String.ofList (joined folders name)⟩ = joined folders (stem ++ ['.']) := by
      have hpath : joined folders name = joined folders (stem ++ ['.']) ++ old := by
        simp [joined, hdot]
      simp only [base, extension?, String.toList_ofList, hleaf, Option.bind_some, hsome]
      simp [hpath]
    rw [hbase]
    by_cases hhere : stem = ['.']
    · -- What is left of the name is two dots.
      subst hhere
      rw [List.singleton_append, leaf?_joined_above hfolders]
      simp [renamed, hsome]
    · have hbaseName : IsName (stem ++ ['.']) :=
        { slash := fun h => hname.slash (hdot ▸ List.mem_append_left _ (by simpa using h))
          ne_nil := by simp
          ne_here := fun h => hstem (List.append_left_eq_self.mp h)
          ne_above := fun h => hhere (List.append_inj_left' (h : _ = ['.'] ++ ['.']) rfl) }
      rw [leaf?_joined hfolders hbaseName, Path.mk.injEq, ← String.toList_inj]
      simp [renamed, splitName_dot hstem, hsome, joined, hhere]

theorem slash_not_mem_renamed {extension : String} (hname : '/' ∉ name)
    (hextension : '/' ∉ extension.toList) : '/' ∉ renamed name extension := by
  have hending : '/' ∉ (ending extension).toList := by
    unfold ending
    split
    · simp
    · simpa using hextension
  have hstem : '/' ∉ (splitName name).1 := by
    rcases splitName_cases name with hnone | ⟨stem, old, -, hdot, hsome⟩
    · rwa [hnone]
    · rw [hsome]
      exact fun h => hname (hdot ▸ List.mem_append_left _ h)
  unfold renamed
  split
  · simp
  · next stem _ _ hsplit =>
    rw [hsplit] at hstem
    simp [hstem, hending]

theorem splitName_ne_nil (h : name ≠ []) : (splitName name).1 ≠ [] := by
  rcases splitName_cases name with hnone | ⟨stem, old, hstem, -, hsome⟩
  · rwa [hnone]
  · rwa [hsome]

/-- With any extension a name becomes two dots, or with each it is the stem and that extension. -/
theorem renamed_cases (name : List Char) :
    (∀ extension, renamed name extension = ['.', '.']) ∨
      ∀ extension, renamed name extension = (splitName name).1 ++ (ending extension).toList := by
  unfold renamed
  split
  · exact .inl fun _ => rfl
  · next hsplit => exact .inr fun _ => by rw [hsplit]

theorem renamed_eq_above {a b : String} (hsame : renamed name a = renamed name b)
    (hending : ending a ≠ ending b) : renamed name a = ['.', '.'] := by
  rcases renamed_cases name with habove | hstem
  · exact habove a
  · rw [hstem, hstem] at hsame
    exact absurd (String.toList_inj.mp (List.append_cancel_left hsame)) hending

theorem isName_renamed {a b : String} (hname : IsName name) (ha : a ≠ "") (hslash : '/' ∉ a.toList)
    (hne : renamed name a ≠ renamed name b) : IsName (renamed name a) := by
  rcases renamed_cases name with habove | hstem
  · exact absurd ((habove a).trans (habove b).symm) hne
  · -- There are three characters at least: one of the stem, a dot and one of the extension.
    have hlength : 3 ≤ (renamed name a).length := by
      have hpos := List.length_pos_iff.mpr (splitName_ne_nil hname.ne_nil)
      have hpos' : 0 < a.toList.length :=
        List.length_pos_iff.mpr fun h => ha (String.toList_eq_nil_iff.mp h)
      have hdot : ".".toList.length = 1 := rfl
      rw [hstem, ending, if_neg ha, List.length_append, String.toList_append, List.length_append]
      omega
    exact
      { slash := slash_not_mem_renamed hname.slash hslash
        ne_nil := by rintro h; simp [h] at hlength
        ne_here := by rintro h; simp [h] at hlength
        ne_above := by rintro h; simp [h] at hlength }

end

end UnaryC.Files.Path
