import UnaryC.Files.Path

/-!
File trees: the files and folders under a root, the working directory among them, and what reading,
writing and removing a path does. Paths are followed part by part, so that `.`, `..` and doubled
slashes count for what they mean.
-/
namespace UnaryC.Files

/-- Contents are equal when their bytes are. -/
instance (priority := 2000) decidableEqContent : DecidableEq ByteArray :=
  ByteArray.instDecidableEq

inductive Node where
  | file (content : ByteArray)
  | folder
deriving DecidableEq

inductive FileError where
  | notFound
  | isDirectory
  | notDirectory
  | notText
deriving DecidableEq, Repr

def FileError.message : FileError → String
  | notFound => "No such file or directory (os error 2)"
  | isDirectory => "Is a directory (os error 21)"
  | notDirectory => "Not a directory (os error 20)"
  | notText => "stream did not contain valid UTF-8"

/-- The names on the way down from the root; none for the root itself. -/
abbrev Location := List String

structure FileTree where
  entries : List (Location × Node) := []
  /-- The working directory, where relative paths start. -/
  here : Location := []
deriving DecidableEq

namespace FileTree

/-- What there is at a location. -/
def get? (t : FileTree) (loc : Location) : Option Node :=
  if loc = [] then some .folder else t.entries.lookup loc

def erase (t : FileTree) (loc : Location) : FileTree :=
  { t with entries := t.entries.filter fun entry => entry.1 != loc }

def insert (t : FileTree) (loc : Location) (node : Node) : FileTree :=
  { t with entries := (loc, node) :: (t.erase loc).entries }

/-- Follows one part of a path; only a folder leads on. The root is its own parent. -/
def follow (t : FileTree) (loc : Location) (part : List Char) : Except FileError Location :=
  match t.get? loc with
  | none => .error .notFound
  | some (.file _) => .error .notDirectory
  | some .folder =>
    if part = [] ∨ part = ['.'] then .ok loc
    else if part = ['.', '.'] then .ok loc.dropLast
    else .ok (loc ++ [String.ofList part])

/-- The location that a path leads to. There may be nothing there, but on the way there is. -/
def locate (t : FileTree) (p : Path) : Except FileError Location :=
  let start := if p.text.toList.head? = some '/' then [] else t.here
  (Path.splitSlash p.text.toList).foldlM t.follow start

def read (t : FileTree) (p : Path) : Except FileError ByteArray := do
  match t.get? (← t.locate p) with
  | none => throw .notFound
  | some .folder => throw .isDirectory
  | some (.file content) => return content

def readText (t : FileTree) (p : Path) : Except FileError String := do
  match String.fromUTF8? (← t.read p) with
  | some text => return text
  | none => throw .notText

/-- Makes the file or replaces it. -/
def write (t : FileTree) (p : Path) (content : ByteArray) : Except FileError FileTree := do
  let loc ← t.locate p
  match t.get? loc with
  | some .folder => throw .isDirectory
  | _ => return t.insert loc (.file content)

/-- Removes a file, never a folder. -/
def remove (t : FileTree) (p : Path) : Except FileError FileTree := do
  let loc ← t.locate p
  match t.get? loc with
  | none => throw .notFound
  | some .folder => throw .isDirectory
  | some (.file _) => return t.erase loc

/-- Makes a folder where there is nothing yet. Slashes may follow its name. -/
def makeFolder (t : FileTree) (p : Path) : FileTree :=
  let name := (p.text.toList.reverse.dropWhile (· == '/')).reverse
  match t.locate ⟨String.ofList name⟩ with
  | .error _ => t
  | .ok loc => if (t.get? loc).isSome then t else t.insert loc .folder

/-- Adds a node together with the folders on the way to it. -/
def plant (t : FileTree) (loc : Location) (node : Node) : FileTree :=
  let way := (List.range loc.length).map loc.take
  (way.foldl (fun t above => if (t.get? above).isSome then t else t.insert above .folder) t).insert
    loc node

/-- The tree of a working directory with nothing in it. -/
def empty (here : Location) : FileTree :=
  { ({} : FileTree).plant here .folder with here := here }

/-- What there is under the working directory, by the names on the way down from it. -/
def listing (t : FileTree) : List (Location × Node) :=
  t.entries.filterMap fun (loc, node) =>
    if t.here.isPrefixOf loc && loc.length != t.here.length then some (loc.drop t.here.length, node)
    else none

theorem lookup_filter_ne {entries : List (Location × Node)} {loc other : Location}
    (h : other ≠ loc) :
    (entries.filter fun entry => entry.1 != loc).lookup other = entries.lookup other := by
  induction entries with
  | nil => rfl
  | cons entry entries ih =>
    obtain ⟨key, node⟩ := entry
    by_cases hk : key = loc
    · subst hk
      have : (other == key) = false := by simpa using h
      simp [List.lookup_cons, this, ih]
    · have : (key != loc) = true := by simpa using hk
      simp [List.lookup_cons, this, ih]

theorem lookup_filter_self {entries : List (Location × Node)} {loc : Location} :
    (entries.filter fun entry => entry.1 != loc).lookup loc = none := by
  induction entries with
  | nil => rfl
  | cons entry entries ih =>
    obtain ⟨key, node⟩ := entry
    by_cases hk : key = loc
    · subst hk; simpa using ih
    · have h1 : (key != loc) = true := by simpa using hk
      have h2 : (loc == key) = false := by simpa using fun h => hk h.symm
      simp [List.lookup_cons, h1, h2, ih]

theorem get?_erase (t : FileTree) (loc other : Location) (h : loc ≠ []) :
    (t.erase loc).get? other = if other = loc then none else t.get? other := by
  unfold get? erase
  by_cases ho : other = loc
  · subst ho; simp [h, lookup_filter_self]
  · simp [ho, lookup_filter_ne ho]

theorem get?_insert (t : FileTree) (loc other : Location) (node : Node) (h : loc ≠ []) :
    (t.insert loc node).get? other = if other = loc then some node else t.get? other := by
  unfold insert
  by_cases ho : other = loc
  · subst ho; simp [get?, h]
  · have : (other == loc) = false := by simpa using ho
    have he := get?_erase t loc other h
    simp only [ho, if_false] at he ⊢
    rw [← he]
    simp [get?, List.lookup_cons, this]

end FileTree

end UnaryC.Files
