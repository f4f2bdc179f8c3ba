import UnaryC.Command.Run

/-!
The command. It looks at the files that a run can touch, does the run on that view of the disk
with a well-behaved toolchain, and then makes the disk look like the result.
-/
namespace UnaryC.Main

open Files Command

/-- The file system's own name for a location. -/
def absolute (loc : Location) : String :=
  "/" ++ "/".intercalate loc

/-- The locations that a path leads through from `loc` on, taken by their names alone. -/
def way (loc : Location) : List (List Char) → List Location
  | [] => [loc]
  | part :: parts =>
    if part = [] ∨ part = ['.'] then way loc parts
    else if part = ['.', '.'] then loc :: way loc.dropLast parts
    else loc :: way (loc ++ [String.ofList part]) parts

/-- The paths that a run with those arguments can touch. -/
def touched (arguments : List String) : List Path :=
  match Options.read arguments with
  | .error _ => []
  | .ok options =>
    let outputs := Outputs.ofSource options.path
    [options.path, outputs.preprocessed, outputs.assembly, outputs.object, outputs.executable]

def locations (here : Location) (p : Path) : List Location :=
  way (if p.text.toList.head? = some '/' then [] else here) (Path.splitSlash p.text.toList)

def look (loc : Location) : IO (Option Node) := do
  let file := (← IO.currentDir) / absolute loc
  if ← file.isDir then return some .folder
  else if ← file.pathExists then return some (.file (← IO.FS.readBinFile file))
  else return none

def view (here : Location) (locs : List Location) : IO FileTree := do
  let mut tree := FileTree.empty here
  for loc in locs do
    if let some node ← look loc then tree := tree.insert loc node
  return tree

def settle (before after : FileTree) (loc : Location) : IO Unit := do
  match before.get? loc, after.get? loc with
  | old, some (.file content) =>
    if old ≠ some (.file content) then IO.FS.writeBinFile (absolute loc) content
  | some (.file _), none => IO.FS.removeFile (absolute loc)
  | _, _ => return ()

def runCommand (arguments : List String) : IO UInt32 := do
  let cwd := (← IO.currentDir).toString
  let here := ((Path.splitSlash cwd.toList).map String.ofList).filter (· ≠ "")
  let locs := ((touched arguments).flatMap (locations here)).eraseDups
  let before ← view here locs
  let outcome := run (some {}) arguments before
  locs.forM (settle before outcome.files)
  IO.print outcome.stdout
  IO.eprint outcome.stderr
  return outcome.exit.toUInt32

end UnaryC.Main

def main (arguments : List String) : IO UInt32 :=
  UnaryC.Main.runCommand arguments
