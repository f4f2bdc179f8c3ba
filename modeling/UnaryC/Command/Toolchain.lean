import UnaryC.Files.FileTree

/-!
The C toolchain that a run calls on: a preprocessor, an assembler and a linker behind one program.
The module says what each tool does to the working directory, well behaved or not.
-/
namespace UnaryC.Command

open Files

inductive Tool where
  | preprocessor
  | assembler
  | linker
deriving DecidableEq, Repr

/-- How messages name the tool. -/
def Tool.name : Tool → String
  | preprocessor => "preprocessor"
  | assembler => "assembler"
  | linker => "assembler and linker"

/-- What the tool puts in front of its input. -/
def Tool.header : Tool → String
  | preprocessor => ""
  | assembler => "OBJ\n"
  | linker => "EXE\n"

/-- The ways in which a tool may act on its source and output files. -/
inductive Behaviour where
  /-- Reads the source and writes only the output. -/
  | faithful
  /-- Touches no file and fails. -/
  | fail (status : UInt8) (stderr : ByteArray)
  /-- Touches no file and succeeds. -/
  | idle
  /-- Removes the source and succeeds. -/
  | removeSource
  /-- Puts a folder in place of the source and succeeds. -/
  | replaceSource
deriving DecidableEq

structure ToolResult where
  status : UInt8
  stderr : ByteArray
  files : FileTree
deriving DecidableEq

/-- The source with the tool's header in front goes to the output. -/
def Tool.work (tool : Tool) (src out : Path) (files : FileTree) : ToolResult :=
  match files.read src with
  | .error _ => ⟨1, ("gcc: cannot read " ++ src.text ++ "\n").toUTF8, files⟩
  | .ok content =>
    match files.write out (tool.header.toUTF8 ++ content) with
    | .error _ => ⟨1, ("gcc: cannot write " ++ out.text ++ "\n").toUTF8, files⟩
    | .ok files => ⟨0, .empty, files⟩

/-- The directory without the file, or as it is if the file cannot be removed. -/
def discard (files : FileTree) (p : Path) : FileTree :=
  match files.remove p with
  | .ok files => files
  | .error _ => files

def Behaviour.run (behaviour : Behaviour) (tool : Tool) (src out : Path) (files : FileTree) :
    ToolResult :=
  match behaviour with
  | faithful => tool.work src out files
  | fail status stderr => ⟨status, stderr, files⟩
  | idle => ⟨0, .empty, files⟩
  | removeSource => ⟨0, .empty, discard files src⟩
  | replaceSource => ⟨0, .empty, (discard files src).makeFolder src⟩

structure Toolchain where
  preprocessor : Behaviour := .faithful
  assembler : Behaviour := .faithful
  linker : Behaviour := .faithful
deriving DecidableEq

def Toolchain.behaviour (t : Toolchain) : Tool → Behaviour
  | .preprocessor => t.preprocessor
  | .assembler => t.assembler
  | .linker => t.linker

end UnaryC.Command
