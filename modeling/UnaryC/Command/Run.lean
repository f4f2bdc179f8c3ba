import UnaryC.Command.Failure
import UnaryC.Command.Help
import UnaryC.Command.Options
import UnaryC.Text.Lines

/-!
A run of the command: preprocess, compile, then print a stage or write, assemble and link the
program. Intermediate files go away after the step that needs them, whether or not it succeeds.
-/
namespace UnaryC.Command

open Files

/-- The files that belong to a source file. -/
structure Outputs where
  preprocessed : Path
  assembly : Path
  object : Path
  executable : Path
deriving DecidableEq, Repr

def Outputs.ofSource (source : Path) : Outputs where
  preprocessed := source.withExtension "i"
  assembly := source.withExtension "s"
  object := source.withExtension "o"
  executable := source.withExtension ""

/-- How far a run has come. -/
structure Progress where
  files : FileTree
  stdout : String := ""
  stderr : String := ""
deriving DecidableEq

/-- A step of a run; when it fails, what it did before stays done. -/
abbrev Action := ExceptT Failure (StateM Progress)

namespace Action

/-- Says which step comes next, if the run is to say so. -/
def log (verbose : Bool) (message : String) : Action Unit := do
  if verbose then modify fun p => { p with stderr := p.stderr ++ "[cygnet] " ++ message ++ "\n" }

def print (text : String) : Action Unit :=
  modify fun p => { p with stdout := p.stdout ++ text }

def call (tools : Option Toolchain) (tool : Tool) (src out : Path) : Action Unit := do
  match tools with
  | none => throw (.toolMissing tool)
  | some tools =>
    let result := (tools.behaviour tool).run tool src out (← get).files
    modify fun p => { p with files := result.files }
    if result.status ≠ 0 then throw (.toolFailed tool result.status result.stderr)

/-- Does a step and then removes an intermediate file. A file that is not there need not be removed,
and the failure of the step counts for more than that of the removal. -/
def cleaningUp {α : Type} (intermediate : Path) (step : Action α) : Action α :=
  ExceptT.mk do
    let result ← step.run
    let p ← get
    match p.files.remove intermediate with
    | .ok files =>
      set { p with files := files }
      return result
    | .error .notFound => return result
    | .error error => return result.bind fun _ => .error (.undeletable intermediate error)

/-- Reads a file and compiles its lines; returns the text too. -/
def compileFile {α : Type} (path : Path) (compiler : List String → Except CompileError α) :
    Action (String × α) := do
  match (← get).files.readText path with
  | .error error => throw (.unreadable path error)
  | .ok source =>
    match compiler (Text.lines source) with
    | .error error => throw (.compile error)
    | .ok value => return (source, value)

def writeAssembly (path : Path) (program : Machine.Program) : Action Unit := do
  match program.assembly with
  | .error error => throw (.unplaced error)
  | .ok text =>
    match (← get).files.write path text.toUTF8 with
    | .error error => throw (.unwritable path error)
    | .ok files => modify fun p => { p with files := files }

/-- The printed form of a stage; that of the first one shows the source as well. -/
def printStage (stage : Stage) (source : String) (artifact : Artifact) : Action Unit :=
  match stage with
  | .lex => print (Listing.ofSource source ++ "\n" ++ artifact.text)
  | _ => print artifact.text

/-- Preprocesses the source file and compiles it. -/
def compileSource {α : Type} (tools : Option Toolchain) (verbose : Bool) (source : Path)
    (stage : Stage) (compiler : List String → Except CompileError α) : Action (String × α) := do
  let preprocessed := (Outputs.ofSource source).preprocessed
  log verbose ("preprocessing " ++ source.text ++ " -> " ++ preprocessed.text)
  call tools .preprocessor source preprocessed
  log verbose ("compiling through " ++ stage.title)
  cleaningUp preprocessed (compileFile preprocessed compiler)

/-- Compiles the source file to an assembly file. -/
def makeAssembly (tools : Option Toolchain) (verbose : Bool) (source : Path) : Action Unit := do
  let (_, program) ← compileSource tools verbose source .codegen generateSource
  let assembly := (Outputs.ofSource source).assembly
  log verbose ("writing " ++ assembly.text)
  writeAssembly assembly program

/-- Makes an output of the assembly file, which then goes away. -/
def finish (tools : Option Toolchain) (tool : Tool) (source out : Path) : Action Unit :=
  let assembly := (Outputs.ofSource source).assembly
  cleaningUp assembly (call tools tool assembly out)

/-- What is done for a path that names a file. -/
def steps (tools : Option Toolchain) (verbose : Bool) (source : Path) :
    Option StopPoint → Action Unit
  | some (.after stage) => do
    let (text, artifact) ← compileSource tools verbose source stage (compile · stage)
    printStage stage text artifact
  | some .assembly => makeAssembly tools verbose source
  | some .object => do
    let object := (Outputs.ofSource source).object
    makeAssembly tools verbose source
    log verbose ("assembling " ++ object.text)
    finish tools .assembler source object
  | none => do
    let executable := (Outputs.ofSource source).executable
    makeAssembly tools verbose source
    log verbose ("linking " ++ executable.text)
    finish tools .linker source executable

def build (tools : Option Toolchain) (verbose : Bool) (source : Path) (stop : Option StopPoint) :
    Action Unit :=
  if source.hasStem then steps tools verbose source stop else throw (.notSource source)

end Action

/-- What a run leaves behind. -/
structure Outcome where
  exit : UInt8
  stdout : String
  stderr : String
  files : FileTree
deriving DecidableEq

/-- A run with options. A failure is reported behind what has been said before it. -/
def runOptions (tools : Option Toolchain) (options : Options) (files : FileTree) : Outcome :=
  let build := Action.build tools options.verbose options.path options.stop
  let (result, progress) := build.run.run { files := files }
  match result with
  | .ok () => ⟨0, progress.stdout, progress.stderr, progress.files⟩
  | .error failure => ⟨1, progress.stdout, progress.stderr ++ failure.report, progress.files⟩

/-- A run of the command with arguments, in a working directory. -/
def run (tools : Option Toolchain) (arguments : List String) (files : FileTree) : Outcome :=
  match Options.read arguments with
  | .ok options => runOptions tools options files
  | .error (.help full) => ⟨0, if full then fullHelpText else helpText, "", files⟩
  | .error .version => ⟨0, versionText, "", files⟩
  | .error (.usage error) => ⟨2, "", error.message ++ "\n", files⟩

end UnaryC.Command
