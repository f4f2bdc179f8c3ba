import UnaryC.Files.Path
import UnaryC.Pipeline
import UnaryC.Text.Terminal

/-!
The arguments of the command: switches, long ones by name and short ones in clusters, and the path
of the source file. Arguments are read from left to right, and the first that is wrong, or asks
for help or the version, ends the reading. Only then are the switches held against each other.
-/
namespace UnaryC.Command

open Files (Path)

/-- Where a run stops before there is an executable. -/
inductive StopPoint where
  /-- Prints what the stage makes. -/
  | after (stage : Stage)
  /-- Leaves the assembly file. -/
  | assembly
  /-- Leaves the object file. -/
  | object
deriving DecidableEq, Repr

inductive Switch where
  | stop (point : StopPoint)
  | verbose
  | help (full : Bool)
  | version
deriving DecidableEq, Repr

namespace Switch

/-- How messages name the switch: by its long name if it has one. -/
def name : Switch → String
  | stop (.after .lex) => "--lex"
  | stop (.after .parse) => "--parse"
  | stop (.after .tacky) => "--tacky"
  | stop (.after .codegen) => "--codegen"
  | stop .assembly => "-S"
  | stop .object => "-c"
  | verbose => "--verbose"
  | help _ => "--help"
  | version => "--version"

def ofLong? (name : String) : Option Switch :=
  if name = "lex" then some (stop (.after .lex))
  else if name = "parse" then some (stop (.after .parse))
  else if name = "tacky" then some (stop (.after .tacky))
  else if name = "codegen" then some (stop (.after .codegen))
  else if name = "verbose" then some verbose
  else if name = "help" then some (help true)
  else if name = "version" then some version
  else none

def ofShort? (letter : Char) : Option Switch :=
  if letter = 'S' then some (stop .assembly)
  else if letter = 'c' then some (stop .object)
  else if letter = 'v' then some verbose
  else if letter = 'h' then some (help false)
  else if letter = 'V' then some version
  else none

end Switch

inductive UsageError where
  | missingPath
  | emptyPath
  | unexpected (argument : String)
  | unwantedValue (switch : Switch) (value : String)
  | repeated (switch : Switch)
  /-- Several stop points, in the order given. -/
  | conflict (first second : StopPoint) (others : List StopPoint)
deriving DecidableEq, Repr

/-- The first line of what is shown for the error. The lines behind it, which list arguments and
show the usage, are not kept. What was given is shown without what would steer a terminal. -/
def UsageError.message : UsageError → String
  | missingPath => "error: the following required arguments were not provided:"
  | emptyPath => "error: a value is required for '<PATH>' but none was supplied"
  | unexpected argument =>
    "error: unexpected argument '" ++ Text.Terminal.strip argument ++ "' found"
  | unwantedValue switch value =>
    "error: unexpected value '" ++ Text.Terminal.strip value ++ "' for '" ++ switch.name
      ++ "' found; no more were expected"
  | repeated switch =>
    "error: the argument '" ++ switch.name ++ "' cannot be used multiple times"
  | conflict first second [] =>
    "error: the argument '" ++ (Switch.stop first).name ++ "' cannot be used with '"
      ++ (Switch.stop second).name ++ "'"
  | conflict first _ (_ :: _) =>
    "error: the argument '" ++ (Switch.stop first).name ++ "' cannot be used with:"

/-- What a run is to do. -/
structure Options where
  path : Path
  stop : Option StopPoint
  verbose : Bool
deriving DecidableEq, Repr

/-- The ways in which reading arguments ends without options. -/
inductive Exit where
  | help (full : Bool)
  | version
  | usage (error : UsageError)
deriving DecidableEq, Repr

/-- The arguments read so far. -/
structure Draft where
  path : Option String := none
  /-- The stop points in the order given. -/
  stops : List StopPoint := []
  verbose : Bool := false
deriving DecidableEq, Repr

namespace Draft

/-- An empty path is refused when the next switch is taken, or else when the arguments end. -/
def checkPath (d : Draft) : Except Exit Unit :=
  if d.path = some "" then .error (.usage .emptyPath) else .ok ()

def addSwitch (d : Draft) (s : Switch) : Except Exit Draft := do
  d.checkPath
  match s with
  | .help full => throw (.help full)
  | .version => throw .version
  | .verbose =>
    if d.verbose then throw (.usage (.repeated s)) else return { d with verbose := true }
  | .stop point =>
    if point ∈ d.stops then throw (.usage (.repeated s))
    else return { d with stops := d.stops ++ [point] }

def addPath (d : Draft) (text : String) : Except Exit Draft :=
  match d.path with
  | none => .ok { d with path := some text }
  | some _ => .error (.usage (.unexpected text))

/-- A long switch, `body` being what follows the two dashes. No switch takes a value. -/
def addLong (d : Draft) (body : List Char) : Except Exit Draft :=
  let name := String.ofList (body.takeWhile (· != '='))
  match Switch.ofLong? name, body.dropWhile (· != '=') with
  | none, _ => .error (.usage (.unexpected ("--" ++ name)))
  | some s, [] => d.addSwitch s
  | some s, _ :: value => .error (.usage (.unwantedValue s (String.ofList value)))

/-- Short switches behind one dash. -/
def addCluster (d : Draft) : List Char → Except Exit Draft
  | [] => .ok d
  | letter :: letters =>
    match Switch.ofShort? letter with
    | none => .error (.usage (.unexpected (String.ofList ['-', letter])))
    | some s => do (← d.addSwitch s).addCluster letters

/-- One argument. A dash alone is a path. -/
def add (d : Draft) (argument : String) : Except Exit Draft :=
  match argument.toList with
  | '-' :: '-' :: body => d.addLong body
  | '-' :: letter :: letters => d.addCluster (letter :: letters)
  | _ => d.addPath argument

/-- All arguments; what follows `--` is no switch. -/
def addAll (d : Draft) : List String → Except Exit Draft
  | [] => .ok d
  | argument :: arguments =>
    if argument = "--" then arguments.foldlM addPath d
    else do (← d.add argument).addAll arguments

/-- The options that the arguments amount to. -/
def finish (d : Draft) : Except Exit Options := do
  d.checkPath
  match d.stops, d.path with
  | first :: second :: others, _ => throw (.usage (.conflict first second others))
  | _, none => throw (.usage .missingPath)
  | stops, some path => return { path := ⟨path⟩, stop := stops.head?, verbose := d.verbose }

end Draft

def Options.read (arguments : List String) : Except Exit Options := do
  (← Draft.addAll {} arguments).finish

end UnaryC.Command
