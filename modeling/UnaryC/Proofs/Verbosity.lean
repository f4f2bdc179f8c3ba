import UnaryC.Proofs.Action

/-!
# Verbosity only adds to what is shown

Two runs are taken side by side, one that says which step comes next and one that says nothing. They
stay in step: after each action they have the same result, the same files and the same output, and
they differ in what the first has said. That is a beginning of one plan, which the path and the stop
point fix: all of it when the run succeeds, and less when a step fails on the way.
-/
namespace UnaryC.Command

open Files

/-- Messages as they are shown. -/
def logText (said : List String) : String :=
  String.join (said.map fun message => "[cygnet] " ++ message ++ "\n")

theorem logText_concat (said : List String) (message : String) :
    logText (said ++ [message]) = logText said ++ "[cygnet] " ++ message ++ "\n" := by
  simp only [logText, List.map_append, String.join_append, List.map_cons, List.map_nil,
    String.join_cons, String.join_nil, String.append_empty, String.append_assoc]

/-- What a run shows of its messages. -/
def shown (verbose : Bool) (said : List String) : String :=
  if verbose then logText said else ""

/-- The stage that a run compiles through. -/
def throughStage : Option StopPoint → Stage
  | some (.after stage) => stage
  | some .assembly => .codegen
  | some .object => .codegen
  | none => .codegen

namespace Action

/-- The action that may speak and the one that may not, from states that differ in what has been
said. They have the same result, files and output. The one says `first` and then a beginning of
`further`, which is all of it when it succeeds. The other says nothing. -/
def InStep (first further : List String) {α : Type} (a : Bool → Action α) : Prop :=
  ∀ (said : List String) (files : FileTree) (stdout : String), ∃ result files' stdout' more,
    (a false).run.run ⟨files, stdout, ""⟩ = (result, ⟨files', stdout', ""⟩) ∧
    (a true).run.run ⟨files, stdout, logText said⟩ =
      (result, ⟨files', stdout', logText (said ++ first ++ more)⟩) ∧
    more <+: further ∧ (result.isOk → more = further)

/-- The action neither says anything nor depends on what has been said. -/
def Mute {α : Type} (a : Action α) : Prop :=
  ∀ (files : FileTree) (stdout : String), ∃ result files' stdout', ∀ stderr,
    a.run.run ⟨files, stdout, stderr⟩ = (result, ⟨files', stdout', stderr⟩)

namespace Mute

theorem call (tools : Option Toolchain) (tool : Tool) (src out : Path) :
    Mute (Action.call tools tool src out) := by
  intro files stdout
  cases tools with
  | none => exact ⟨_, files, stdout, fun _ => rfl⟩
  | some tools =>
    let done := (tools.behaviour tool).run tool src out files
    exact ⟨if done.status ≠ 0 then .error (.toolFailed tool done.status done.stderr) else .ok (),
      done.files, stdout, fun _ => run_call tools tool src out _⟩

theorem compileFile {α : Type} (path : Path) (compiler : List String → Except CompileError α) :
    Mute (Action.compileFile path compiler) := by
  intro files stdout
  refine ⟨((Action.compileFile path compiler).run.run ⟨files, stdout, ""⟩).1, files, stdout,
    fun stderr => ?_⟩
  simp only [run_compileFile]

theorem printStage (stage : Stage) (text : String) (artifact : Artifact) :
    Mute (Action.printStage stage text artifact) := by
  intro files stdout
  refine ⟨.ok (), files, ((Action.printStage stage text artifact).run.run
    ⟨files, stdout, ""⟩).2.stdout, fun stderr => ?_⟩
  simp only [run_printStage]

theorem writeAssembly (path : Path) (program : Machine.Program) :
    Mute (Action.writeAssembly path program) := by
  intro files stdout
  cases hassembly : program.assembly with
  | error error =>
    refine ⟨.error (.unplaced error), files, stdout, fun stderr => ?_⟩
    simp only [run_writeAssembly, hassembly]
  | ok text =>
    cases hwrite : files.write path text.toUTF8 with
    | error error =>
      refine ⟨.error (.unwritable path error), files, stdout, fun stderr => ?_⟩
      simp only [run_writeAssembly, hassembly, hwrite]
    | ok files' =>
      refine ⟨.ok (), files', stdout, fun stderr => ?_⟩
      simp only [run_writeAssembly, hassembly, hwrite]

end Mute

namespace InStep

variable {first further first' further' : List String} {α β : Type}

theorem log (message : String) : InStep [message] [] (Action.log · message) := by
  intro said files stdout
  refine ⟨.ok (), files, stdout, [], rfl, ?_, List.nil_prefix, fun _ => rfl⟩
  rw [List.append_nil, logText_concat]
  rfl

theorem of_mute {a : Action α} (h : Mute a) : InStep [] [] fun _ => a := by
  intro said files stdout
  obtain ⟨result, files', stdout', hrun⟩ := h files stdout
  refine ⟨result, files', stdout', [], hrun _, ?_, List.nil_prefix, fun _ => rfl⟩
  rw [List.append_nil, List.append_nil]
  exact hrun _

theorem bind {a : Bool → Action α} {f : α → Bool → Action β} (ha : InStep first further a)
    (hf : ∀ x, InStep first' further' (f x)) :
    InStep first (further ++ first' ++ further')
      fun verbose => a verbose >>= fun x => f x verbose := by
  intro said files stdout
  obtain ⟨result, files', stdout', more, hquiet, hloud, hbegins, hall⟩ := ha said files stdout
  cases result with
  | error failure =>
    -- Nothing is said after a failure.
    refine ⟨.error failure, files', stdout', more, run_bind_of_error hquiet,
      run_bind_of_error hloud, hbegins.trans ?_, fun hok => by cases hok⟩
    rw [List.append_assoc]
    exact List.prefix_append _ _
  | ok x =>
    obtain rfl := hall rfl
    obtain ⟨result, files'', stdout'', more', hquiet', hloud', hbegins', hall'⟩ :=
      hf x (said ++ first ++ more) files' stdout'
    refine ⟨result, files'', stdout'', more ++ first' ++ more',
      (run_bind_of_ok hquiet).trans hquiet', ?_, (List.prefix_append_right_inj _).mpr hbegins', ?_⟩
    · rw [run_bind_of_ok hloud, hloud']
      simp only [List.append_assoc]
    · intro hok
      rw [hall' hok]

theorem cleaningUp {a : Bool → Action α} (h : InStep first further a) (intermediate : Path) :
    InStep first further fun verbose => Action.cleaningUp intermediate (a verbose) := by
  intro said files stdout
  obtain ⟨result, files', stdout', more, hquiet, hloud, hbegins, hall⟩ := h said files stdout
  simp only [run_cleaningUp, hquiet, hloud]
  cases files'.remove intermediate with
  | ok files'' => exact ⟨result, files'', stdout', more, rfl, rfl, hbegins, hall⟩
  | error error =>
    -- A removal that fails makes a failure of a success, and never the other way round.
    cases result with
    | ok x => cases error <;> exact ⟨_, files', stdout', more, rfl, rfl, hbegins, fun _ => hall rfl⟩
    | error failure => cases error <;> exact ⟨_, files', stdout', more, rfl, rfl, hbegins, hall⟩

theorem compileSource (tools : Option Toolchain) (source : Path) (stage : Stage)
    (compiler : List String → Except CompileError α) :
    InStep ["preprocessing " ++ source.text ++ " -> " ++
        (Outputs.ofSource source).preprocessed.text] ["compiling through " ++ stage.title]
      (Action.compileSource tools · source stage compiler) :=
  (log _).bind fun _ => (of_mute (.call _ _ _ _)).bind fun _ => (log _).bind fun _ =>
    (of_mute (.compileFile _ compiler)).cleaningUp _

theorem makeAssembly (tools : Option Toolchain) (source : Path) :
    InStep ["preprocessing " ++ source.text ++ " -> " ++
        (Outputs.ofSource source).preprocessed.text]
      ["compiling through " ++ Stage.codegen.title,
        "writing " ++ (Outputs.ofSource source).assembly.text]
      (Action.makeAssembly tools · source) :=
  (compileSource tools source .codegen generateSource).bind fun _ =>
    (log _).bind fun _ => of_mute (.writeAssembly _ _)

theorem finish (tools : Option Toolchain) (tool : Tool) (source out : Path) :
    InStep [] [] fun _ => Action.finish tools tool source out :=
  (of_mute (.call tools tool (Outputs.ofSource source).assembly out)).cleaningUp
    (Outputs.ofSource source).assembly

end InStep

/-- All that a run says if no step of it fails. -/
def plan (source : Path) (stop : Option StopPoint) : List String :=
  let outputs := Outputs.ofSource source
  let writing := "writing " ++ outputs.assembly.text
  ("preprocessing " ++ source.text ++ " -> " ++ outputs.preprocessed.text) ::
    ("compiling through " ++ (throughStage stop).title) ::
      match stop with
      | some (.after _) => []
      | some .assembly => [writing]
      | some .object => [writing, "assembling " ++ outputs.object.text]
      | none => [writing, "linking " ++ outputs.executable.text]

theorem inStep_steps (tools : Option Toolchain) (source : Path) (stop : Option StopPoint) :
    ∃ first further, plan source stop = first :: further ∧
      InStep [first] further (steps tools · source stop) := by
  refine ⟨_, _, rfl, ?_⟩
  cases stop with
  | none =>
    exact (InStep.makeAssembly tools source).bind fun _ => (InStep.log _).bind fun _ =>
      InStep.finish tools .linker source _
  | some point =>
    cases point with
    | after stage =>
      exact (InStep.compileSource tools source stage (compile · stage)).bind fun made =>
        InStep.of_mute (.printStage stage made.1 made.2)
    | assembly => exact InStep.makeAssembly tools source
    | object =>
      exact (InStep.makeAssembly tools source).bind fun _ => (InStep.log _).bind fun _ =>
        InStep.finish tools .assembler source _

/-- Both runs from the beginning. What is said is a beginning of the plan: nothing if the path names
no file, and everything if the run succeeds. -/
theorem run_build_inStep (tools : Option Toolchain) (source : Path) (stop : Option StopPoint)
    (files : FileTree) :
    ∃ result files' stdout said,
      (build tools false source stop).run.run { files := files } =
        (result, ⟨files', stdout, ""⟩) ∧
      (build tools true source stop).run.run { files := files } =
        (result, ⟨files', stdout, logText said⟩) ∧
      said <+: plan source stop ∧ (said = [] ↔ ¬ source.hasStem) ∧
      (result.isOk → said = plan source stop) := by
  unfold build
  by_cases hstem : source.hasStem
  · rw [if_pos hstem, if_pos hstem]
    obtain ⟨first, further, hplan, hsteps⟩ := inStep_steps tools source stop
    obtain ⟨result, files', stdout, more, hquiet, hloud, hbegins, hall⟩ := hsteps [] files ""
    refine ⟨result, files', stdout, first :: more, hquiet, hloud, ?_, by simp [hstem], ?_⟩
    · rw [hplan]
      exact (List.prefix_cons_inj first).mpr hbegins
    · intro hok
      rw [hplan, hall hok]
  · rw [if_neg hstem, if_neg hstem]
    exact ⟨.error (.notSource source), files, "", [], rfl, rfl, List.nil_prefix, by simp [hstem],
      fun hok => by cases hok⟩

/-- The error output before the report of a failure. -/
theorem exists_shown_build (tools : Option Toolchain) (verbose : Bool) (source : Path)
    (stop : Option StopPoint) (files : FileTree) :
    ∃ said, said <+: plan source stop ∧
      ((build tools verbose source stop).run.run { files := files }).2.stderr =
        shown verbose said := by
  obtain ⟨_, _, _, said, hquiet, hloud, hbegins, -⟩ := run_build_inStep tools source stop files
  refine ⟨said, hbegins, ?_⟩
  cases verbose with
  | false => rw [hquiet]; rfl
  | true => rw [hloud]; rfl

end Action

/-- A run that says which step comes next has the same exit status, the same output and the same
files as the run that does not. What it writes to the error output is first its messages, with a
mark before each, and then what the other run writes there. The messages are a beginning of the
plan: there are none exactly if the path names no file, and all if the run succeeds. -/
theorem runOptions_verbose_adds_log (tools : Option Toolchain) (path : Path)
    (stop : Option StopPoint) (files : FileTree) :
    let quiet := runOptions tools { path := path, stop := stop, verbose := false } files
    let loud := runOptions tools { path := path, stop := stop, verbose := true } files
    loud.exit = quiet.exit ∧ loud.stdout = quiet.stdout ∧ loud.files = quiet.files ∧
      ∃ said, loud.stderr =
          String.join (said.map fun message => "[cygnet] " ++ message ++ "\n") ++ quiet.stderr ∧
        said <+: Action.plan path stop ∧ (said = [] ↔ ¬ path.hasStem) ∧
        (quiet.exit = 0 → said = Action.plan path stop) := by
  obtain ⟨result, files', stdout, said, hquiet, hloud, hbegins, hempty, hall⟩ :=
    Action.run_build_inStep tools path stop files
  simp only [runOptions, hquiet, hloud]
  cases result with
  | ok done =>
    refine ⟨rfl, rfl, rfl, said, ?_, hbegins, hempty, fun _ => hall rfl⟩
    exact String.append_empty.symm
  | error failure =>
    refine ⟨rfl, rfl, rfl, said, ?_, hbegins, hempty, fun hexit => by cases hexit⟩
    exact congrArg (logText said ++ ·) String.empty_append.symm

end UnaryC.Command
