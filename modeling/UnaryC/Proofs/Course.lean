import UnaryC.Proofs.Faultless
import UnaryC.Proofs.FileTree
import UnaryC.Proofs.Verbosity

/-!
# The course of a run

How each step of a run ends, and the files it leaves, where no tool does more than write its output.
A step that removes an intermediate file ends as it would without the removal: when the step has
succeeded, the file is there to be removed. What is left is the directory as it was before the file
was made, and with the output of the step in it.
-/
namespace UnaryC.Command

open Files

section

variable {t t' : FileTree} {p q : Path} {content : ByteArray}

theorem discard_eq_erase {loc : Location} (h : t.Reaches p loc) : discard t p = t.erase loc := by
  cases hremove : t.remove p with
  | ok t' =>
    obtain ⟨loc', -, hloc', -, rfl⟩ := FileTree.remove_eq_ok_iff.mp hremove
    rw [h.locate] at hloc'
    cases hloc'
    rw [discard, hremove]
  | error error =>
    -- There is no file, so there is nothing.
    have hnone : t.get? loc = none := by
      cases hget : t.get? loc with
      | none => rfl
      | some node =>
        cases node with
        | folder => exact absurd hget h.free
        | file content =>
          rw [FileTree.remove_eq_ok_iff.mpr ⟨loc, content, h.locate, hget, rfl⟩] at hremove
          cases hremove
    rw [discard, hremove, FileTree.erase_eq_self hnone]

theorem discard_eq_self (h : t.Vacant p) : discard t p = t := by
  cases hremove : t.remove p with
  | ok t' =>
    obtain ⟨loc, content, hloc, hget, -⟩ := FileTree.remove_eq_ok_iff.mp hremove
    exact absurd ⟨loc, hloc, hget⟩ (h.not_holds _)
  | error error => rw [discard, hremove]

/-- What was at the place of an intermediate file makes no difference once the file is gone. -/
theorem discard_of_write (h : t.write p content = .ok t') : discard t' p = discard t p := by
  obtain ⟨loc, hloc, hfree, rfl⟩ := FileTree.write_eq_ok_iff.mp h
  have hp : t.Reaches p loc := ⟨hloc, hfree⟩
  rw [discard_eq_erase (hp.insert hp content), discard_eq_erase hp, FileTree.erase_insert_self]

/-- An output that is made of an intermediate file stays when that file is gone. -/
theorem write_discard {t₁ t₂ : FileTree} {x y : ByteArray} (hp : t.write p x = .ok t₁)
    (hq : t₁.write q y = .ok t₂) (hne : t.locate q ≠ t.locate p) :
    (discard t p).write q y = .ok (discard t₂ p) := by
  obtain ⟨loc, hloc, hfree, rfl⟩ := FileTree.write_eq_ok_iff.mp hp
  obtain ⟨other, hother, hfree', rfl⟩ := FileTree.write_eq_ok_iff.mp hq
  have hp' : t.Reaches p loc := ⟨hloc, hfree⟩
  have hq' : (t.insert loc (.file x)).Reaches q other := ⟨hother, hfree'⟩
  have hlocate := (FileTree.locate_insert_file_iff hfree).mp hother
  have hdiff : other ≠ loc := fun he => hne (by rw [hlocate, hloc, he])
  have hq'' : t.Reaches q other := by
    refine ⟨hlocate, ?_⟩
    rwa [FileTree.get?_insert t loc other _ (FileTree.ne_nil_of_get? hfree), if_neg hdiff] at hfree'
  rw [discard_eq_erase ((hp'.insert hp' x).insert hq' y), discard_eq_erase hp',
    FileTree.erase_insert_of_ne hdiff, FileTree.erase_insert_self]
  exact (hq''.erase hp').write y

end

/-- The behaviours of a tool that writes its output or nothing. -/
def Behaviour.Careful (behaviour : Behaviour) : Prop :=
  behaviour ≠ .removeSource ∧ behaviour ≠ .replaceSource

theorem Behaviour.Careful.run_cases {behaviour : Behaviour} (h : behaviour.Careful) (tool : Tool)
    (src out : Path) (files : FileTree) :
    (behaviour.run tool src out files).files = files ∨
      (behaviour.run tool src out files).status = 0 ∧ ∃ content, files.read src = .ok content ∧
        files.write out (tool.header.toUTF8 ++ content) =
          .ok (behaviour.run tool src out files).files := by
  cases behaviour with
  | faithful =>
    simp only [run, Tool.work]
    cases files.read src with
    | error error => exact .inl rfl
    | ok content =>
      dsimp only
      cases hwrite : files.write out (tool.header.toUTF8 ++ content) with
      | error error => exact .inl rfl
      | ok files' => exact .inr ⟨rfl, content, rfl, hwrite⟩
  | fail status stderr => exact .inl rfl
  | idle => exact .inl rfl
  | removeSource => exact absurd rfl h.1
  | replaceSource => exact absurd rfl h.2

/-- A tool that works on an intermediate file leaves the directory as it was before that file was
made, with its own output if it has written one. -/
theorem Behaviour.Careful.discard_run {behaviour : Behaviour} (h : behaviour.Careful) (tool : Tool)
    {input out : Path} {t t' : FileTree} {content : ByteArray}
    (hwrite : t.write input content = .ok t') (hne : t.locate out ≠ t.locate input) :
    discard (behaviour.run tool input out t').files input = discard t input ∨
      (behaviour.run tool input out t').status = 0 ∧
        (discard t input).write out (tool.header.toUTF8 ++ content) =
          .ok (discard (behaviour.run tool input out t').files input) := by
  rcases h.run_cases tool input out t' with hsame | ⟨hstatus, content', hread, hout⟩
  · rw [hsame]
    exact .inl (discard_of_write hwrite)
  · rw [FileTree.read_eq_ok_iff.mpr (FileTree.Holds.of_write hwrite)] at hread
    cases hread
    exact .inr ⟨hstatus, write_discard hwrite hout hne⟩

/-- What the preprocessor does. -/
def preprocessing (tools : Toolchain) (source : Path) (files : FileTree) : ToolResult :=
  (tools.behaviour .preprocessor).run .preprocessor source (Outputs.ofSource source).preprocessed
    files

theorem preprocessing_cases {tools : Toolchain}
    (hcareful : (tools.behaviour .preprocessor).Careful) (source : Path) (files : FileTree) :
    (preprocessing tools source files).files = files ∨
      (preprocessing tools source files).status = 0 ∧ ∃ content, files.read source = .ok content ∧
        files.write (Outputs.ofSource source).preprocessed
          (Tool.preprocessor.header.toUTF8 ++ content) =
            .ok (preprocessing tools source files).files :=
  hcareful.run_cases .preprocessor source (Outputs.ofSource source).preprocessed files

/-- What compiling a file comes to. -/
def fileCompilation {α : Type} (files : FileTree) (path : Path)
    (compiler : List String → Except CompileError α) : Except Failure (String × α) :=
  match files.readText path with
  | .error error => .error (.unreadable path error)
  | .ok text => ((compiler (Text.lines text)).mapError .compile).map fun value => (text, value)

/-- What preprocessing and compiling come to. -/
def compilation {α : Type} (tools : Toolchain) (source : Path) (files : FileTree)
    (compiler : List String → Except CompileError α) : Except Failure (String × α) :=
  let done := preprocessing tools source files
  if done.status ≠ 0 then .error (.toolFailed .preprocessor done.status done.stderr)
  else fileCompilation done.files (Outputs.ofSource source).preprocessed compiler

/-- The files when the source has been compiled, or could not be. -/
def cleared (tools : Toolchain) (source : Path) (files : FileTree) : FileTree :=
  if (preprocessing tools source files).status ≠ 0 then files
  else discard files (Outputs.ofSource source).preprocessed

/-- The tool that a run ends with, and the output of that tool. -/
def Outputs.lastTool? (outputs : Outputs) : Option StopPoint → Option (Tool × Path)
  | some (.after _) => none
  | some .assembly => none
  | some .object => some (.assembler, outputs.object)
  | none => some (.linker, outputs.executable)

section

variable {tools : Toolchain} {source : Path} {files : FileTree}

theorem cleared_of_ok {α : Type} {compiler : List String → Except CompileError α}
    {result : String × α} (h : compilation tools source files compiler = .ok result) :
    cleared tools source files = discard files (Outputs.ofSource source).preprocessed := by
  refine if_neg fun hstatus => ?_
  simp only [compilation, if_pos hstatus] at h
  cases h

theorem exists_lines_of_compilation {α : Type} {compiler : List String → Except CompileError α}
    {text : String} {value : α} (h : compilation tools source files compiler = .ok (text, value)) :
    ∃ lines, compiler lines = .ok value := by
  unfold compilation fileCompilation at h
  dsimp only at h
  split at h
  · cases h
  · split at h
    · cases h
    · next text' _ =>
      refine ⟨Text.lines text', ?_⟩
      cases hcompile : compiler (Text.lines text') with
      | error error => rw [hcompile] at h; cases h
      | ok value' => rw [hcompile] at h; cases h; rfl

theorem compilation_map {α β : Type} (compiler : List String → Except CompileError α) (f : α → β) :
    compilation tools source files (fun lines => (compiler lines).map f) =
      (compilation tools source files compiler).map (Prod.map id f) := by
  unfold compilation fileCompilation
  dsimp only
  split
  · rfl
  · cases (preprocessing tools source files).files.readText _ with
    | error error => rfl
    | ok text =>
      dsimp only
      cases compiler (Text.lines text) <;> rfl

theorem compilation_codegen :
    compilation tools source files (compile · .codegen) =
      (compilation tools source files generateSource).map (Prod.map id .machine) := by
  rw [← compilation_map]
  rfl

theorem compilation_generateSource_error {failure : Failure}
    (h : compilation tools source files (compile · .codegen) = .error failure) :
    compilation tools source files generateSource = .error failure := by
  rw [compilation_codegen] at h
  generalize compilation tools source files generateSource = result at h ⊢
  cases result with
  | error failure' => exact congrArg Except.error (Except.error.inj h)
  | ok made => cases h

/-- Compiling through the last stage makes a program that has a text. -/
theorem exists_program_of_compilation {result : String × Artifact}
    (h : compilation tools source files (compile · .codegen) = .ok result) :
    ∃ text program assembly, result = (text, .machine program) ∧
      compilation tools source files generateSource = .ok (text, program) ∧
      program.assembly = .ok assembly := by
  rw [compilation_codegen] at h
  cases hprogram : compilation tools source files generateSource with
  | error failure => rw [hprogram] at h; cases h
  | ok made =>
    obtain ⟨text, program⟩ := made
    rw [hprogram] at h
    obtain ⟨lines, hlines⟩ := exists_lines_of_compilation hprogram
    obtain ⟨assembly, hassembly⟩ := exists_assembly_of_generateSource hlines
    exact ⟨text, program, assembly, (Except.ok.inj h).symm, rfl, hassembly⟩

end

namespace Action

/-- A step ends as it would without the removal behind it, if the file is there to be removed when
the step has succeeded. -/
theorem run_cleaningUp_of_read {α : Type} {step : Action α} {result : Except Failure α}
    {s s' : Progress} {p : Path} (hstep : step.run.run s = (result, s'))
    (hfile : result.isOk → ∃ content, s'.files.read p = .ok content) :
    (cleaningUp p step).run.run s = (result, { s' with files := discard s'.files p }) := by
  rw [run_cleaningUp, hstep]
  dsimp only [discard]
  cases hremove : s'.files.remove p with
  | ok files => rfl
  | error error =>
    cases result with
    | ok value =>
      obtain ⟨content, hread⟩ := hfile rfl
      obtain ⟨files, hfiles⟩ := (FileTree.read_eq_ok_iff.mp hread).exists_remove
      rw [hfiles] at hremove
      cases hremove
    | error failure => cases error <;> rfl

/-- A file that was compiled is there to be removed. -/
theorem run_cleaningUp_compileFile {α : Type} (path : Path)
    (compiler : List String → Except CompileError α) (s : Progress) :
    (cleaningUp path (compileFile path compiler)).run.run s =
      (fileCompilation s.files path compiler, { s with files := discard s.files path }) := by
  have hrun : (compileFile path compiler).run.run s =
      (fileCompilation s.files path compiler, s) := by
    rw [run_compileFile]
    unfold fileCompilation
    cases s.files.readText path <;> rfl
  refine run_cleaningUp_of_read hrun fun hok => ?_
  cases htext : s.files.readText path with
  | error error => rw [fileCompilation, htext] at hok; cases hok
  | ok text => exact ⟨_, FileTree.readText_eq_ok_iff.mp htext⟩

theorem run_compileSource {tools : Toolchain} (verbose : Bool) (source : Path)
    (hcareful : (tools.behaviour .preprocessor).Careful) {α : Type} (stage : Stage)
    (compiler : List String → Except CompileError α) (s : Progress) :
    ∃ stderr, (compileSource (some tools) verbose source stage compiler).run.run s =
      (compilation tools source s.files compiler,
        { s with stderr := stderr, files := cleared tools source s.files }) := by
  have hfiles := preprocessing_cases hcareful source s.files
  have hcall : ∀ stderr, (call (some tools) .preprocessor source
      (Outputs.ofSource source).preprocessed).run.run { s with stderr := stderr } =
        (if (preprocessing tools source s.files).status ≠ 0 then
          .error (.toolFailed .preprocessor (preprocessing tools source s.files).status
            (preprocessing tools source s.files).stderr) else .ok (),
        { s with stderr := stderr, files := (preprocessing tools source s.files).files }) :=
    fun stderr => run_call tools .preprocessor source _ _
  unfold compileSource
  dsimp only
  obtain ⟨stderr, hlog⟩ := run_log verbose ("preprocessing " ++ source.text ++ " -> " ++
    (Outputs.ofSource source).preprocessed.text) s
  rw [run_bind_of_ok hlog]
  by_cases hstatus : (preprocessing tools source s.files).status ≠ 0
  · have hsame := hfiles.resolve_right fun h => hstatus h.1
    rw [run_bind_of_error ((hcall stderr).trans (by rw [if_pos hstatus]))]
    refine ⟨stderr, ?_⟩
    rw [hsame]
    simp only [compilation, cleared, if_pos hstatus]
  · -- What was written where the preprocessed file goes is gone again.
    have hgone : discard (preprocessing tools source s.files).files
        (Outputs.ofSource source).preprocessed =
          discard s.files (Outputs.ofSource source).preprocessed := by
      rcases hfiles with hsame | ⟨-, content, -, hwrite⟩
      · rw [hsame]
      · exact discard_of_write hwrite
    rw [run_bind_of_ok ((hcall stderr).trans (by rw [if_neg hstatus]))]
    obtain ⟨stderr, hlog⟩ := run_log verbose ("compiling through " ++ stage.title)
      { s with stderr := stderr, files := (preprocessing tools source s.files).files }
    rw [run_bind_of_ok hlog]
    refine ⟨stderr, ?_⟩
    rw [run_cleaningUp_compileFile, hgone]
    simp only [compilation, cleared, if_neg hstatus]

section

variable {tools : Toolchain} {source : Path} {stop : Option StopPoint} {s : Progress}

/-- A source that does not compile ends the run. -/
theorem run_steps_error (verbose : Bool) (hcareful : (tools.behaviour .preprocessor).Careful)
    {failure : Failure}
    (h : compilation tools source s.files (compile · (throughStage stop)) = .error failure) :
    ∃ stderr, (steps (some tools) verbose source stop).run.run s =
      (.error failure, { s with stderr := stderr, files := cleared tools source s.files }) := by
  have hmake : compilation tools source s.files (compile · .codegen) = .error failure →
      ∃ stderr, (makeAssembly (some tools) verbose source).run.run s =
        (.error failure, { s with stderr := stderr, files := cleared tools source s.files }) := by
    intro h
    obtain ⟨stderr, hsource⟩ := run_compileSource verbose source hcareful .codegen generateSource s
    rw [compilation_generateSource_error h] at hsource
    exact ⟨stderr, run_bind_of_error hsource⟩
  cases stop with
  | none =>
    obtain ⟨stderr, hrun⟩ := hmake h
    exact ⟨stderr, run_bind_of_error hrun⟩
  | some point =>
    cases point with
    | after stage =>
      obtain ⟨stderr, hsource⟩ :=
        run_compileSource verbose source hcareful stage (compile · stage) s
      change compilation tools source s.files (compile · stage) = .error failure at h
      rw [h] at hsource
      exact ⟨stderr, run_bind_of_error hsource⟩
    | assembly => exact hmake h
    | object =>
      obtain ⟨stderr, hrun⟩ := hmake h
      exact ⟨stderr, run_bind_of_error hrun⟩

theorem run_steps_after (verbose : Bool) (hcareful : (tools.behaviour .preprocessor).Careful)
    {stage : Stage} {text : String} {artifact : Artifact}
    (h : compilation tools source s.files (compile · stage) = .ok (text, artifact)) :
    ∃ stderr, (steps (some tools) verbose source (some (.after stage))).run.run s =
      (.ok (),
        { stderr := stderr
          files := discard s.files (Outputs.ofSource source).preprocessed
          stdout := s.stdout ++
            if stage = .lex then Listing.ofSource text ++ "\n" ++ artifact.text
            else artifact.text }) := by
  obtain ⟨stderr, hsource⟩ := run_compileSource verbose source hcareful stage (compile · stage) s
  rw [h, cleared_of_ok h] at hsource
  refine ⟨stderr, ?_⟩
  rw [steps, run_bind_of_ok hsource]
  dsimp only
  rw [run_printStage]

theorem run_makeAssembly (verbose : Bool) (hcareful : (tools.behaviour .preprocessor).Careful)
    {text : String} {program : Machine.Program} {assembly : String} {files : FileTree}
    (h : compilation tools source s.files generateSource = .ok (text, program))
    (hassembly : program.assembly = .ok assembly)
    (hwrite : (discard s.files (Outputs.ofSource source).preprocessed).write
      (Outputs.ofSource source).assembly assembly.toUTF8 = .ok files) :
    ∃ stderr, (makeAssembly (some tools) verbose source).run.run s =
      (.ok (), { s with stderr := stderr, files := files }) := by
  obtain ⟨stderr, hsource⟩ := run_compileSource verbose source hcareful .codegen generateSource s
  rw [h, cleared_of_ok h] at hsource
  unfold makeAssembly
  rw [run_bind_of_ok hsource]
  dsimp only
  obtain ⟨stderr, hlog⟩ := run_log verbose ("writing " ++ (Outputs.ofSource source).assembly.text)
    { s with
      stderr := stderr, files := discard s.files (Outputs.ofSource source).preprocessed }
  rw [run_bind_of_ok hlog]
  refine ⟨stderr, ?_⟩
  simp only [run_writeAssembly, hassembly, hwrite]

/-- The last tool ends as it would without the removal of its input. -/
theorem run_finish {tool : Tool} (hcareful : (tools.behaviour tool).Careful) {out : Path}
    {content : ByteArray} (hread : s.files.read (Outputs.ofSource source).assembly = .ok content) :
    (finish (some tools) tool source out).run.run s =
      let done := (tools.behaviour tool).run tool (Outputs.ofSource source).assembly out s.files
      (if done.status ≠ 0 then .error (.toolFailed tool done.status done.stderr) else .ok (),
        { s with files := discard done.files (Outputs.ofSource source).assembly }) := by
  unfold finish
  generalize (Outputs.ofSource source).assembly = input at hread ⊢
  refine run_cleaningUp_of_read (run_call tools tool input out s) fun _ => ?_
  rcases hcareful.run_cases tool input out s.files with hsame | ⟨-, _, -, hwrite⟩
  · exact ⟨content, by simpa only [hsame] using hread⟩
  · obtain ⟨content', hafter⟩ := (FileTree.read_eq_ok_iff.mp hread).exists_file_of_write hwrite
    exact ⟨content', FileTree.read_eq_ok_iff.mpr hafter⟩

theorem steps_of_lastTool? (tools : Option Toolchain) (verbose : Bool) {tool : Tool} {out : Path}
    (hlast : (Outputs.ofSource source).lastTool? stop = some (tool, out)) :
    ∃ message, steps tools verbose source stop =
      (makeAssembly tools verbose source >>= fun _ => log verbose message >>= fun _ =>
        finish tools tool source out) := by
  cases stop with
  | none => cases hlast; exact ⟨_, rfl⟩
  | some point =>
    cases point with
    | after stage => cases hlast
    | assembly => cases hlast
    | object => cases hlast; exact ⟨_, rfl⟩

theorem run_steps_lastTool {verbose : Bool} {tool : Tool} {out : Path}
    (hlast : (Outputs.ofSource source).lastTool? stop = some (tool, out))
    (hcareful : (tools.behaviour tool).Careful) {stderr : String} {files : FileTree}
    {content : ByteArray} (hmake : (makeAssembly (some tools) verbose source).run.run s =
      (.ok (), { s with stderr := stderr, files := files }))
    (hread : files.read (Outputs.ofSource source).assembly = .ok content) :
    ∃ stderr, (steps (some tools) verbose source stop).run.run s =
      let done := (tools.behaviour tool).run tool (Outputs.ofSource source).assembly out files
      (if done.status ≠ 0 then .error (.toolFailed tool done.status done.stderr) else .ok (),
        { s with
          stderr := stderr, files := discard done.files (Outputs.ofSource source).assembly }) := by
  obtain ⟨message, hsteps⟩ := steps_of_lastTool? (some tools) verbose hlast
  obtain ⟨stderr, hlog⟩ := run_log verbose message { s with stderr := stderr, files := files }
  refine ⟨stderr, ?_⟩
  rw [hsteps, run_bind_of_ok hmake, run_bind_of_ok hlog]
  exact run_finish (s := { s with stderr := stderr, files := files }) hcareful hread

end

end Action

theorem Failure.report_compile (error : CompileError) :
    (compile error).report =
      "Error: " ++ error.message ++ "\n\nCaused by:\n    " ++ error.cause ++ "\n" := by
  change "Error: " ++ error.message ++ ("\n\nCaused by:\n    " ++ error.cause) ++ "\n" = _
  exact congrArg (· ++ "\n") String.append_assoc.symm

section

variable {tools : Option Toolchain} {options : Options} {files : FileTree} {progress : Progress}

theorem exists_shown_steps {result : Except Failure Unit} (hstem : options.path.hasStem)
    (hsteps : (Action.steps tools options.verbose options.path options.stop).run.run
      { files := files } = (result, progress)) :
    ∃ said, said <+: Action.plan options.path options.stop ∧
      progress.stderr = shown options.verbose said := by
  obtain ⟨said, hbegins, hstderr⟩ :=
    Action.exists_shown_build tools options.verbose options.path options.stop files
  rw [Action.build, if_pos hstem, hsteps] at hstderr
  exact ⟨said, hbegins, hstderr⟩

theorem runOptions_of_ok (hstem : options.path.hasStem)
    (hsteps : (Action.steps tools options.verbose options.path options.stop).run.run
      { files := files } = (.ok (), progress)) :
    ∃ said, said <+: Action.plan options.path options.stop ∧ runOptions tools options files =
      ⟨0, progress.stdout, shown options.verbose said, progress.files⟩ := by
  obtain ⟨said, hbegins, hstderr⟩ := exists_shown_steps hstem hsteps
  refine ⟨said, hbegins, ?_⟩
  simp only [runOptions, Action.build, if_pos hstem, hsteps, hstderr]

theorem runOptions_of_error (hstem : options.path.hasStem) {failure : Failure}
    (hsteps : (Action.steps tools options.verbose options.path options.stop).run.run
      { files := files } = (.error failure, progress)) :
    ∃ said, said <+: Action.plan options.path options.stop ∧ runOptions tools options files =
      ⟨1, progress.stdout, shown options.verbose said ++ failure.report, progress.files⟩ := by
  obtain ⟨said, hbegins, hstderr⟩ := exists_shown_steps hstem hsteps
  refine ⟨said, hbegins, ?_⟩
  simp only [runOptions, Action.build, if_pos hstem, hsteps, hstderr]

end

end UnaryC.Command
