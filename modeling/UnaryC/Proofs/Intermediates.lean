import UnaryC.Proofs.Course

/-!
# Intermediate files

A run that finds nothing where its files go leaves no intermediate file, however it ends, and the
failure that it reports is that of the step that failed. The steps that can fail are those before
the outputs are complete. A removal cannot, because the file is there when its step has succeeded.
-/
namespace UnaryC.Command

open Files

/-- There is nothing where a run puts its intermediate files and its object file. -/
structure Outputs.Absent (outputs : Outputs) (files : FileTree) : Prop where
  preprocessed : files.Vacant outputs.preprocessed
  assembly : files.Vacant outputs.assembly
  object : files.Vacant outputs.object

/-- What is printed for a tool that has failed. -/
def toolReport (name : String) (done : ToolResult) : String :=
  "Error: The " ++ name ++ " failed (exit status: " ++ Text.Decimal.ofNat done.status.toNat ++
    "):\n" ++ Text.trimEnd (Text.Utf8.text done.stderr) ++ "\n"

/-- The failures of the steps of a run, each on the files that the steps before it have left, and
with what is printed for it. -/
inductive StepFails (source : Path) (stop : Option StopPoint) (files : FileTree) :
    Option Toolchain → String → Prop
  | missing :
      StepFails source stop files none
        ("Error: Failed to execute preprocessor\n\n" ++
          "Caused by:\n    No such file or directory (os error 2)\n")
  | preprocessor {tools : Toolchain} (h : (preprocessing tools source files).status ≠ 0) :
      StepFails source stop files (some tools)
        (toolReport "preprocessor" (preprocessing tools source files))
  | reading {tools : Toolchain} {error : FileError}
      (hdone : (preprocessing tools source files).status = 0)
      (h : (preprocessing tools source files).files.readText
        (Outputs.ofSource source).preprocessed = .error error) :
      StepFails source stop files (some tools)
        ("Error: Unable to read preprocessed file " ++
          (Outputs.ofSource source).preprocessed.text ++ "\n\nCaused by:\n    " ++
          error.message ++ "\n")
  | compiling {tools : Toolchain} {text : String} {error : CompileError}
      (hdone : (preprocessing tools source files).status = 0)
      (hread : (preprocessing tools source files).files.readText
        (Outputs.ofSource source).preprocessed = .ok text)
      (h : compile (Text.lines text) (throughStage stop) = .error error) :
      StepFails source stop files (some tools)
        ("Error: " ++ error.message ++ "\n\nCaused by:\n    " ++ error.cause ++ "\n")
  | lastTool {tools : Toolchain} {tool : Tool} {out : Path} {text assembly : String}
      {program : Machine.Program} {written : FileTree}
      (hlast : (Outputs.ofSource source).lastTool? stop = some (tool, out))
      (hprogram : compilation tools source files generateSource = .ok (text, program))
      (hassembly : program.assembly = .ok assembly)
      (hwrite : files.write (Outputs.ofSource source).assembly assembly.toUTF8 = .ok written)
      (h : ((tools.behaviour tool).run tool (Outputs.ofSource source).assembly out
        written).status ≠ 0) :
      StepFails source stop files (some tools)
        (toolReport (if stop = some .object then "assembler" else "assembler and linker")
          ((tools.behaviour tool).run tool (Outputs.ofSource source).assembly out written))

namespace Failure

theorem report_toolFailed (tool : Tool) (done : ToolResult) :
    (toolFailed tool done.status done.stderr).report = toolReport tool.name done := by
  change "Error: " ++ ("The " ++ tool.name ++ " failed (exit status: " ++
    Text.Decimal.ofNat done.status.toNat ++ "):\n" ++
      Text.trimEnd (Text.Utf8.text done.stderr)) ++ "" ++ "\n" =
    "Error: The " ++ tool.name ++ _ ++ _ ++ _ ++ _ ++ _
  have hbegin : "Error: The " = "Error: " ++ "The " := by decide
  rw [hbegin, String.append_empty]
  simp only [String.append_assoc]

theorem report_unreadable (path : Path) (error : FileError) :
    (unreadable path error).report = "Error: Unable to read preprocessed file " ++ path.text ++
      "\n\nCaused by:\n    " ++ error.message ++ "\n" := by
  change "Error: " ++ ("Unable to read preprocessed file " ++ path.text) ++
    ("\n\nCaused by:\n    " ++ error.message) ++ "\n" = _
  have hbegin : "Error: Unable to read preprocessed file " =
      "Error: " ++ "Unable to read preprocessed file " := by decide
  rw [hbegin]
  simp only [String.append_assoc]

end Failure

section

variable {tools : Toolchain} {source : Path} {stop : Option StopPoint} {files : FileTree}

theorem cleared_eq_self (h : files.Vacant (Outputs.ofSource source).preprocessed) :
    cleared tools source files = files := by
  unfold cleared
  split
  · rfl
  · exact discard_eq_self h

/-- Whatever keeps the source from being compiled is the failure of a step. -/
theorem stepFails_of_compilation {failure : Failure}
    (h : compilation tools source files (compile · (throughStage stop)) = .error failure) :
    ∃ text, StepFails source stop files (some tools) text := by
  unfold compilation fileCompilation at h
  dsimp only at h
  split at h
  · next hstatus => exact ⟨_, .preprocessor hstatus⟩
  · next hstatus =>
    rw [ne_eq, not_not] at hstatus
    split at h
    · next error hread => exact ⟨_, .reading hstatus hread⟩
    · next text hread =>
      cases hcompile : compile (Text.lines text) (throughStage stop) with
      | error error => exact ⟨_, .compiling hstatus hread hcompile⟩
      | ok artifact =>
        rw [hcompile] at h
        cases h

/-- A preprocessed file that was not there before is made of the source. -/
theorem exists_source_of_compilation {α : Type} {compiler : List String → Except CompileError α}
    {result : String × α} (hcareful : (tools.behaviour .preprocessor).Careful)
    (hvacant : files.Vacant (Outputs.ofSource source).preprocessed)
    (h : compilation tools source files compiler = .ok result) :
    ∃ content, files.Holds source (some (.file content)) := by
  rcases preprocessing_cases hcareful source files with hsame | ⟨-, content, hread, -⟩
  · unfold compilation fileCompilation at h
    dsimp only at h
    split at h
    · cases h
    · rw [hsame] at h
      split at h
      · cases h
      · next text htext =>
        have hfile := FileTree.read_eq_ok_iff.mp (FileTree.readText_eq_ok_iff.mp htext)
        exact absurd hfile (hvacant.not_holds _)
  · exact ⟨content, FileTree.read_eq_ok_iff.mp hread⟩

theorem throughStage_of_lastTool? {outputs : Outputs} {last : Tool × Path}
    (h : outputs.lastTool? stop = some last) : throughStage stop = .codegen := by
  cases stop with
  | none => rfl
  | some point =>
    cases point with
    | after stage => cases h
    | assembly => rfl
    | object => rfl

theorem name_of_lastTool? {outputs : Outputs} {tool : Tool} {out : Path}
    (h : outputs.lastTool? stop = some (tool, out)) :
    tool.name = if stop = some .object then "assembler" else "assembler and linker" := by
  cases stop with
  | none => cases h; rfl
  | some point =>
    cases point with
    | after stage => cases h
    | assembly => cases h
    | object => cases h; rfl

theorem exists_extension_of_lastTool? {tool : Tool} {out : Path}
    (h : (Outputs.ofSource source).lastTool? stop = some (tool, out)) :
    ∃ extension, out = source.withExtension extension ∧ '/' ∉ extension.toList ∧
      Path.ending "i" ≠ Path.ending extension ∧ Path.ending "s" ≠ Path.ending extension := by
  cases stop with
  | none =>
    obtain ⟨-, rfl⟩ := Prod.mk.inj (Option.some.inj h)
    exact ⟨"", Outputs.executable_ofSource source, by decide, by decide, by decide⟩
  | some point =>
    cases point with
    | after stage => cases h
    | assembly => cases h
    | object =>
      obtain ⟨-, rfl⟩ := Prod.mk.inj (Option.some.inj h)
      exact ⟨"o", Outputs.object_ofSource source, by decide, by decide, by decide⟩

end

section

variable {source : Path} {stop : Option StopPoint} {files : FileTree}

/-- The places of the other outputs are not that of the preprocessed file. -/
theorem Outputs.Absent.assembly_elsewhere (h : (Outputs.ofSource source).Absent files)
    (hstem : source.hasStem) (hgrounded : files.Grounded)
    (hsource : ∃ content, files.Holds source (some (.file content))) :
    files.locate (Outputs.ofSource source).assembly ≠
      files.locate (Outputs.ofSource source).preprocessed := by
  obtain ⟨content, hfile⟩ := hsource
  have hi := h.preprocessed
  rw [Outputs.assembly_ofSource]
  rw [Outputs.preprocessed_ofSource] at hi ⊢
  exact hi.locate_withExtension_ne hfile hstem hgrounded (by decide) (by decide) (by decide)
    (by decide)

theorem Outputs.Absent.lastTool?_elsewhere (h : (Outputs.ofSource source).Absent files)
    (hstem : source.hasStem) (hgrounded : files.Grounded)
    (hsource : ∃ content, files.Holds source (some (.file content))) {tool : Tool} {out : Path}
    (hlast : (Outputs.ofSource source).lastTool? stop = some (tool, out)) :
    files.locate out ≠ files.locate (Outputs.ofSource source).preprocessed ∧
      files.locate out ≠ files.locate (Outputs.ofSource source).assembly := by
  obtain ⟨content, hfile⟩ := hsource
  obtain ⟨extension, rfl, hslash, hendi, hends⟩ := exists_extension_of_lastTool? hlast
  have hi := h.preprocessed
  have hs := h.assembly
  rw [Outputs.preprocessed_ofSource] at hi ⊢
  rw [Outputs.assembly_ofSource] at hs ⊢
  exact ⟨hi.locate_withExtension_ne hfile hstem hgrounded (by decide) (by decide) hslash hendi,
    hs.locate_withExtension_ne hfile hstem hgrounded (by decide) (by decide) hslash hends⟩

theorem Outputs.Absent.exists_write_assembly (h : (Outputs.ofSource source).Absent files)
    (hstem : source.hasStem) (hsource : ∃ content, files.Holds source (some (.file content)))
    (content : ByteArray) :
    ∃ written, files.write (Outputs.ofSource source).assembly content = .ok written := by
  obtain ⟨_, hfile⟩ := hsource
  obtain ⟨loc, hloc⟩ := hfile.exists_locate_withExtension (by simp) hstem
    (show '/' ∉ "s".toList by decide)
  rw [← Outputs.assembly_ofSource] at hloc
  exact ⟨_, (h.assembly.reaches hloc).write content⟩

/-- The files of a run that has succeeded: as before, or with one output that lies at no
intermediate file's place but its own. -/
inductive Leaves (source : Path) (stop : Option StopPoint) (files : FileTree) : FileTree → Prop
  | nothing (hstop : stop ≠ some .assembly) : Leaves source stop files files
  | assembly {content : ByteArray} {left : FileTree} (hstop : stop = some .assembly)
      (hwrite : files.write (Outputs.ofSource source).assembly content = .ok left)
      (hne : files.locate (Outputs.ofSource source).assembly ≠
        files.locate (Outputs.ofSource source).preprocessed) : Leaves source stop files left
  | output {out : Path} {content : ByteArray} {left : FileTree} (hstop : stop ≠ some .assembly)
      (hwrite : files.write out content = .ok left)
      (hne : files.locate out ≠ files.locate (Outputs.ofSource source).preprocessed ∧
        files.locate out ≠ files.locate (Outputs.ofSource source).assembly) :
      Leaves source stop files left

end

namespace Action

/-- Without tools the first step fails. -/
theorem run_steps_none (verbose : Bool) (source : Path) (stop : Option StopPoint) (s : Progress) :
    ∃ stderr, (steps none verbose source stop).run.run s =
      (.error (.toolMissing .preprocessor), { s with stderr := stderr }) := by
  obtain ⟨stderr, hsource⟩ : ∃ stderr, ∀ (α : Type) (stage : Stage)
      (compiler : List String → Except CompileError α),
      (compileSource none verbose source stage compiler).run.run s =
        (.error (.toolMissing .preprocessor), { s with stderr := stderr }) := by
    obtain ⟨stderr, hlog⟩ := run_log verbose ("preprocessing " ++ source.text ++ " -> " ++
      (Outputs.ofSource source).preprocessed.text) s
    refine ⟨stderr, fun α stage compiler => ?_⟩
    unfold compileSource
    dsimp only
    rw [run_bind_of_ok hlog]
    exact run_bind_of_error rfl
  have hmake : (makeAssembly none verbose source).run.run s =
      (.error (.toolMissing .preprocessor), { s with stderr := stderr }) :=
    run_bind_of_error (hsource _ .codegen generateSource)
  refine ⟨stderr, ?_⟩
  cases stop with
  | none => exact run_bind_of_error hmake
  | some point =>
    cases point with
    | after stage => exact run_bind_of_error (hsource _ stage _)
    | assembly => exact hmake
    | object => exact run_bind_of_error hmake

section

variable {tools : Toolchain} {source : Path} {stop : Option StopPoint} {files : FileTree}

/-- What the last tool comes to where nothing else was at the places of the intermediate files. -/
theorem run_steps_built (verbose : Bool) (hcareful : ∀ tool, (tools.behaviour tool).Careful)
    (habsent : (Outputs.ofSource source).Absent files) {tool : Tool} {out : Path}
    {text assembly : String} {program : Machine.Program} {written : FileTree}
    (hlast : (Outputs.ofSource source).lastTool? stop = some (tool, out))
    (hprogram : compilation tools source files generateSource = .ok (text, program))
    (hassembly : program.assembly = .ok assembly)
    (hwrite : files.write (Outputs.ofSource source).assembly assembly.toUTF8 = .ok written)
    (hne : files.locate out ≠ files.locate (Outputs.ofSource source).assembly) :
    let done := (tools.behaviour tool).run tool (Outputs.ofSource source).assembly out written
    ∃ stderr left, (steps (some tools) verbose source stop).run.run { files := files } =
        (if done.status ≠ 0 then .error (.toolFailed tool done.status done.stderr) else .ok (),
          { stderr := stderr, files := left }) ∧
      (left = files ∨ done.status = 0 ∧ ∃ content, files.write out content = .ok left) := by
  have hmade := hwrite
  rw [← discard_eq_self habsent.preprocessed] at hmade
  obtain ⟨stderr, hmake⟩ :=
    run_makeAssembly (s := { files := files }) verbose (hcareful _) hprogram hassembly hmade
  obtain ⟨stderr, hsteps⟩ := run_steps_lastTool (s := { files := files }) hlast (hcareful tool)
    hmake (FileTree.read_eq_ok_iff.mpr (.of_write hwrite))
  refine ⟨stderr, _, hsteps, ?_⟩
  have hleft := (hcareful tool).discard_run tool hwrite hne
  rw [discard_eq_self habsent.assembly] at hleft
  exact hleft.imp_right fun ⟨hstatus, hout⟩ => ⟨hstatus, _, hout⟩

variable {tools? : Option Toolchain}

theorem run_steps_of_stepFails (verbose : Bool)
    (hcareful : ∀ tools ∈ tools?, ∀ tool, (tools.behaviour tool).Careful)
    (hstem : source.hasStem) (hgrounded : files.Grounded)
    (habsent : (Outputs.ofSource source).Absent files) {text : String}
    (h : StepFails source stop files tools? text) :
    ∃ failure stderr, failure.report = text ∧
      (steps tools? verbose source stop).run.run { files := files } =
        (.error failure, { stderr := stderr, files := files }) := by
  have hearly : ∀ {tools failure}, some tools = tools? → failure.report = text →
      compilation tools source files (compile · (throughStage stop)) = .error failure →
      ∃ failure stderr, failure.report = text ∧
        (steps (some tools) verbose source stop).run.run { files := files } =
          (.error failure, { stderr := stderr, files := files }) := by
    rintro tools failure rfl hreport h
    obtain ⟨stderr, hsteps⟩ :=
      run_steps_error (s := { files := files }) verbose (hcareful tools rfl _) h
    rw [cleared_eq_self habsent.preprocessed] at hsteps
    exact ⟨failure, stderr, hreport, hsteps⟩
  cases h with
  | missing =>
    obtain ⟨stderr, hsteps⟩ := run_steps_none verbose source stop { files := files }
    exact ⟨_, stderr, by decide +kernel, hsteps⟩
  | preprocessor h =>
    refine hearly rfl (Failure.report_toolFailed .preprocessor _) ?_
    simp only [compilation, if_pos h]
  | reading hdone h =>
    refine hearly rfl (Failure.report_unreadable _ _) ?_
    simp only [compilation, hdone, fileCompilation, h]
    rfl
  | compiling hdone hread h =>
    refine hearly rfl (Failure.report_compile _) ?_
    simp only [compilation, hdone, fileCompilation, hread, h]
    rfl
  | lastTool hlast hprogram hassembly hwrite h =>
    have hne := habsent.lastTool?_elsewhere hstem hgrounded
      (exists_source_of_compilation (hcareful _ rfl _) habsent.preprocessed hprogram) hlast
    obtain ⟨stderr, left, hsteps, hleft⟩ := run_steps_built verbose (hcareful _ rfl) habsent hlast
      hprogram hassembly hwrite hne.2
    rw [if_pos h] at hsteps
    obtain rfl := hleft.resolve_right fun hdone => h hdone.1
    refine ⟨_, stderr, ?_, hsteps⟩
    rw [← name_of_lastTool? hlast]
    exact Failure.report_toolFailed _ _

theorem run_steps_of_not_stepFails (verbose : Bool)
    (hcareful : ∀ tools ∈ tools?, ∀ tool, (tools.behaviour tool).Careful)
    (hstem : source.hasStem) (hgrounded : files.Grounded)
    (habsent : (Outputs.ofSource source).Absent files)
    (h : ∀ text, ¬ StepFails source stop files tools? text) :
    ∃ stderr stdout left, (steps tools? verbose source stop).run.run { files := files } =
        (.ok (), { stderr := stderr, stdout := stdout, files := left }) ∧
      Leaves source stop files left := by
  cases tools? with
  | none => exact absurd .missing (h _)
  | some tools =>
    have hcareful := hcareful tools rfl
    cases hcompilation : compilation tools source files (compile · (throughStage stop)) with
    | error failure =>
      obtain ⟨text, hfails⟩ := stepFails_of_compilation hcompilation
      exact absurd hfails (h text)
    | ok result =>
      have hsource :=
        exists_source_of_compilation (hcareful .preprocessor) habsent.preprocessed hcompilation
      have hbuilt : ∀ tool out, (Outputs.ofSource source).lastTool? stop = some (tool, out) →
          stop ≠ some .assembly →
          ∃ stderr stdout left,
            (steps (some tools) verbose source stop).run.run { files := files } =
              (.ok (), { stderr := stderr, stdout := stdout, files := left }) ∧
            Leaves source stop files left := by
        intro tool out hlast hstop
        rw [throughStage_of_lastTool? hlast] at hcompilation
        obtain ⟨text, program, assembly, -, hprogram, hassembly⟩ :=
          exists_program_of_compilation hcompilation
        obtain ⟨written, hwrite⟩ := habsent.exists_write_assembly hstem hsource assembly.toUTF8
        have hne := habsent.lastTool?_elsewhere hstem hgrounded hsource hlast
        obtain ⟨stderr, left, hsteps, hleft⟩ := run_steps_built verbose hcareful habsent hlast
          hprogram hassembly hwrite hne.2
        have hdone := fun hstatus => h _ (.lastTool hlast hprogram hassembly hwrite hstatus)
        rw [if_neg hdone] at hsteps
        refine ⟨stderr, _, left, hsteps, ?_⟩
        rcases hleft with rfl | ⟨-, content, hout⟩
        · exact .nothing hstop
        · exact .output hstop hout hne
      cases stop with
      | none => exact hbuilt .linker _ rfl (by simp)
      | some point =>
        cases point with
        | after stage =>
          obtain ⟨stderr, hsteps⟩ :=
            run_steps_after (s := { files := files }) verbose (hcareful _) hcompilation
          rw [discard_eq_self habsent.preprocessed] at hsteps
          exact ⟨stderr, _, files, hsteps, .nothing (by simp)⟩
        | assembly =>
          obtain ⟨text, program, assembly, -, hprogram, hassembly⟩ :=
            exists_program_of_compilation hcompilation
          obtain ⟨written, hwrite⟩ := habsent.exists_write_assembly hstem hsource assembly.toUTF8
          have hmade := hwrite
          rw [← discard_eq_self habsent.preprocessed] at hmade
          obtain ⟨stderr, hmake⟩ := run_makeAssembly (s := { files := files }) verbose
            (hcareful _) hprogram hassembly hmade
          exact ⟨stderr, _, written, hmake, .assembly rfl hwrite
            (habsent.assembly_elsewhere hstem hgrounded hsource)⟩
        | object => exact hbuilt .assembler _ rfl (by simp)

end

end Action

/-- Texts that begin differently differ. -/
theorem append_ne_append {a b : String} (n : Nat) (ha : n ≤ a.toList.length)
    (hb : n ≤ b.toList.length) (hne : a.toList.take n ≠ b.toList.take n) (x y : String) :
    a ++ x ≠ b ++ y := by
  intro h
  have htake := congrArg (List.take n) (congrArg String.toList h)
  rw [String.toList_append, String.toList_append, List.take_append_of_le_length ha,
    List.take_append_of_le_length hb] at htake
  exact hne htake

/-- A failed step is not reported as a failed removal. -/
theorem StepFails.ne_removal {source : Path} {stop : Option StopPoint} {files : FileTree}
    {tools : Option Toolchain} {text : String} (h : StepFails source stop files tools text)
    (rest : String) : text ≠ "Error: Failed to delete " ++ rest := by
  have htool : ∀ name done, toolReport name done ≠ "Error: Failed to delete " ++ rest := by
    intro name done
    change "Error: The " ++ name ++ _ ++ _ ++ _ ++ _ ++ _ ≠ _
    simp only [String.append_assoc]
    exact append_ne_append 8 (by decide) (by decide) (by decide) _ _
  cases h with
  | missing => exact append_ne_append 18 (by decide) (by decide) (by decide) _ _
  | preprocessor h => exact htool _ _
  | reading hdone h =>
    simp only [String.append_assoc]
    exact append_ne_append 8 (by decide) (by decide) (by decide) _ _
  | @compiling _ _ failed hdone hread h =>
    obtain ⟨stage, rest', hstage, hfirst⟩ : ∃ stage rest' : String,
        failed.message = stage ++ rest' ∧ 1 ≤ stage.toList.length ∧
          stage.toList.take 1 ≠ "Failed to delete ".toList.take 1 := by
      cases failed with
      | lex error => exact ⟨"Lexer error: ", _, rfl, by decide⟩
      | parse error => exact ⟨"Parser error: ", _, rfl, by decide⟩
      | codegen fault => exact ⟨"Codegen error: ", _, rfl, by decide⟩
    have hbegin : "Error: Failed to delete " = "Error: " ++ "Failed to delete " := by decide
    simp only [hstage, hbegin, String.append_assoc]
    exact fun hsame => append_ne_append 1 hfirst.1 (by decide) hfirst.2 _ _
      ((String.append_right_inj _).mp hsame)
  | lastTool hlast hprogram hassembly hwrite h => exact htool _ _

namespace Leaves

variable {source : Path} {stop : Option StopPoint} {files left : FileTree}

theorem vacant_preprocessed (h : Leaves source stop files left)
    (habsent : (Outputs.ofSource source).Absent files) :
    left.Vacant (Outputs.ofSource source).preprocessed := by
  cases h with
  | nothing hstop => exact habsent.preprocessed
  | assembly hstop hwrite hne => exact habsent.preprocessed.write hne hwrite
  | output hstop hwrite hne => exact habsent.preprocessed.write hne.1 hwrite

theorem read_assembly_iff (h : Leaves source stop files left)
    (habsent : (Outputs.ofSource source).Absent files) :
    (∃ content, left.read (Outputs.ofSource source).assembly = .ok content) ↔
      stop = some .assembly := by
  have hnone : ∀ {t : FileTree}, t.Vacant (Outputs.ofSource source).assembly →
      stop ≠ some .assembly →
      ((∃ content, t.read (Outputs.ofSource source).assembly = .ok content) ↔
        stop = some .assembly) := by
    intro t hvacant hstop
    refine iff_of_false (fun ⟨content, hread⟩ => ?_) hstop
    exact hvacant.not_holds _ (FileTree.read_eq_ok_iff.mp hread)
  cases h with
  | nothing hstop => exact hnone habsent.assembly hstop
  | @assembly content _ hstop hwrite hne =>
    exact iff_of_true ⟨content, FileTree.read_eq_ok_iff.mpr (.of_write hwrite)⟩ hstop
  | output hstop hwrite hne => exact hnone (habsent.assembly.write hne.2 hwrite) hstop

end Leaves

/-- What a run leaves of its intermediate files, and what it reports. -/
structure Tidy (tools : Option Toolchain) (options : Options) (files : FileTree)
    (outcome : Outcome) : Prop where
  preprocessed : outcome.files.Vacant (Outputs.ofSource options.path).preprocessed
  assembly :
    (∃ content, outcome.files.read (Outputs.ofSource options.path).assembly = .ok content) ↔
      options.stop = some .assembly ∧ outcome.exit = 0
  object : outcome.exit ≠ 0 → outcome.files.Vacant (Outputs.ofSource options.path).object
  /-- The failure of a step is what is printed behind the messages, and it is not one of a
  removal. -/
  failed : ∀ text, StepFails options.path options.stop files tools text →
    outcome.exit = 1 ∧
      (∃ said, said <+: Action.plan options.path options.stop ∧
        outcome.stderr = shown options.verbose said ++ text) ∧
      ∀ rest, text ≠ "Error: Failed to delete " ++ rest
  succeeded : (∀ text, ¬ StepFails options.path options.stop files tools text) → outcome.exit = 0

/-- With tools that touch nothing but their output, and nothing where the intermediate files and
the object file go, a run leaves no intermediate file that it was not asked for and no object file
if it fails. It fails just when one of its steps does, and prints the failure of that step. -/
theorem runOptions_tidy (tools : Option Toolchain) (options : Options) (files : FileTree)
    (hstem : options.path.hasStem) (hgrounded : files.Grounded)
    (hcareful : ∀ available ∈ tools, ∀ tool, (available.behaviour tool).Careful)
    (habsent : (Outputs.ofSource options.path).Absent files) :
    Tidy tools options files (runOptions tools options files) := by
  have hfails : ∀ text, StepFails options.path options.stop files tools text →
      ∃ said, said <+: Action.plan options.path options.stop ∧ runOptions tools options files =
        ⟨1, "", shown options.verbose said ++ text, files⟩ := by
    intro text h
    obtain ⟨failure, stderr, rfl, hsteps⟩ :=
      Action.run_steps_of_stepFails options.verbose hcareful hstem hgrounded habsent h
    exact runOptions_of_error hstem hsteps
  by_cases hfailure : ∃ text, StepFails options.path options.stop files tools text
  · obtain ⟨text, hfailure⟩ := hfailure
    obtain ⟨said, -, hrun⟩ := hfails text hfailure
    constructor
    case preprocessed => rw [hrun]; exact habsent.preprocessed
    case assembly =>
      rw [hrun]
      refine iff_of_false (fun ⟨content, hread⟩ => ?_) nofun
      exact habsent.assembly.not_holds _ (FileTree.read_eq_ok_iff.mp hread)
    case object => rw [hrun]; exact fun _ => habsent.object
    case failed =>
      intro text h
      obtain ⟨said, hbegins, hrun⟩ := hfails text h
      rw [hrun]
      exact ⟨rfl, ⟨said, hbegins, rfl⟩, h.ne_removal⟩
    case succeeded => exact fun hnone => absurd hfailure (hnone text)
  · rw [not_exists] at hfailure
    obtain ⟨stderr, stdout, left, hsteps, hleaves⟩ :=
      Action.run_steps_of_not_stepFails options.verbose hcareful hstem hgrounded habsent hfailure
    obtain ⟨said, -, hrun⟩ := runOptions_of_ok hstem hsteps
    rw [hrun]
    constructor
    case preprocessed => exact hleaves.vacant_preprocessed habsent
    case assembly => exact (hleaves.read_assembly_iff habsent).trans (and_iff_left rfl).symm
    case object => exact fun hexit => absurd rfl hexit
    case failed => exact fun text h => absurd h (hfailure text)
    case succeeded => exact fun _ => rfl

/-- A folder with a source file and nothing else. -/
def lone : FileTree :=
  { entries := [(["w"], .folder), (["w", "a.c"], .file "int main(void) { return ~2; }\n".toUTF8)]
    here := ["w"] }

/-- Tools that preprocess and do not link. -/
def unlinking : Toolchain := { linker := .fail 7 "undefined symbol\n".toUTF8 }

/-- The linker's failure is printed, behind a message for each step. -/
theorem runOptions_tidy_unlinking :
    lone.Grounded ∧ (Outputs.ofSource ⟨"a.c"⟩).Absent lone ∧
      Tidy (some unlinking) { path := ⟨"a.c"⟩, stop := none, verbose := true } lone
        (runOptions (some unlinking) { path := ⟨"a.c"⟩, stop := none, verbose := true } lone) ∧
      (runOptions (some unlinking) { path := ⟨"a.c"⟩, stop := none, verbose := true }
        lone).stderr =
        "[cygnet] preprocessing a.c -> a.i\n[cygnet] compiling through CodeGen\n" ++
        "[cygnet] writing a.s\n[cygnet] linking a\n" ++
        "Error: The assembler and linker failed (exit status: 7):\nundefined symbol\n" := by
  have hgrounded : lone.Grounded := FileTree.grounded_of_entries (by decide +kernel)
  have habsent : (Outputs.ofSource ⟨"a.c"⟩).Absent lone :=
    ⟨by decide +kernel, by decide +kernel, by decide +kernel⟩
  have hcareful : ∀ available ∈ some unlinking, ∀ tool, (available.behaviour tool).Careful := by
    intro available h tool
    obtain rfl := Option.some.inj h
    cases tool <;> exact ⟨by decide, by decide⟩
  exact ⟨hgrounded, habsent, runOptions_tidy (some unlinking)
    { path := ⟨"a.c"⟩, stop := none, verbose := true } lone (by decide +kernel) hgrounded hcareful
    habsent, by decide +kernel⟩

end UnaryC.Command
