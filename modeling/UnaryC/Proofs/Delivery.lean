import UnaryC.Proofs.Course
import UnaryC.Proofs.SourceFile

/-!
# What a run delivers

With tools that behave well a run is the compiler applied to the text of the source file: it ends
as the compiler does, and prints or writes what the compiler makes. The directory after the run is
the one before it without the intermediate files and with the output.
-/
namespace UnaryC.Command

open Files

def Outputs.all (outputs : Outputs) : List Path :=
  [outputs.preprocessed, outputs.assembly, outputs.object, outputs.executable]

/-- Where the files that belong to a source lie. -/
structure Sites where
  preprocessed : Location
  assembly : Location
  object : Location
  executable : Location

/-- The paths of the outputs lead there, and there are no folders there. -/
structure Outputs.LieAt (outputs : Outputs) (sites : Sites) (files : FileTree) : Prop where
  preprocessed : files.Reaches outputs.preprocessed sites.preprocessed
  assembly : files.Reaches outputs.assembly sites.assembly
  object : files.Reaches outputs.object sites.object
  executable : files.Reaches outputs.executable sites.executable

/-- How a run ends that was asked for a stage or a file and had an artifact made of its source. -/
def Delivers (files : FileTree) (sites : Sites) (text : String) (artifact : Artifact)
    (outcome : Outcome) : Option StopPoint → Prop
  | some (.after .lex) =>
    outcome = ⟨0, Listing.ofSource text ++ "\n" ++ artifact.text, "",
      files.erase sites.preprocessed⟩
  | some (.after _) => outcome = ⟨0, artifact.text, "", files.erase sites.preprocessed⟩
  | some .assembly =>
    ∃ program assembly, artifact = .machine program ∧ program.assembly = .ok assembly ∧
      outcome = ⟨0, "", "", (files.erase sites.preprocessed).insert sites.assembly
        (.file assembly.toUTF8)⟩
  | some .object =>
    ∃ program assembly, artifact = .machine program ∧ program.assembly = .ok assembly ∧
      outcome = ⟨0, "", "", ((files.erase sites.preprocessed).erase sites.assembly).insert
        sites.object (.file ("OBJ\n" ++ assembly).toUTF8)⟩
  | none =>
    ∃ program assembly, artifact = .machine program ∧ program.assembly = .ok assembly ∧
      outcome = ⟨0, "", "", ((files.erase sites.preprocessed).erase sites.assembly).insert
        sites.executable (.file ("EXE\n" ++ assembly).toUTF8)⟩

/-- The run ends as the compiler does on the text of its source. -/
def Mirrors (files : FileTree) (sites : Sites) (text : String) (stop : Option StopPoint)
    (outcome : Outcome) : Prop :=
  match compile (Text.lines text) (throughStage stop) with
  | .error error =>
    outcome = ⟨1, "", "Error: " ++ error.message ++ "\n\nCaused by:\n    " ++ error.cause ++ "\n",
      files.erase sites.preprocessed⟩
  | .ok artifact => Delivers files sites text artifact outcome stop

theorem careful_faithful (tool : Tool) : (({} : Toolchain).behaviour tool).Careful := by
  cases tool <;> exact ⟨by decide, by decide⟩

section

variable {source : Path} {files : FileTree} {text : String} {loc : Location}

theorem preprocessing_faithful (hread : files.read source = .ok text.toUTF8)
    (hpre : files.Reaches (Outputs.ofSource source).preprocessed loc) :
    preprocessing {} source files = ⟨0, .empty, files.insert loc (.file text.toUTF8)⟩ := by
  refine Action.run_faithful hread ?_
  rw [show Tool.preprocessor.header.toUTF8 ++ text.toUTF8 = text.toUTF8 from
    ByteArray.empty_append]
  exact hpre.write _

/-- The preprocessor copies, so it is the text of the source that is compiled. -/
theorem compilation_faithful {α : Type} (hread : files.read source = .ok text.toUTF8)
    (hpre : files.Reaches (Outputs.ofSource source).preprocessed loc)
    (compiler : List String → Except CompileError α) :
    compilation {} source files compiler =
      ((compiler (Text.lines text)).mapError .compile).map fun value => (text, value) := by
  have htext : (files.insert loc (.file text.toUTF8)).readText
      (Outputs.ofSource source).preprocessed = .ok text :=
    FileTree.readText_eq_ok_iff.mpr (FileTree.read_eq_ok_iff.mpr (.of_write (hpre.write _)))
  simp only [compilation, preprocessing_faithful hread hpre, fileCompilation, htext]
  rfl

theorem compilation_faithful_ok {α : Type} (compiler : List String → Except CompileError α)
    {value : α} (hread : files.read source = .ok text.toUTF8)
    (hpre : files.Reaches (Outputs.ofSource source).preprocessed loc)
    (h : compiler (Text.lines text) = .ok value) :
    compilation {} source files compiler = .ok (text, value) := by
  rw [compilation_faithful hread hpre, h]
  rfl

theorem cleared_faithful (hread : files.read source = .ok text.toUTF8)
    (hpre : files.Reaches (Outputs.ofSource source).preprocessed loc) :
    cleared {} source files = files.erase loc := by
  rw [cleared, preprocessing_faithful hread hpre, discard_eq_erase hpre]
  exact if_neg fun h => h rfl

end

section

variable {source : Path} {files : FileTree} {sites : Sites}

theorem hasStem_of_nodup (h : (source :: (Outputs.ofSource source).all).Nodup) :
    source.hasStem := by
  by_contra hstem
  have hself := Path.withExtension_of_not_hasStem hstem "i"
  refine (List.nodup_cons.mp h).1 (List.mem_cons.mpr (.inl ?_))
  rw [Outputs.preprocessed_ofSource, hself]

theorem exists_lieAt {content : ByteArray} (hread : files.read source = .ok content)
    (hstem : source.hasStem)
    (hfolder : ∀ p ∈ (Outputs.ofSource source).all, ¬ files.Holds p (some .folder)) :
    ∃ sites, (Outputs.ofSource source).LieAt sites files := by
  have hholds := FileTree.read_eq_ok_iff.mp hread
  have hreaches : ∀ p ∈ (Outputs.ofSource source).all, ∀ extension, '/' ∉ extension.toList →
      p = source.withExtension extension → ∃ loc, files.Reaches p loc := by
    rintro p hmem extension hslash rfl
    obtain ⟨loc, hloc⟩ := hholds.exists_locate_withExtension (by simp) hstem hslash
    exact ⟨loc, hloc, fun hget => hfolder _ hmem ⟨loc, hloc, hget⟩⟩
  obtain ⟨preprocessed, hpreprocessed⟩ :=
    hreaches _ (by simp [Outputs.all]) "i" (by decide) (Outputs.preprocessed_ofSource source)
  obtain ⟨assembly, hassembly⟩ :=
    hreaches _ (by simp [Outputs.all]) "s" (by decide) (Outputs.assembly_ofSource source)
  obtain ⟨object, hobject⟩ :=
    hreaches _ (by simp [Outputs.all]) "o" (by decide) (Outputs.object_ofSource source)
  obtain ⟨executable, hexecutable⟩ :=
    hreaches _ (by simp [Outputs.all]) "" (by decide) (Outputs.executable_ofSource source)
  exact ⟨⟨preprocessed, assembly, object, executable⟩, hpreprocessed, hassembly, hobject,
    hexecutable⟩

variable {text : String} {artifact : Artifact}

theorem run_makeAssembly_faithful (verbose : Bool) (hread : files.read source = .ok text.toUTF8)
    (hsites : (Outputs.ofSource source).LieAt sites files)
    (hcompile : compile (Text.lines text) .codegen = .ok artifact) :
    ∃ program assembly stderr, artifact = .machine program ∧ program.assembly = .ok assembly ∧
      (Action.makeAssembly (some {}) verbose source).run.run { files := files } =
        (.ok (),
          { stderr := stderr
            files := (files.erase sites.preprocessed).insert sites.assembly
              (.file assembly.toUTF8) }) := by
  have hcompilation :=
    compilation_faithful_ok (compile · .codegen) hread hsites.preprocessed hcompile
  obtain ⟨_, program, assembly, hresult, hprogram, hassembly⟩ :=
    exists_program_of_compilation hcompilation
  have hwrite := (hsites.assembly.erase hsites.preprocessed).write assembly.toUTF8
  rw [← discard_eq_erase hsites.preprocessed] at hwrite
  obtain ⟨stderr, hrun⟩ := Action.run_makeAssembly (s := { files := files }) verbose
    (careful_faithful _) hprogram hassembly hwrite
  rw [discard_eq_erase hsites.preprocessed] at hrun
  exact ⟨program, assembly, stderr, congrArg Prod.snd hresult, hassembly, hrun⟩

/-- The last tool writes its output, and the assembly file goes. -/
theorem run_steps_lastTool_faithful (verbose : Bool) (hread : files.read source = .ok text.toUTF8)
    (hsites : (Outputs.ofSource source).LieAt sites files)
    (hcompile : compile (Text.lines text) .codegen = .ok artifact) (stop : Option StopPoint)
    {tool : Tool} {out : Path} {loc : Location}
    (hlast : (Outputs.ofSource source).lastTool? stop = some (tool, out))
    (hout : files.Reaches out loc) (hne : loc ≠ sites.assembly) :
    ∃ program assembly stderr, artifact = .machine program ∧ program.assembly = .ok assembly ∧
      (Action.steps (some {}) verbose source stop).run.run { files := files } =
        (.ok (),
          { stderr := stderr
            files := ((files.erase sites.preprocessed).erase sites.assembly).insert loc
              (.file (tool.header ++ assembly).toUTF8) }) := by
  obtain ⟨program, assembly, stderr, hmachine, hassembly, hmake⟩ :=
    run_makeAssembly_faithful verbose hread hsites hcompile
  have hinput := hsites.assembly.erase hsites.preprocessed
  have houtput := hout.erase hsites.preprocessed
  have hwritten := hinput.write assembly.toUTF8
  have hresult := (houtput.insert hinput assembly.toUTF8).write
    (tool.header.toUTF8 ++ assembly.toUTF8)
  have hreadable := FileTree.read_eq_ok_iff.mpr (FileTree.Holds.of_write hwritten)
  obtain ⟨stderr, hsteps⟩ := Action.run_steps_lastTool (s := { files := files }) hlast
    (careful_faithful tool) hmake hreadable
  have hfiles := write_discard hwritten hresult (by rw [houtput.locate, hinput.locate]; simpa)
  rw [discard_eq_erase hinput, (houtput.erase hinput).write, Except.ok.injEq] at hfiles
  refine ⟨program, assembly, stderr, hmachine, hassembly, ?_⟩
  rw [hsteps, Action.run_faithful hreadable hresult]
  dsimp only
  rw [← hfiles, if_neg (by decide)]
  rfl

/-- The steps of a run deliver what is made of the source. -/
theorem run_steps_delivers (verbose : Bool) (hread : files.read source = .ok text.toUTF8)
    (hdistinct : (source :: (Outputs.ofSource source).all).Nodup)
    (hsites : (Outputs.ofSource source).LieAt sites files) {stop : Option StopPoint}
    (hcompile : compile (Text.lines text) (throughStage stop) = .ok artifact) :
    ∃ progress, (Action.steps (some {}) verbose source stop).run.run { files := files } =
        (.ok (), progress) ∧
      Delivers files sites text artifact ⟨0, progress.stdout, "", progress.files⟩ stop := by
  -- The last tool's output lies elsewhere than its input.
  have helsewhere : ∀ {out loc}, (Outputs.ofSource source).assembly ≠ out →
      files.Reaches out loc → ∀ extension, '/' ∉ extension.toList →
      out = source.withExtension extension → loc ≠ sites.assembly := by
    rintro _ _ hpath hloc extension hslash rfl rfl
    have hassembly := hsites.assembly.locate
    rw [Outputs.assembly_ofSource] at hpath hassembly
    exact (FileTree.read_eq_ok_iff.mp hread).locate_withExtension_inj (by simp)
      (hasStem_of_nodup hdistinct) (by decide) (by decide) hslash hpath
      (hassembly.trans hloc.locate.symm)
  simp only [Outputs.all, List.nodup_cons, List.mem_cons, not_or] at hdistinct
  obtain ⟨-, -, ⟨hobject, hexecutable, -⟩, -⟩ := hdistinct
  cases stop with
  | some point =>
    cases point with
    | after stage =>
      have hcompilation :=
        compilation_faithful_ok (compile · stage) hread hsites.preprocessed hcompile
      obtain ⟨stderr, hsteps⟩ := Action.run_steps_after (s := { files := files }) verbose
        (careful_faithful _) hcompilation
      rw [discard_eq_erase hsites.preprocessed] at hsteps
      refine ⟨_, hsteps, ?_⟩
      cases stage <;> simp [Delivers]
    | assembly =>
      obtain ⟨program, assembly, stderr, hmachine, hassembly, hmake⟩ :=
        run_makeAssembly_faithful verbose hread hsites hcompile
      rw [Action.steps]
      refine ⟨_, hmake, ?_⟩
      exact ⟨program, assembly, hmachine, hassembly, rfl⟩
    | object =>
      have hne := helsewhere hobject hsites.object "o" (by decide) (Outputs.object_ofSource source)
      obtain ⟨program, assembly, stderr, hmachine, hassembly, hsteps⟩ :=
        run_steps_lastTool_faithful verbose hread hsites hcompile (some .object) rfl
          hsites.object hne
      refine ⟨_, hsteps, ?_⟩
      exact ⟨program, assembly, hmachine, hassembly, rfl⟩
  | none =>
    have hne := helsewhere hexecutable hsites.executable "" (by decide)
      (Outputs.executable_ofSource source)
    obtain ⟨program, assembly, stderr, hmachine, hassembly, hsteps⟩ :=
      run_steps_lastTool_faithful verbose hread hsites hcompile none rfl hsites.executable hne
    refine ⟨_, hsteps, ?_⟩
    exact ⟨program, assembly, hmachine, hassembly, rfl⟩

end

/-- With tools that behave well, a run that says nothing on the way ends as the compiler does on the
text of the source file. It reports the compiler's error, or delivers what the compiler makes. -/
theorem runOptions_mirrors (options : Options) (files : FileTree) (text : String)
    (hquiet : options.verbose = false) (hread : files.read options.path = .ok text.toUTF8)
    (hdistinct : (options.path :: (Outputs.ofSource options.path).all).Nodup)
    (hfolder : ∀ p ∈ (Outputs.ofSource options.path).all, ¬ files.Holds p (some .folder)) :
    ∃ sites, (Outputs.ofSource options.path).LieAt sites files ∧
      Mirrors files sites text options.stop (runOptions (some {}) options files) := by
  have hstem := hasStem_of_nodup hdistinct
  have hshown : ∀ said, shown options.verbose said = "" := fun said => by rw [hquiet]; rfl
  obtain ⟨sites, hsites⟩ := exists_lieAt hread hstem hfolder
  refine ⟨sites, hsites, ?_⟩
  unfold Mirrors
  cases hcompile : compile (Text.lines text) (throughStage options.stop) with
  | error error =>
    have hcompilation : compilation {} options.path files
        (compile · (throughStage options.stop)) = .error (.compile error) := by
      rw [compilation_faithful hread hsites.preprocessed, hcompile]
      rfl
    obtain ⟨stderr, hsteps⟩ := Action.run_steps_error (s := { files := files }) options.verbose
      (careful_faithful _) hcompilation
    obtain ⟨said, -, hrun⟩ := runOptions_of_error hstem hsteps
    rw [hrun, cleared_faithful hread hsites.preprocessed, hshown, Failure.report_compile,
      String.empty_append]
  | ok artifact =>
    obtain ⟨progress, hsteps, hdelivers⟩ :=
      run_steps_delivers options.verbose hread hdistinct hsites hcompile
    obtain ⟨said, -, hrun⟩ := runOptions_of_ok hstem hsteps
    rw [hrun, hshown]
    exact hdelivers

/-- The file that lies where the preprocessed one goes is lost. -/
theorem runOptions_mirrors_twins :
    twins.read ⟨"a.c"⟩ = .ok "int main(void) { return 2; }\n".toUTF8 ∧
      ∃ sites, (Outputs.ofSource ⟨"a.c"⟩).LieAt sites twins ∧
        Mirrors twins sites "int main(void) { return 2; }\n" (some .object)
          (runOptions (some {}) { path := ⟨"a.c"⟩, stop := some .object, verbose := false }
            twins) := by
  have hread : twins.read ⟨"a.c"⟩ = .ok "int main(void) { return 2; }\n".toUTF8 := by
    decide +kernel
  have hends := runOptions_mirrors { path := ⟨"a.c"⟩, stop := some .object, verbose := false }
    twins _ rfl hread (by decide +kernel) (by decide +kernel)
  exact ⟨hread, hends⟩

end UnaryC.Command
