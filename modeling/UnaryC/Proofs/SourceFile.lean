import Mathlib.Data.List.Basic
import UnaryC.Proofs.Action
import UnaryC.Proofs.FileTree

/-!
# What a run does to its source file

A run writes and removes files that belong to its source file, and these have the path of the source
with another extension. It leaves the source alone unless the source is one of them. A source whose
extension is that of preprocessed files is always one of them, and is removed as such.
-/
namespace UnaryC.Command

open Files

/-- The files that a run writes or removes once the source is compiled. -/
def Outputs.later (outputs : Outputs) : Option StopPoint → List Path
  | some (.after _) => []
  | some .assembly => [outputs.assembly]
  | some .object => [outputs.assembly, outputs.object]
  | none => [outputs.assembly, outputs.executable]

/-- The files that a run writes or removes. -/
def Outputs.touched (outputs : Outputs) (stop : Option StopPoint) : List Path :=
  outputs.preprocessed :: outputs.later stop

theorem exists_extension_of_mem_later {p q : Path} {stop : Option StopPoint}
    (h : q ∈ (Outputs.ofSource p).later stop) :
    ∃ extension, '/' ∉ extension.toList ∧ Path.ending "i" ≠ Path.ending extension ∧
      q = p.withExtension extension := by
  have hmem : q = p.withExtension "s" ∨ q = p.withExtension "o" ∨ q = p.withExtension "" := by
    cases stop with
    | none => simp only [Outputs.later, Outputs.ofSource] at h; grind
    | some point => cases point <;> simp only [Outputs.later, Outputs.ofSource] at h <;> grind
  rcases hmem with hq | hq | hq
  · exact ⟨"s", by decide, by decide, hq⟩
  · exact ⟨"o", by decide, by decide, hq⟩
  · exact ⟨"", by decide, by decide, hq⟩

namespace Action

/-- Any change at the path keeps what holds of the files. -/
structure Indifferent (P : FileTree → Prop) (p : Path) : Prop where
  write : KeepsWrite P p
  remove : KeepsRemove P p

/-- Preprocessing and compiling touch the preprocessed file only. -/
theorem Keeps.compileSource {P : FileTree → Prop} {source : Path}
    (h : Indifferent P (Outputs.ofSource source).preprocessed) {α : Type} (verbose : Bool)
    (stage : Stage) (compiler : List String → Except CompileError α) :
    Keeps P (compileSource (some {}) verbose source stage compiler) :=
  (log verbose _).bind fun _ => (call .preprocessor source h.write).bind fun _ =>
    (log verbose _).bind fun _ => (compileFile _ compiler).cleaningUp h.remove

/-- What holds once the source is compiled holds at the end. -/
theorem files_steps {Q : FileTree → Prop} {verbose : Bool} {source : Path}
    {stop : Option StopPoint} {s : Progress}
    (hcompile : ∀ (α : Type) (stage : Stage) (compiler : List String → Except CompileError α),
      Q ((compileSource (some {}) verbose source stage compiler).run.run s).2.files)
    (hlater : ∀ p ∈ (Outputs.ofSource source).later stop, Indifferent Q p) :
    Q ((steps (some {}) verbose source stop).run.run s).2.files := by
  have hmake : (Outputs.ofSource source).assembly ∈ (Outputs.ofSource source).later stop →
      Q ((makeAssembly (some {}) verbose source).run.run s).2.files := fun hmem =>
    files_bind (hcompile _ .codegen generateSource) fun (_, program) =>
      (Keeps.log verbose _).bind fun _ => .writeAssembly (hlater _ hmem).write program
  -- The last tool turns the assembly file into another one.
  have hfinish : ∀ (message : String) (tool : Tool) (out : Path),
      (Outputs.ofSource source).later stop = [(Outputs.ofSource source).assembly, out] →
      Q ((makeAssembly (some {}) verbose source >>= fun _ => log verbose message >>= fun _ =>
        finish (some {}) tool source out).run.run s).2.files := by
    intro message tool out hfiles
    have hassembly := hlater (Outputs.ofSource source).assembly (by simp [hfiles])
    have hout := hlater out (by simp [hfiles])
    exact files_bind (hmake (by simp [hfiles])) fun _ => (Keeps.log verbose _).bind fun _ =>
      .finish tool hout.write hassembly.remove
  cases stop with
  | none => exact hfinish _ .linker _ rfl
  | some point =>
    cases point with
    | after stage =>
      exact files_bind (hcompile _ stage _) fun (text, artifact) => .printStage stage text artifact
    | assembly => exact hmake List.mem_cons_self
    | object => exact hfinish _ .assembler _ rfl

/-- The files that belong to a source are the source itself or lie elsewhere. -/
theorem indifferent_withExtension {p : Path} (hstem : p.hasStem) {node? : Option Node}
    (hnode : node? ≠ some .folder) {extension : String} (hslash : '/' ∉ extension.toList)
    (hne : p.withExtension extension ≠ p) :
    Indifferent (FileTree.Holds p node?) (p.withExtension extension) where
  write _ _ _ h hwrite := h.write (h.locate_withExtension_ne hnode hstem hslash hne) hwrite
  remove _ _ h hremove := h.remove (h.locate_withExtension_ne hnode hstem hslash hne) hremove

/-- A source that is preprocessed onto itself is removed as an intermediate file. -/
theorem holds_none_compileSource {α : Type} {p : Path} (hself : p.withExtension "i" = p)
    {s : Progress} {content : ByteArray} (hs : s.files.Holds p (some (.file content)))
    (verbose : Bool) (stage : Stage) (compiler : List String → Except CompileError α) :
    ((compileSource (some {}) verbose p stage compiler).run.run s).2.files.Holds p none := by
  have hpre := (Outputs.preprocessed_ofSource p).trans hself
  obtain ⟨t, ht⟩ := hs.exists_write (by simp) (Tool.preprocessor.header.toUTF8 ++ content)
  obtain ⟨t', ht'⟩ := (FileTree.Holds.of_write ht).exists_remove
  have hcall : ∀ stderr, (call (some {}) .preprocessor p p).run.run { s with stderr := stderr } =
      (.ok (), { s with stderr := stderr, files := t }) :=
    fun _ => run_call_ok (FileTree.read_eq_ok_iff.mpr hs) ht
  unfold compileSource
  rw [hpre]
  dsimp only
  obtain ⟨stderr, hlog⟩ :=
    run_log verbose ("preprocessing " ++ p.text ++ " -> " ++ p.text) s
  rw [run_bind_of_ok hlog, run_bind_of_ok (hcall stderr)]
  obtain ⟨stderr, hlog⟩ := run_log verbose ("compiling through " ++ stage.title)
    { s with stderr := stderr, files := t }
  rw [run_bind_of_ok hlog]
  simp only [run_cleaningUp, run_compileFile, ht']
  exact .of_remove ht'

end Action

theorem files_runOptions (tools : Option Toolchain) (options : Options) (files : FileTree) :
    (runOptions tools options files).files =
      ((Action.build tools options.verbose options.path options.stop).run.run
        { files := files }).2.files := by
  simp only [runOptions]
  cases (Action.build tools options.verbose options.path options.stop).run.run
    { files := files } with
  | mk result progress => cases result <;> rfl

/-- With tools that behave well, a run leaves its source as it is unless the source is among the
files that the run writes or removes. A source that is among them by the extension of preprocessed
files is gone after every run. -/
theorem runOptions_source (options : Options) (files : FileTree) (content : ByteArray)
    (hread : files.read options.path = .ok content) :
    (options.path ∉ (Outputs.ofSource options.path).touched options.stop →
      (runOptions (some {}) options files).files.read options.path = .ok content) ∧
    (options.path.hasStem → options.path.withExtension "i" = options.path →
      (runOptions (some {}) options files).files.read options.path = .error .notFound) := by
  have hholds := FileTree.read_eq_ok_iff.mp hread
  rw [files_runOptions, Action.build]
  constructor
  · intro htouched
    rw [Outputs.touched, List.mem_cons, not_or, Outputs.preprocessed_ofSource] at htouched
    obtain ⟨hpre, hlater⟩ := htouched
    refine FileTree.read_eq_ok_iff.mpr ?_
    split
    next hstem =>
      refine Action.files_steps (Q := FileTree.Holds options.path (some (.file content)))
        (fun α stage compiler => ?_) fun q hq => ?_
      · refine Action.Keeps.compileSource ?_ options.verbose stage compiler _ hholds
        rw [Outputs.preprocessed_ofSource]
        exact Action.indifferent_withExtension hstem (by simp) (by decide) (Ne.symm hpre)
      · obtain ⟨extension, hslash, -, rfl⟩ := exists_extension_of_mem_later hq
        refine Action.indifferent_withExtension hstem (by simp) hslash fun hself => hlater ?_
        rwa [hself] at hq
    next => exact hholds
  · intro hstem hself
    rw [if_pos hstem]
    refine FileTree.Holds.read_eq_notFound ?_
    refine Action.files_steps (Q := FileTree.Holds options.path none)
      (fun α stage compiler =>
        Action.holds_none_compileSource hself hholds options.verbose stage compiler) ?_
    intro q hq
    obtain ⟨extension, hslash, hne, rfl⟩ := exists_extension_of_mem_later hq
    exact Action.indifferent_withExtension hstem (by simp) hslash fun h =>
      hne (Path.ending_eq_of_withExtension hstem hself h)

/-- A folder with a source file and, under the name of its preprocessed form, another one. -/
def twins : FileTree :=
  { entries := [(["w"], .folder), (["w", "a.c"], .file "int main(void) { return 2; }\n".toUTF8),
      (["w", "a.i"], .file "int f(void) { return 3; }\n".toUTF8)]
    here := ["w"] }

theorem runOptions_source_twins :
    (twins.read ⟨"a.c"⟩ = .ok "int main(void) { return 2; }\n".toUTF8 ∧
      ⟨"a.c"⟩ ∉ (Outputs.ofSource ⟨"a.c"⟩).touched none ∧
      (runOptions (some {}) { path := ⟨"a.c"⟩, stop := none, verbose := false } twins).files.read
        ⟨"a.c"⟩ = .ok "int main(void) { return 2; }\n".toUTF8) ∧
    twins.read ⟨"a.i"⟩ = .ok "int f(void) { return 3; }\n".toUTF8 ∧
      (runOptions (some {}) { path := ⟨"a.i"⟩, stop := some (.after .lex), verbose := false }
        twins).files.read ⟨"a.i"⟩ = .error .notFound := by
  have hc : twins.read ⟨"a.c"⟩ = .ok "int main(void) { return 2; }\n".toUTF8 := by decide +kernel
  have hi : twins.read ⟨"a.i"⟩ = .ok "int f(void) { return 3; }\n".toUTF8 := by decide +kernel
  have htouched : ⟨"a.c"⟩ ∉ (Outputs.ofSource ⟨"a.c"⟩).touched none := by decide +kernel
  refine ⟨⟨hc, htouched, ?_⟩, hi, ?_⟩
  · exact (runOptions_source { path := ⟨"a.c"⟩, stop := none, verbose := false } twins _ hc).1
      htouched
  · exact (runOptions_source { path := ⟨"a.i"⟩, stop := some (.after .lex), verbose := false }
      twins _ hi).2 (by decide +kernel) (by decide +kernel)

/-- A run may destroy its source, even one that is to print something and write nothing. -/
theorem source_not_always_kept :
    ¬ ∀ (options : Options) (files : FileTree) (content : ByteArray),
      files.read options.path = .ok content →
        (runOptions (some {}) options files).files.read options.path = .ok content := by
  intro h
  have hread : twins.read ⟨"a.i"⟩ = .ok "int f(void) { return 3; }\n".toUTF8 := by decide +kernel
  have hkept := h { path := ⟨"a.i"⟩, stop := some (.after .lex), verbose := false } twins _ hread
  have hgone : (runOptions (some {})
      { path := ⟨"a.i"⟩, stop := some (.after .lex), verbose := false } twins).files.read ⟨"a.i"⟩ =
      .error .notFound := by decide +kernel
  rw [hgone] at hkept
  cases hkept

end UnaryC.Command
