import UnaryC.Command.Run

/-!
# Runs of actions

What the result and the progress of each action are, and what actions keep. An action keeps what
holds of the files if it holds after each write and each removal that the action may make, also when
the action fails on the way.
-/
namespace UnaryC.Command

open Files

namespace Outputs

-- Unfolding the extension of a path is slow, so these are rewritten and not left to unification.
theorem preprocessed_ofSource (p : Path) : (ofSource p).preprocessed = p.withExtension "i" := by
  rw [ofSource]

theorem assembly_ofSource (p : Path) : (ofSource p).assembly = p.withExtension "s" := by
  rw [ofSource]

theorem object_ofSource (p : Path) : (ofSource p).object = p.withExtension "o" := by
  rw [ofSource]

theorem executable_ofSource (p : Path) : (ofSource p).executable = p.withExtension "" := by
  rw [ofSource]

end Outputs

namespace Action

theorem run_bind {α β : Type} (a : Action α) (f : α → Action β) (s : Progress) :
    (a >>= f).run.run s =
      match a.run.run s with
      | (.ok x, s) => (f x).run.run s
      | (.error e, s) => (.error e, s) := by
  simp only [bind, ExceptT.bind, ExceptT.mk, ExceptT.bindCont, ExceptT.run, StateT.bind, StateT.run]
  cases a s with
  | mk result next => cases result <;> rfl

theorem run_bind_of_ok {α β : Type} {a : Action α} {f : α → Action β} {x : α} {s s' : Progress}
    (h : a.run.run s = (.ok x, s')) : (a >>= f).run.run s = (f x).run.run s' := by
  rw [run_bind, h]

theorem run_bind_of_error {α β : Type} {a : Action α} {f : α → Action β} {e : Failure}
    {s s' : Progress} (h : a.run.run s = (.error e, s')) :
    (a >>= f).run.run s = (.error e, s') := by
  rw [run_bind, h]

theorem run_get_bind {β : Type} (f : Progress → Action β) (s : Progress) :
    ((get : Action Progress) >>= f).run.run s = (f s).run.run s :=
  rfl

theorem run_call (tools : Toolchain) (tool : Tool) (src out : Path) (s : Progress) :
    (call (some tools) tool src out).run.run s =
      let done := (tools.behaviour tool).run tool src out s.files
      (if done.status ≠ 0 then .error (.toolFailed tool done.status done.stderr) else .ok (),
        { s with files := done.files }) := by
  change (if _ then _ else _ : Action Unit).run.run _ = _
  split
  · next h => simp only [if_pos h]; rfl
  · next h => simp only [if_neg h]; rfl

/-- Whatever is said goes to the error output. -/
theorem run_log (verbose : Bool) (message : String) (s : Progress) :
    ∃ stderr, (log verbose message).run.run s = (.ok (), { s with stderr := stderr }) := by
  cases verbose with
  | false => exact ⟨s.stderr, rfl⟩
  | true => exact ⟨_, rfl⟩

/-- A tool that behaves well, on a source that it can read and an output that it can write. -/
theorem run_faithful {tool : Tool} {src out : Path} {content : ByteArray} {files files' : FileTree}
    (hread : files.read src = .ok content)
    (hwrite : files.write out (tool.header.toUTF8 ++ content) = .ok files') :
    (({} : Toolchain).behaviour tool).run tool src out files = ⟨0, .empty, files'⟩ := by
  have hfaithful : ({} : Toolchain).behaviour tool = .faithful := by cases tool <;> rfl
  simp only [hfaithful, Behaviour.run, Tool.work, hread, hwrite]

theorem run_call_ok {tool : Tool} {src out : Path} {s : Progress} {content : ByteArray}
    {files : FileTree} (hread : s.files.read src = .ok content)
    (hwrite : s.files.write out (tool.header.toUTF8 ++ content) = .ok files) :
    (call (some {}) tool src out).run.run s = (.ok (), { s with files := files }) := by
  simp [run_call, run_faithful hread hwrite]

theorem run_cleaningUp {α : Type} (intermediate : Path) (step : Action α) (s : Progress) :
    (cleaningUp intermediate step).run.run s =
      let (result, s) := step.run.run s
      match s.files.remove intermediate with
      | .ok files => (result, { s with files := files })
      | .error .notFound => (result, s)
      | .error error => (result.bind fun _ => .error (.undeletable intermediate error), s) := by
  simp only [cleaningUp, ExceptT.run, ExceptT.mk, StateT.run, bind, StateT.bind]
  cases step s with
  | mk result next =>
    simp only [get, getThe, MonadStateOf.get, StateT.get, pure]
    cases next.files.remove intermediate with
    | ok files => rfl
    | error error => cases error <;> rfl

theorem run_compileFile {α : Type} (path : Path) (compiler : List String → Except CompileError α)
    (s : Progress) :
    (compileFile path compiler).run.run s =
      ((match s.files.readText path with
        | .error error => .error (.unreadable path error)
        | .ok source =>
          ((compiler (Text.lines source)).mapError .compile).map fun value => (source, value)),
        s) := by
  rw [compileFile, run_get_bind]
  cases s.files.readText path with
  | error error => rfl
  | ok source =>
    dsimp only
    cases compiler (Text.lines source) <;> rfl

theorem run_writeAssembly (path : Path) (program : Machine.Program) (s : Progress) :
    (writeAssembly path program).run.run s =
      match program.assembly with
      | .error error => (.error (.unplaced error), s)
      | .ok text =>
        match s.files.write path text.toUTF8 with
        | .error error => (.error (.unwritable path error), s)
        | .ok files => (.ok (), { s with files := files }) := by
  rw [writeAssembly]
  cases program.assembly with
  | error error => rfl
  | ok text =>
    dsimp only
    rw [run_get_bind]
    cases s.files.write path text.toUTF8 <;> rfl

theorem run_printStage (stage : Stage) (text : String) (artifact : Artifact) (s : Progress) :
    (printStage stage text artifact).run.run s =
      (.ok (),
        { s with
          stdout := s.stdout ++
            if stage = .lex then Listing.ofSource text ++ "\n" ++ artifact.text
            else artifact.text }) := by
  cases stage <;> rfl

/-- The action keeps what holds of the files, whether or not it succeeds. -/
def Keeps (P : FileTree → Prop) {α : Type} (a : Action α) : Prop :=
  ∀ s : Progress, P s.files → P (a.run.run s).2.files

/-- Writing to that path keeps what holds of the files. -/
def KeepsWrite (P : FileTree → Prop) (p : Path) : Prop :=
  ∀ t t' content, P t → t.write p content = .ok t' → P t'

def KeepsRemove (P : FileTree → Prop) (p : Path) : Prop :=
  ∀ t t', P t → t.remove p = .ok t' → P t'

theorem files_bind {Q : FileTree → Prop} {α β : Type} {a : Action α} {f : α → Action β}
    {s : Progress} (ha : Q (a.run.run s).2.files) (hf : ∀ x, Keeps Q (f x)) :
    Q ((a >>= f).run.run s).2.files := by
  rw [run_bind]
  cases hrun : a.run.run s with
  | mk result next =>
    rw [hrun] at ha
    cases result with
    | ok x => exact hf x next ha
    | error e => exact ha

namespace Keeps

variable {P : FileTree → Prop} {α β : Type}

theorem log (verbose : Bool) (message : String) : Keeps P (log verbose message) := by
  intro s hs
  obtain ⟨stderr, hlog⟩ := run_log verbose message s
  rw [hlog]
  exact hs

theorem bind {a : Action α} {f : α → Action β} (ha : Keeps P a) (hf : ∀ x, Keeps P (f x)) :
    Keeps P (a >>= f) :=
  fun s hs => files_bind (ha s hs) hf

theorem printStage (stage : Stage) (source : String) (artifact : Artifact) :
    Keeps P (printStage stage source artifact) := by
  cases stage <;> exact fun _ h => h

/-- Tools that behave well write their output and nothing else. -/
theorem call (tool : Tool) (src : Path) {out : Path} (hout : KeepsWrite P out) :
    Keeps P (call (some {}) tool src out) := by
  intro s hs
  have hfaithful : ({} : Toolchain).behaviour tool = .faithful := by cases tool <;> rfl
  simp only [run_call, hfaithful, Behaviour.run, Tool.work]
  cases s.files.read src with
  | error e => exact hs
  | ok content =>
    dsimp only
    cases hwrite : s.files.write out (tool.header.toUTF8 ++ content) with
    | error e => exact hs
    | ok files => exact hout _ _ _ hs hwrite

theorem cleaningUp {intermediate : Path} {step : Action α} (hstep : Keeps P step)
    (hremove : KeepsRemove P intermediate) : Keeps P (cleaningUp intermediate step) := by
  intro s hs
  have hnext := hstep s hs
  rw [run_cleaningUp]
  cases hrun : step.run.run s with
  | mk result next =>
    rw [hrun] at hnext
    dsimp only
    cases hfiles : next.files.remove intermediate with
    | ok files => exact hremove _ _ hnext hfiles
    | error error => cases error <;> exact hnext

theorem compileFile (path : Path) (compiler : List String → Except CompileError α) :
    Keeps P (compileFile path compiler) := by
  intro s hs
  rw [run_compileFile]
  exact hs

theorem writeAssembly {path : Path} (hpath : KeepsWrite P path) (program : Machine.Program) :
    Keeps P (writeAssembly path program) := by
  intro s hs
  rw [run_writeAssembly]
  cases program.assembly with
  | error error => exact hs
  | ok text =>
    dsimp only
    cases hwrite : s.files.write path text.toUTF8 with
    | error error => exact hs
    | ok files => exact hpath _ _ _ hs hwrite

theorem finish (tool : Tool) {source out : Path} (hout : KeepsWrite P out)
    (hassembly : KeepsRemove P (Outputs.ofSource source).assembly) :
    Keeps P (finish (some {}) tool source out) := by
  unfold Action.finish
  exact (call tool _ hout).cleaningUp hassembly

end Keeps

end Action

end UnaryC.Command
