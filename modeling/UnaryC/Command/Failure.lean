import UnaryC.Command.Toolchain
import UnaryC.Pipeline
import UnaryC.Text.Blank
import UnaryC.Text.Utf8

/-! Why a run failed, and the report of it. -/
namespace UnaryC.Command

open Files

inductive Failure where
  | notSource (path : Path)
  /-- There is no toolchain. -/
  | toolMissing (tool : Tool)
  | toolFailed (tool : Tool) (status : UInt8) (stderr : ByteArray)
  | unreadable (path : Path) (error : FileError)
  | compile (error : CompileError)
  /-- The program has a pseudo-register without a slot, and so no text. This is a failure like the
  others and nothing is written, where an emitter that writes as it goes would have made the file
  already and then break off without a report. No program that is compiled comes to it. -/
  | unplaced (error : Machine.Unplaced)
  | unwritable (path : Path) (error : FileError)
  | undeletable (path : Path) (error : FileError)
deriving DecidableEq

namespace Failure

def headline : Failure → String
  | notSource path => "Not a source file: " ++ path.text
  | toolMissing tool => "Failed to execute " ++ tool.name
  | toolFailed tool status stderr =>
    "The " ++ tool.name ++ " failed (exit status: " ++ Text.Decimal.ofNat status.toNat ++ "):\n"
      ++ Text.trimEnd (Text.Utf8.text stderr)
  | unreadable path _ => "Unable to read preprocessed file " ++ path.text
  | compile error => error.message
  | unplaced error => error.message
  | unwritable path _ => "Failed to write assembly file " ++ path.text
  | undeletable path _ => "Failed to delete " ++ path.text

/-- What lies behind the failure, where there is something behind it. -/
def cause? : Failure → Option String
  | toolMissing _ => some FileError.notFound.message
  | unreadable _ error => some error.message
  | compile error => some error.cause
  | unwritable _ error => some error.message
  | undeletable _ error => some error.message
  | _ => none

def report (f : Failure) : String :=
  let cause := f.cause?.elim "" fun cause => "\n\nCaused by:\n    " ++ cause
  "Error: " ++ f.headline ++ cause ++ "\n"

end Failure

end UnaryC.Command
