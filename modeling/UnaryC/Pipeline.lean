import UnaryC.Listing
import UnaryC.Machine.Assembly
import UnaryC.Machine.Generation
import UnaryC.Tac.Listing
import UnaryC.Tac.Lowering
import UnaryC.Token.Scan
import UnaryC.Tree.Outline
import UnaryC.Tree.Parser

/-!
The compiler: from source lines through tokens, syntax tree and three-address code to machine
code. A compilation stops after a chosen stage and hands over what that stage makes.
-/
namespace UnaryC

inductive Stage where
  | lex
  | parse
  | tacky
  | codegen
deriving DecidableEq, Repr

def Stage.title : Stage → String
  | lex => "Lex"
  | parse => "Parse"
  | tacky => "Tacky"
  | codegen => "CodeGen"

inductive Artifact where
  | tokens (list : List Token)
  | tree (program : Tree.Program)
  | tac (program : Tac.Program)
  | machine (program : Machine.Program)
deriving DecidableEq, Repr

/-- The artifact in readable form. -/
def Artifact.text : Artifact → String
  | tokens ts => Listing.ofTokens ts
  | tree program => program.outline
  | tac program => program.listing
  | machine program => program.outline

inductive CompileError where
  | lex (error : LexError)
  | parse (error : ParseError)
  | codegen (fault : Machine.Fault)
deriving DecidableEq, Repr

namespace CompileError

/-- The message of the error of the stage that failed. -/
def cause : CompileError → String
  | lex error => error.message
  | parse error => error.message
  | codegen fault => fault.message

def message : CompileError → String
  | lex error => "Lexer error: " ++ error.message
  | parse error => "Parser error: " ++ error.message
  | codegen fault => "Codegen error: " ++ fault.message

end CompileError

def scanSource (lines : List String) : Except CompileError (List Token) :=
  (Token.scan lines).mapError .lex

def parseSource (lines : List String) : Except CompileError Tree.Program := do
  let tokens ← scanSource lines
  (Tree.parse tokens).mapError .parse

def lowerSource (lines : List String) : Except CompileError Tac.Program := do
  let tree ← parseSource lines
  return Tac.lower tree

def generateSource (lines : List String) : Except CompileError Machine.Program := do
  let tac ← lowerSource lines
  (Machine.generate tac).mapError .codegen

/-- Compiles source lines up to and including the stage. -/
def compile (lines : List String) : Stage → Except CompileError Artifact
  | .lex => (scanSource lines).map .tokens
  | .parse => (parseSource lines).map .tree
  | .tacky => (lowerSource lines).map .tac
  | .codegen => (generateSource lines).map .machine

end UnaryC
