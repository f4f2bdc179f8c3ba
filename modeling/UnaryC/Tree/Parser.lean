import UnaryC.Text.Decimal
import UnaryC.Token.Basic
import UnaryC.Tree.Basic

/-!
Parsing: from tokens to a syntax tree, by recursive descent over

    program  ::= "int" identifier "(" "void" ")" "{" "return" expr ";" "}" end-of-input
    expr     ::= constant | "-" expr | "~" expr | "(" expr ")"

Tokens after the end of input are ignored. An error names the first token that cannot be right, or
else says that the tokens ran out.
-/
namespace UnaryC

inductive ParseError where
  | expected (kind : Token.Kind) (found : Token)
  | expectedExpression (found : Token)
  | decrement (found : Token)
  | constantOutOfRange (found : Token)
  | namelessIdentifier (found : Token)
  /-- The tokens ended too early; `line` is that of the last one taken. -/
  | outOfTokens (line : Nat)
deriving DecidableEq, Repr

namespace ParseError

/-- The offending token. -/
def token? : ParseError → Option Token
  | expected _ found => some found
  | expectedExpression found => some found
  | decrement found => some found
  | constantOutOfRange found => some found
  | namelessIdentifier found => some found
  | outOfTokens _ => none

def line : ParseError → Nat
  | expected _ found => found.line
  | expectedExpression found => found.line
  | decrement found => found.line
  | constantOutOfRange found => found.line
  | namelessIdentifier found => found.line
  | outOfTokens line => line

def detail : ParseError → String
  | expected kind found =>
    if found.kind = .eof then "Unexpected end of input, expected " ++ kind.name
    else "Expected " ++ kind.name ++ ", but found " ++ found.describe
  | expectedExpression found => "Expected an expression, but found " ++ found.describe
  | decrement _ => "Decrement operator '--' is not supported"
  | constantOutOfRange _ => "Integer constant out of range"
  | namelessIdentifier _ => "Identifier has no name"
  | outOfTokens _ => "Ran out of tokens before end of input"

def message (e : ParseError) : String :=
  "line " ++ Text.Decimal.ofNat e.line ++ ": " ++ e.detail

end ParseError

namespace Tree

/-- Takes one token of kind `kind`. Here and below `line` is that of the last token taken: it is
reported when the tokens run out, and is handed on with the tokens left over. -/
def expect (line : Nat) (kind : Token.Kind) :
    List Token → Except ParseError (Token × Nat × List Token)
  | [] => .error (.outOfTokens line)
  | t :: rest => if t.kind = kind then .ok (t, t.line, rest) else .error (.expected kind t)

def parseIdentifier (line : Nat) (tokens : List Token) :
    Except ParseError (String × Nat × List Token) := do
  let (t, line, rest) ← expect line .identifier tokens
  match t.text with
  | some name => return (name, line, rest)
  | none => throw (.namelessIdentifier t)

/-- The value of a constant token. -/
def constantValue? (t : Token) : Option Int32 :=
  t.text.bind fun text => Text.Decimal.readInt32? text.toList

def parseExpr : Nat → List Token → Except ParseError (Expr × Nat × List Token)
  | line, [] => .error (.outOfTokens line)
  | _, t :: rest =>
    match t.kind with
    | .constant =>
      match constantValue? t with
      | some value => .ok (.constant value t.line, t.line, rest)
      | none => .error (.constantOutOfRange t)
    | .openParen => do
      let (inner, line, rest) ← parseExpr t.line rest
      let (_, line, rest) ← expect line .closeParen rest
      return (inner, line, rest)
    | .minus => do
      let (operand, line, rest) ← parseExpr t.line rest
      return (.unary .negate operand t.line, line, rest)
    | .tilde => do
      let (operand, line, rest) ← parseExpr t.line rest
      return (.unary .complement operand t.line, line, rest)
    | .minusMinus => .error (.decrement t)
    | _ => .error (.expectedExpression t)

def parseReturn (line : Nat) (tokens : List Token) :
    Except ParseError (Return × Nat × List Token) := do
  let (start, line, rest) ← expect line .returnKeyword tokens
  let (value, line, rest) ← parseExpr line rest
  let (_, line, rest) ← expect line .semicolon rest
  return ({ value := value, line := start.line }, line, rest)

def parseFunction (line : Nat) (tokens : List Token) :
    Except ParseError (Function × Nat × List Token) := do
  let (start, line, rest) ← expect line .intKeyword tokens
  let (name, line, rest) ← parseIdentifier line rest
  let (_, line, rest) ← expect line .openParen rest
  let (_, line, rest) ← expect line .voidKeyword rest
  let (_, line, rest) ← expect line .closeParen rest
  let (_, line, rest) ← expect line .openBrace rest
  let (body, line, rest) ← parseReturn line rest
  let (_, line, rest) ← expect line .closeBrace rest
  return ({ name := name, body := body, line := start.line }, line, rest)

/-- The program that the tokens up to the end of input spell. -/
def parse (tokens : List Token) : Except ParseError Program := do
  let (function, line, rest) ← parseFunction 1 tokens
  let _ ← expect line .eof rest
  return { function := function, line := function.line }

end Tree

end UnaryC
