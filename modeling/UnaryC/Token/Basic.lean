/-! Tokens: a kind, the text where there is one, and the line and column of the first character. -/
namespace UnaryC

namespace Token

inductive Kind where
  | identifier
  | constant
  | intKeyword
  | voidKeyword
  | returnKeyword
  | openParen
  | closeParen
  | openBrace
  | closeBrace
  | semicolon
  | tilde
  | minus
  | minusMinus
  | eof
deriving DecidableEq, Repr

namespace Kind

/-- How messages name the kind. -/
def name : Kind → String
  | identifier => "identifier"
  | constant => "constant"
  | intKeyword => "'int'"
  | voidKeyword => "'void'"
  | returnKeyword => "'return'"
  | openParen => "'('"
  | closeParen => "')'"
  | openBrace => "'\x7b'"
  | closeBrace => "'\x7d'"
  | semicolon => "';'"
  | tilde => "'~'"
  | minus => "'-'"
  | minusMinus => "'--'"
  | eof => "end of input"

/-- The kind of a word: a keyword, or else an identifier. -/
def ofWord (word : String) : Kind :=
  if word = "int" then intKeyword
  else if word = "void" then voidKeyword
  else if word = "return" then returnKeyword
  else identifier

end Kind

end Token

/-- Lines and columns count from 1, columns in characters. -/
structure Token where
  kind : Token.Kind
  text : Option String
  line : Nat
  column : Nat
deriving DecidableEq, Repr

namespace Token

/-- How messages and listings show the token: a text of its own goes in quotes, after the kind where
the text alone would not tell it. -/
def describe (t : Token) : String :=
  match t.text, t.kind with
  | none, kind => kind.name
  | some text, .identifier => "identifier '" ++ text ++ "'"
  | some text, .constant => "constant '" ++ text ++ "'"
  | some text, _ => "'" ++ text ++ "'"

/-- The token that ends the input, on the line after the last. -/
def endOfInput (line : Nat) : Token :=
  { kind := .eof, text := none, line := line, column := 1 }

end Token

end UnaryC
