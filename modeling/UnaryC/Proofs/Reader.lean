import UnaryC.Tree.Parser

/-!
# The parser as readers put one behind another

A reader takes tokens off the head of a list and hands over the rest, with the line of the last one
taken. Every function of the parser is one. Most of them are made of others, which are run one
behind another, and what is kept by that composition need be shown only of the readers of one token
and of the one that calls itself.
-/
namespace UnaryC.Tree

open Token (Kind)

/-- What takes tokens off the head of a list. The line of the last token taken goes in and comes
out. -/
abbrev Reader (α : Type) := Nat → List Token → Except ParseError (α × Nat × List Token)

/-- The line of the last token taken, once these tokens are taken too. -/
def lineAfter (line : Nat) (tokens : List Token) : Nat :=
  tokens.foldl (fun _ t => t.line) line

theorem lineAfter_append (line : Nat) (tokens tokens' : List Token) :
    lineAfter line (tokens ++ tokens') = lineAfter (lineAfter line tokens) tokens' :=
  List.foldl_append

theorem lineAfter_eq_getLast? (line : Nat) (tokens : List Token) :
    lineAfter line tokens = tokens.getLast?.elim line Token.line := by
  induction tokens generalizing line with
  | nil => rfl
  | cons t tokens ih =>
    rw [lineAfter, List.foldl_cons, ← lineAfter, ih, List.getLast?_cons]
    cases tokens.getLast? <;> rfl

namespace Reader

variable {α β : Type}

def ret (x : α) : Reader α :=
  fun line tokens => .ok (x, line, tokens)

def andThen (p : Reader α) (q : α → Reader β) : Reader β := fun line tokens => do
  let (x, line, rest) ← p line tokens
  q x line rest

/-- Reads one token, which is refused or not for what it is. -/
def oneToken (f : Token → Except ParseError α) : Reader α
  | line, [] => .error (.outOfTokens line)
  | _, t :: rest => (f t).map fun x => (x, t.line, rest)

variable {p : Reader α} {q : α → Reader β} {line : Nat} {tokens : List Token}

theorem andThen_of_ok {x : α} {line' : Nat} {rest : List Token}
    (h : p line tokens = .ok (x, line', rest)) : p.andThen q line tokens = q x line' rest := by
  simp only [andThen, h]
  rfl

theorem andThen_of_error {e : ParseError} (h : p line tokens = .error e) :
    p.andThen q line tokens = .error e := by
  simp only [andThen, h]
  rfl

end Reader

open Reader

theorem expect_eq (kind : Kind) : (expect · kind) =
    oneToken fun t => if t.kind = kind then .ok t else .error (.expected kind t) := by
  funext line tokens
  cases tokens with
  | nil => rfl
  | cons t tokens =>
    rw [expect, oneToken]
    split <;> rfl

theorem parseIdentifier_eq : parseIdentifier =
    oneToken fun t =>
      if t.kind = .identifier then t.text.elim (.error (.namelessIdentifier t)) .ok
      else .error (.expected .identifier t) := by
  funext line tokens
  cases tokens with
  | nil => rfl
  | cons t tokens =>
    rw [parseIdentifier, expect, oneToken]
    split
    · simp only [bind, Except.bind]
      cases t.text <;> rfl
    · rfl

/-- What reads an expression behind its first token. -/
def exprBehind (t : Token) : Reader Expr :=
  match t.kind with
  | .constant =>
    match constantValue? t with
    | some value => ret (.constant value t.line)
    | none => fun _ _ => .error (.constantOutOfRange t)
  | .openParen => andThen parseExpr fun inner => andThen (expect · .closeParen) fun _ => ret inner
  | .minus => andThen parseExpr fun operand => ret (.unary .negate operand t.line)
  | .tilde => andThen parseExpr fun operand => ret (.unary .complement operand t.line)
  | .minusMinus => fun _ _ => .error (.decrement t)
  | _ => fun _ _ => .error (.expectedExpression t)

theorem parseExpr_cons (line : Nat) (t : Token) (tokens : List Token) :
    parseExpr line (t :: tokens) = exprBehind t t.line tokens := by
  rw [parseExpr, exprBehind]
  cases t.kind with
  | constant => dsimp only; cases constantValue? t <;> rfl
  | _ => rfl

theorem parseReturn_eq : parseReturn =
    andThen (expect · .returnKeyword) fun start => andThen parseExpr fun value =>
      andThen (expect · .semicolon) fun _ => ret { value := value, line := start.line } := by
  funext line tokens
  rfl

theorem parseFunction_eq : parseFunction =
    andThen (expect · .intKeyword) fun start => andThen parseIdentifier fun name =>
      andThen (expect · .openParen) fun _ => andThen (expect · .voidKeyword) fun _ =>
        andThen (expect · .closeParen) fun _ => andThen (expect · .openBrace) fun _ =>
          andThen parseReturn fun body => andThen (expect · .closeBrace) fun _ =>
            ret { name := name, body := body, line := start.line } := by
  funext line tokens
  rfl

/-- What the parser does, up to and with the end of input. -/
def parseAll : Reader Program :=
  andThen parseFunction fun function => andThen (expect · .eof) fun _ =>
    ret { function := function, line := function.line }

theorem parse_eq (tokens : List Token) :
    parse tokens = (parseAll 1 tokens).map Prod.fst := by
  rw [parse, parseAll, andThen]
  cases parseFunction 1 tokens with
  | error e => rfl
  | ok result =>
    obtain ⟨function, line, rest⟩ := result
    simp only [bind, Except.bind, andThen]
    cases expect line .eof rest <;> rfl

end UnaryC.Tree
