import UnaryC.Text.Decimal
import UnaryC.Token.Rule

/-!
Scanning: from the lines of a source text to its tokens. A block comment can go on over several
lines, so what a line leaves behind is the line where a comment still open was opened, if any.
-/
namespace UnaryC

inductive LexError where
  | unexpectedChar (char : Char) (line column : Nat)
  | unterminatedComment (line : Nat)
deriving DecidableEq, Repr

def LexError.message : LexError → String
  | unexpectedChar char line column =>
    "unexpected character '" ++ String.singleton char ++ "' at line " ++ Text.Decimal.ofNat line
      ++ ", column " ++ Text.Decimal.ofNat column
  | unterminatedComment line =>
    "unterminated block comment starting at line " ++ Text.Decimal.ofNat line

namespace Token

/-- The number of characters up to the end of the first `*/`. -/
def commentLength? : List Char → Option Nat
  | '*' :: '/' :: _ => some 2
  | _ :: rest => (commentLength? rest).map (· + 1)
  | [] => none

theorem commentLength?_pos {text : List Char} {n : Nat} (h : commentLength? text = some n) :
    0 < n := by
  unfold commentLength? at h
  split at h
  next => cases h; decide
  next =>
    obtain ⟨m, -, rfl⟩ := Option.map_eq_some_iff.mp h
    exact Nat.succ_pos m
  next => cases h

/-- The token that the rule with kind `kind` makes of `text`. -/
def ofLexeme (kind : Kind) (text : List Char) (line column : Nat) : Token :=
  let word := String.ofList text
  { kind := if kind = .identifier then Kind.ofWord word else kind
    text := some word, line := line, column := column }

/-- One step along a line: the characters it covers, the token it makes of them, if any, and the
line where a comment then open was opened. -/
structure Step where
  length : Nat
  token : Option Token
  opened : Option Nat
deriving DecidableEq, Repr

/-- The step at the head `c` of the rest `c :: rest` of a line. `opened` is the line where the
comment around it was opened, if there is one; a comment that does not end on the line covers the
rest. -/
def step (line : Nat) (opened : Option Nat) (column : Nat) (c : Char) (rest : List Char) :
    Except LexError Step :=
  let text := c :: rest
  match opened with
  | some start =>
    match commentLength? text with
    | none => .ok ⟨text.length, none, some start⟩
    | some n => .ok ⟨n, none, none⟩
  | none =>
    match longest? text with
    | none => .error (.unexpectedChar c line column)
    | some m =>
      match m.effect with
      | .skip => .ok ⟨m.length, none, none⟩
      | .openComment => .ok ⟨m.length, none, some line⟩
      | .emit kind => .ok ⟨m.length, some (ofLexeme kind (text.take m.length) line column), none⟩

/-- A step covers at least one character. -/
theorem step_pos {line : Nat} {opened : Option Nat} {column : Nat} {c : Char} {rest : List Char}
    {s : Step} (h : step line opened column c rest = .ok s) : 0 < s.length := by
  unfold step at h
  dsimp only at h
  split at h
  next =>
    split at h
    next => cases h; exact Nat.succ_pos _
    next hn => cases h; exact commentLength?_pos hn
  next =>
    split at h
    next => cases h
    next hm =>
      have := longest?_pos hm
      split at h <;> cases h <;> exact this

/-- Scans the rest `text` of a line from `column` on. -/
def scanLine (line : Nat) (opened : Option Nat) (column : Nat) (text : List Char) :
    Except LexError (List Token × Option Nat) :=
  match text with
  | [] => .ok ([], opened)
  | c :: rest =>
    match h : step line opened column c rest with
    | .error e => .error e
    | .ok s => do
      have := step_pos h
      let (tokens, opened) ←
        scanLine line s.opened (column + s.length) ((c :: rest).drop s.length)
      return (s.token.toList ++ tokens, opened)
termination_by text.length
decreasing_by simp only [List.length_drop, List.length_cons]; omega

/-- Scans lines, of which the first has number `line`. -/
def scanLines (line : Nat) (opened : Option Nat) : List String → Except LexError (List Token)
  | [] =>
    match opened with
    | some start => .error (.unterminatedComment start)
    | none => .ok [endOfInput line]
  | text :: texts => do
    let (tokens, opened) ← scanLine line opened 1 text.toList
    let more ← scanLines (line + 1) opened texts
    return tokens ++ more

/-- The tokens of a source text, given by its lines. -/
def scan (lines : List String) : Except LexError (List Token) :=
  scanLines 1 none lines

end Token

end UnaryC
