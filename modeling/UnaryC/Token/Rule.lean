import UnaryC.Text.Blank
import UnaryC.Token.Basic

/-!
The lexical rules. Each rule has a pattern, which covers some characters at the head of a text,
and an effect. Of the rules that cover at least one character the one that covers most applies,
and of those that cover equally many the first in the table.
-/
namespace UnaryC.Token

/-- The characters that an identifier can start with. -/
def isWordStart (c : Char) : Bool :=
  c.isAlpha || c == '_'

/-- The characters that an identifier can go on with. -/
def isWordChar (c : Char) : Bool :=
  c.isAlphanum || c == '_'

inductive Pattern where
  | blanks
  /-- Two slashes, and with them the rest of the text. -/
  | lineComment
  /-- The two characters that open a block comment. -/
  | commentStart
  | word
  /-- Digits that no letter, digit or underscore follows. -/
  | number
  | symbol (chars : List Char)
deriving DecidableEq, Repr

/-- The number of characters at the head of `text` that the pattern covers; `0` when it does not
match. -/
def Pattern.length (text : List Char) : Pattern → Nat
  | blanks => (text.takeWhile Text.isBlank).length
  | lineComment => if ['/', '/'].isPrefixOf text then text.length else 0
  | commentStart => if ['/', '*'].isPrefixOf text then 2 else 0
  | word => if text.head?.any isWordStart then (text.takeWhile isWordChar).length else 0
  | number =>
    if (text.dropWhile Char.isDigit).head?.any isWordChar then 0
    else (text.takeWhile Char.isDigit).length
  | symbol chars => if chars.isPrefixOf text then chars.length else 0

inductive Effect where
  | skip
  | openComment
  /-- A token of that kind, unless the text is a keyword. -/
  | emit (kind : Kind)
deriving DecidableEq, Repr

structure Rule where
  pattern : Pattern
  effect : Effect
deriving DecidableEq, Repr

def rules : List Rule :=
  [⟨.blanks, .skip⟩,
   ⟨.lineComment, .skip⟩,
   ⟨.commentStart, .openComment⟩,
   ⟨.word, .emit .identifier⟩,
   ⟨.number, .emit .constant⟩,
   ⟨.symbol ['('], .emit .openParen⟩,
   ⟨.symbol [')'], .emit .closeParen⟩,
   ⟨.symbol ['\x7b'], .emit .openBrace⟩,
   ⟨.symbol ['\x7d'], .emit .closeBrace⟩,
   ⟨.symbol [';'], .emit .semicolon⟩,
   ⟨.symbol ['~'], .emit .tilde⟩,
   ⟨.symbol ['-', '-'], .emit .minusMinus⟩,
   ⟨.symbol ['-'], .emit .minus⟩]

/-- A rule with the number of characters that it covers. -/
structure Match where
  length : Nat
  effect : Effect
deriving DecidableEq, Repr

/-- Keeps the better of the best match so far and what `rule` covers: the new one only if longer. -/
def Match.better (text : List Char) (best : Option Match) (rule : Rule) : Option Match :=
  let length := rule.pattern.length text
  if (best.elim 0 Match.length) < length then some ⟨length, rule.effect⟩ else best

/-- The longest match at the head of `text`. -/
def longest? (text : List Char) : Option Match :=
  rules.foldl (Match.better text) none

theorem Match.better_pos {text : List Char} {best : Option Match} {rule : Rule}
    (h : ∀ m, best = some m → 0 < m.length) :
    ∀ m, Match.better text best rule = some m → 0 < m.length := by
  intro m hm
  unfold Match.better at hm
  dsimp only at hm
  split at hm
  next hlt => cases hm; exact Nat.lt_of_le_of_lt (Nat.zero_le _) hlt
  next => exact h m hm

theorem foldl_better_pos {text : List Char} (table : List Rule) {best : Option Match}
    (h : ∀ m, best = some m → 0 < m.length) :
    ∀ m, table.foldl (Match.better text) best = some m → 0 < m.length := by
  induction table generalizing best with
  | nil => exact h
  | cons rule table ih => exact ih (Match.better_pos h)

/-- A match covers at least one character, so that scanning gets on. -/
theorem longest?_pos {text : List Char} {m : Match} (h : longest? text = some m) : 0 < m.length :=
  foldl_better_pos rules (by simp) m h

end UnaryC.Token
