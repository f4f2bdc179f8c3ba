import UnaryC.Token.Scan

/-!
# The lexical grammar

A source text is one word of characters and line ends. The grammar says how such a word may be cut
into segments: blanks, line ends, comments and lexemes. It speaks of what a segment is and of what
may follow it, and not of how a scanner finds it; no rule of it prefers one match to another. A
block comment is the one segment that can hold line ends.
-/
namespace UnaryC.Lexical

open Token (Kind)

/-- A character, or the end of a line. -/
inductive Symbol where
  | char (c : Char)
  | lineEnd
deriving DecidableEq, Repr

def ofChars (chars : List Char) : List Symbol :=
  chars.map .char

/-- The text of some lines. Every line has an end, also the last one. -/
def ofLines (lines : List String) : List Symbol :=
  lines.flatMap fun line => ofChars line.toList ++ [.lineEnd]

/-- The character at the head, if the line does not end there. -/
def nextChar? : List Symbol → Option Char
  | .char c :: _ => some c
  | _ => none

/-- Lines and columns count from 1. -/
structure Position where
  line : Nat
  column : Nat
deriving DecidableEq, Repr

namespace Position

def next (p : Position) : Symbol → Position
  | .char _ => { p with column := p.column + 1 }
  | .lineEnd => { line := p.line + 1, column := 1 }

/-- The position behind `text`, which starts at `p`. -/
def after (p : Position) (text : List Symbol) : Position :=
  text.foldl next p

end Position

def IsLetter (c : Char) : Prop :=
  ('A' ≤ c ∧ c ≤ 'Z') ∨ ('a' ≤ c ∧ c ≤ 'z') ∨ c = '_'

def IsDigit (c : Char) : Prop :=
  '0' ≤ c ∧ c ≤ '9'

def IsWordChar (c : Char) : Prop :=
  IsLetter c ∨ IsDigit c

instance : DecidablePred IsLetter := fun _ => inferInstanceAs (Decidable (_ ∨ _))

instance : DecidablePred IsDigit := fun _ => inferInstanceAs (Decidable (_ ∧ _))

instance : DecidablePred IsWordChar := fun _ => inferInstanceAs (Decidable (_ ∨ _))

def IsWord : List Char → Prop
  | [] => False
  | c :: rest => IsLetter c ∧ ∀ d ∈ rest, IsWordChar d

-- The instances below name the one for members: a search may find one that tries every character.
instance : DecidablePred IsWord
  | [] => inferInstanceAs (Decidable False)
  | _ :: rest =>
    have := List.decidableBAll IsWordChar rest
    inferInstanceAs (Decidable (_ ∧ _))

def IsNumber (text : List Char) : Prop :=
  text ≠ [] ∧ ∀ c ∈ text, IsDigit c

instance : DecidablePred IsNumber := fun text =>
  have := List.decidableBAll IsDigit text
  inferInstanceAs (Decidable (_ ∧ _))

def keywords : List (List Char) :=
  [['i', 'n', 't'], ['v', 'o', 'i', 'd'], ['r', 'e', 't', 'u', 'r', 'n']]

/-- The texts of each kind of token. -/
def IsLexeme (text : List Char) : Kind → Prop
  | .identifier => IsWord text ∧ text ∉ keywords
  | .constant => IsNumber text
  | .intKeyword => text = ['i', 'n', 't']
  | .voidKeyword => text = ['v', 'o', 'i', 'd']
  | .returnKeyword => text = ['r', 'e', 't', 'u', 'r', 'n']
  | .openParen => text = ['(']
  | .closeParen => text = [')']
  | .openBrace => text = ['\x7b']
  | .closeBrace => text = ['\x7d']
  | .semicolon => text = [';']
  | .tilde => text = ['~']
  | .minus => text = ['-']
  | .minusMinus => text = ['-', '-']
  | .eof => False

/-- Whether a lexeme of that kind can have `next` behind it in its line: a word or a number must not
go on, and a minus not become a decrement. -/
def MayPrecede (next : Option Char) : Kind → Prop
  | .identifier => ∀ c ∈ next, ¬ IsWordChar c
  | .constant => ∀ c ∈ next, ¬ IsWordChar c
  | .intKeyword => ∀ c ∈ next, ¬ IsWordChar c
  | .voidKeyword => ∀ c ∈ next, ¬ IsWordChar c
  | .returnKeyword => ∀ c ∈ next, ¬ IsWordChar c
  | .minus => next ≠ some '-'
  | _ => True

instance (text : List Char) : DecidablePred (IsLexeme text)
  | .identifier => inferInstanceAs (Decidable (IsWord text ∧ text ∉ keywords))
  | .constant => inferInstanceAs (Decidable (IsNumber text))
  | .intKeyword | .voidKeyword | .returnKeyword | .openParen | .closeParen | .openBrace
  | .closeBrace | .semicolon | .tilde | .minus | .minusMinus => inferInstanceAs (Decidable (_ = _))
  | .eof => inferInstanceAs (Decidable False)

instance (next : Option Char) : DecidablePred (MayPrecede next)
  | .identifier | .constant | .intKeyword | .voidKeyword | .returnKeyword =>
    Option.decidableForallMem next
  | .minus => inferInstanceAs (Decidable (next ≠ some '-'))
  | .openParen | .closeParen | .openBrace | .closeBrace | .semicolon | .tilde | .minusMinus
  | .eof => inferInstanceAs (Decidable True)

/-- The characters left on a line, where no segment starts with the first of them. -/
def Unreadable : List Char → Prop
  | [] => False
  | c :: rest =>
    ¬ Text.isBlank c ∧ ¬ IsLetter c ∧ c ∉ ['(', ')', '\x7b', '\x7d', ';', '~', '-'] ∧
    (c = '/' → rest.head? ≠ some '/' ∧ rest.head? ≠ some '*') ∧
    (IsDigit c → ∃ digits d more,
      c :: rest = digits ++ d :: more ∧ IsNumber digits ∧ IsLetter d)

inductive Segment where
  | blanks (chars : List Char)
  | lineEnd
  /-- Two slashes, and `body` behind them. -/
  | lineComment (body : List Char)
  /-- `body` between the signs that open and close the comment. -/
  | blockComment (body : List Symbol)
  | lexeme (kind : Kind) (text : List Char)
deriving DecidableEq, Repr

/-- The two characters that close a block comment. -/
def closing : List Symbol :=
  ofChars ['*', '/']

namespace Segment

def symbols : Segment → List Symbol
  | blanks chars => ofChars chars
  | lineEnd => [.lineEnd]
  | lineComment body => ofChars ('/' :: '/' :: body)
  | blockComment body => ofChars ['/', '*'] ++ body ++ closing
  | lexeme _ text => ofChars text

/-- Whether the segment can stand before `rest`. A line comment reaches the end of its line, and a
block comment ends where it is closed first. -/
def Fits (rest : List Symbol) : Segment → Prop
  | blanks chars => chars ≠ [] ∧ ∀ c ∈ chars, Text.isBlank c
  | lineEnd => True
  | lineComment _ => rest.head? = some .lineEnd
  | blockComment body => ¬ closing <:+: body
  | lexeme kind text => IsLexeme text kind ∧ MayPrecede (nextChar? rest) kind

instance (rest : List Symbol) : DecidablePred (Fits rest)
  | blanks chars =>
    have := List.decidableBAll (fun c => Text.isBlank c = true) chars
    inferInstanceAs (Decidable (_ ∧ _))
  | lexeme kind text =>
    inferInstanceAs (Decidable (IsLexeme text kind ∧ MayPrecede (nextChar? rest) kind))
  | lineEnd => inferInstanceAs (Decidable True)
  | lineComment _ => inferInstanceAs (Decidable (_ = _))
  | blockComment _ => inferInstanceAs (Decidable (¬ _))

/-- The token that a lexeme at `p` is. -/
def token? (p : Position) : Segment → Option Token
  | lexeme kind text =>
    some { kind := kind, text := some (String.ofList text), line := p.line, column := p.column }
  | _ => none

/-- Blanks one by one; all other segments as they are. -/
def singleBlanks : Segment → List Segment
  | blanks chars => chars.map fun c => blanks [c]
  | segment => [segment]

end Segment

def spell (segments : List Segment) : List Symbol :=
  segments.flatMap Segment.symbols

/-- Every segment can stand before those behind it and `rest`. -/
def Fitting (rest : List Symbol) : List Segment → Prop
  | [] => True
  | segment :: segments => segment.Fits (spell segments ++ rest) ∧ Fitting rest segments

instance decidableFitting (rest : List Symbol) : DecidablePred (Fitting rest)
  | [] => inferInstanceAs (Decidable True)
  | _ :: segments =>
    have := decidableFitting rest segments
    inferInstanceAs (Decidable (_ ∧ _))

/-- A cut of the text of some lines into segments. -/
structure Cuts (segments : List Segment) (lines : List String) : Prop where
  spells : spell segments = ofLines lines
  fitting : Fitting [] segments

instance (segments : List Segment) (lines : List String) : Decidable (Cuts segments lines) :=
  decidable_of_iff (spell segments = ofLines lines ∧ Fitting [] segments)
    ⟨fun h => ⟨h.1, h.2⟩, fun h => ⟨h.spells, h.fitting⟩⟩

/-- The tokens of the segments, the first of which starts at `p`. -/
def tokensFrom (p : Position) : List Segment → List Token
  | [] => []
  | segment :: segments =>
    (segment.token? p).toList ++ tokensFrom (p.after segment.symbols) segments

@[simp] theorem ofChars_nil : ofChars [] = [] :=
  rfl

@[simp] theorem ofChars_cons (c : Char) (chars : List Char) :
    ofChars (c :: chars) = .char c :: ofChars chars :=
  rfl

theorem ofChars_append (a b : List Char) : ofChars (a ++ b) = ofChars a ++ ofChars b :=
  List.map_append

theorem mayPrecede_none (kind : Kind) : MayPrecede none kind := by
  cases kind <;> simp [MayPrecede]

theorem isLexeme_ne_nil {text : List Char} {kind : Kind} (h : IsLexeme text kind) : text ≠ [] := by
  rintro rfl
  cases kind <;> simp [IsLexeme, IsWord, IsNumber] at h

theorem Segment.Fits.symbols_ne_nil {segment : Segment} {rest : List Symbol}
    (h : segment.Fits rest) : segment.symbols ≠ [] := by
  cases segment with
  | blanks chars => simpa [symbols, ofChars] using h.1
  | lexeme kind text => simpa [symbols, ofChars] using isLexeme_ne_nil h.1
  | _ => simp [symbols]

@[simp] theorem ofLines_nil : ofLines [] = [] :=
  rfl

theorem ofLines_cons (line : String) (lines : List String) :
    ofLines (line :: lines) = ofChars line.toList ++ .lineEnd :: ofLines lines := by
  simp [ofLines]

theorem ofLines_append (a b : List String) : ofLines (a ++ b) = ofLines a ++ ofLines b :=
  List.flatMap_append

/-- The text of lines of which the first is given by its characters. -/
theorem ofLines_ofList (text : List Char) (lines : List String) :
    ofLines (String.ofList text :: lines) = ofChars text ++ .lineEnd :: ofLines lines := by
  rw [ofLines_cons, String.toList_ofList]

@[simp] theorem spell_cons (segment : Segment) (segments : List Segment) :
    spell (segment :: segments) = segment.symbols ++ spell segments :=
  rfl

/-- Characters at the head of a text that has a line end are in its first line. -/
theorem ofChars_append_eq {a text : List Char} {rest tail : List Symbol}
    (h : ofChars a ++ rest = ofChars text ++ .lineEnd :: tail) :
    ∃ text', text = a ++ text' ∧ rest = ofChars text' ++ .lineEnd :: tail := by
  induction a generalizing text with
  | nil => exact ⟨text, rfl, h⟩
  | cons c a ih =>
    cases text with
    | nil => cases h
    | cons d text =>
      simp only [ofChars_cons, List.cons_append, List.cons.injEq, Symbol.char.injEq] at h
      obtain ⟨rfl, h⟩ := h
      obtain ⟨text', rfl, hrest⟩ := ih h
      exact ⟨text', rfl, hrest⟩

theorem ofChars_lineEnd_inj {a b : List Char} {x y : List Symbol}
    (h : ofChars a ++ .lineEnd :: x = ofChars b ++ .lineEnd :: y) : a = b ∧ x = y := by
  obtain ⟨b', rfl, h'⟩ := ofChars_append_eq h
  cases b' with
  | nil => simpa using h'
  | cons c b' => cases h'

theorem ofLines_eq_nil {lines : List String} (h : ofLines lines = []) : lines = [] := by
  cases lines with
  | nil => rfl
  | cons line lines =>
    rw [ofLines_cons] at h
    simp at h

theorem ofLines_injective {lines lines' : List String} (h : ofLines lines = ofLines lines') :
    lines = lines' := by
  induction lines generalizing lines' with
  | nil => exact (ofLines_eq_nil h.symm).symm
  | cons line lines ih =>
    cases lines' with
    | nil => exact ofLines_eq_nil h
    | cons line' lines' =>
      rw [ofLines_cons, ofLines_cons] at h
      obtain ⟨hline, hlines⟩ := ofChars_lineEnd_inj h
      rw [String.toList_inj.mp hline, ih hlines]

/-- A text ends before its first line end, or has one. -/
theorem split_lineEnd (text : List Symbol) :
    (∃ chars, text = ofChars chars) ∨ ∃ chars rest, text = ofChars chars ++ .lineEnd :: rest := by
  induction text with
  | nil => exact .inl ⟨[], rfl⟩
  | cons symbol text ih =>
    cases symbol with
    | lineEnd => exact .inr ⟨[], text, rfl⟩
    | char c =>
      rcases ih with ⟨chars, rfl⟩ | ⟨chars, rest, rfl⟩
      · exact .inl ⟨c :: chars, rfl⟩
      · exact .inr ⟨c :: chars, rest, rfl⟩

theorem not_closing_tail {symbol : Symbol} {text : List Symbol}
    (h : ¬ closing <:+: symbol :: text) : ¬ closing <:+: text :=
  fun ht => h (List.infix_cons ht)

/-- Up to the first place where a comment is closed. -/
theorem split_closing (text : List Symbol) :
    (¬ closing <:+: text) ∨ ∃ body rest, text = body ++ closing ++ rest ∧ ¬ closing <:+: body := by
  induction text with
  | nil => exact .inl (by simp [closing])
  | cons symbol text ih =>
    by_cases hhead : closing <+: symbol :: text
    · obtain ⟨rest, hrest⟩ := hhead
      exact .inr ⟨[], rest, hrest.symm, by simp [closing]⟩
    · rcases ih with hnone | ⟨body, rest, rfl, hbody⟩
      · refine .inl fun h => ?_
        rcases List.infix_cons_iff.mp h with hp | hi
        · exact hhead hp
        · exact hnone hi
      · refine .inr ⟨symbol :: body, rest, rfl, fun h => ?_⟩
        rcases List.infix_cons_iff.mp h with hp | hi
        · refine hhead (hp.trans ?_)
          rw [← List.cons_append, ← List.cons_append, List.append_assoc]
          exact List.prefix_append _ _
        · exact hbody hi

/-- The same in a line. -/
theorem split_closing_ofChars (text : List Char) :
    (¬ closing <:+: ofChars text) ∨
      ∃ body rest, text = body ++ '*' :: '/' :: rest ∧ ¬ closing <:+: ofChars body := by
  rcases split_closing (ofChars text) with hnone | ⟨body, rest, hsplit, hbody⟩
  · exact .inl hnone
  · obtain ⟨front, right, rfl, hfront, rfl⟩ := List.map_eq_append_iff.mp hsplit
    obtain ⟨left, sign, rfl, rfl, hsign⟩ := List.map_eq_append_iff.mp hfront
    obtain rfl := (List.map_inj_right fun _ _ => Symbol.char.inj).mp hsign
    exact .inr ⟨left, right, List.append_assoc _ _ _, hbody⟩

namespace Position

theorem after_append (p : Position) (a b : List Symbol) :
    p.after (a ++ b) = (p.after a).after b :=
  List.foldl_append

theorem after_ofChars (p : Position) (chars : List Char) :
    p.after (ofChars chars) = { p with column := p.column + chars.length } := by
  induction chars generalizing p with
  | nil => rfl
  | cons c chars ih =>
    change (p.next (.char c)).after (ofChars chars) = _
    rw [ih, List.length_cons]
    simp only [next]
    congr 1
    omega

/-- The end of a line leads to the start of the next. -/
theorem after_lineEnd (p : Position) : p.after [.lineEnd] = { line := p.line + 1, column := 1 } :=
  rfl

/-- So does the rest of a line with its end. -/
theorem after_line (p : Position) (chars : List Char) :
    p.after (ofChars chars ++ [.lineEnd]) = { line := p.line + 1, column := 1 } := by
  rw [after_append, after_ofChars]
  rfl

/-- Behind whole lines a line starts. -/
theorem after_ofLines (line : Nat) (lines : List String) :
    ({ line := line, column := 1 } : Position).after (ofLines lines) =
      { line := line + lines.length, column := 1 } := by
  induction lines generalizing line with
  | nil => rfl
  | cons text lines ih =>
    rw [ofLines_cons, after_append, after_ofChars]
    change after { line := line + 1, column := 1 } (ofLines lines) = _
    rw [ih, List.length_cons, Nat.add_assoc, Nat.add_comm 1]

/-- The same from any place in the first of the lines. -/
theorem after_ofLines_cons (p : Position) (text : String) (lines : List String) :
    p.after (ofLines (text :: lines)) = { line := p.line + 1 + lines.length, column := 1 } := by
  rw [ofLines_cons, after_append, after_ofChars, ← after_ofLines]
  rfl

end Position

end UnaryC.Lexical
