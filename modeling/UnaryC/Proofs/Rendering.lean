import Mathlib.Data.List.Chain
import UnaryC.Proofs.Compiler
import UnaryC.Proofs.Grammar
import UnaryC.Proofs.UniqueCut

/-!
# Renderings of a program

A program can be written in many ways. Parentheses may stand around any subexpression, and blanks,
line breaks and block comments between any two lexemes. Such a separator has to stand in two places
only: between two words, and between two minus signs, where a parenthesis does as well. However a
program is written, it is read as that program.
-/
namespace UnaryC

open Token (Kind)
open Lexical

namespace Lexical

/-- A lexeme, wherever it stands. -/
structure Lexeme where
  kind : Kind
  text : String
deriving DecidableEq, Repr

def Segment.lexeme? : Segment → Option Lexeme
  | lexeme kind text => some ⟨kind, String.ofList text⟩
  | _ => none

/-- What may stand between two lexemes. -/
def Segment.IsSeparator : Segment → Prop
  | blanks chars => chars ≠ [] ∧ ∀ c ∈ chars, Text.isBlank c
  | lineEnd => True
  | blockComment body => ¬ closing <:+: body
  | lineComment _ => False
  | lexeme _ _ => False

instance : DecidablePred Segment.IsSeparator
  | .blanks chars =>
    have := List.decidableBAll (fun c => Text.isBlank c = true) chars
    inferInstanceAs (Decidable (_ ∧ _))
  | .lineEnd => inferInstanceAs (Decidable True)
  | .blockComment _ => inferInstanceAs (Decidable (¬ _))
  | .lineComment _ | .lexeme _ _ => inferInstanceAs (Decidable False)

/-- The kinds of the lexemes that are made of letters and digits. -/
def wordKinds : List Kind :=
  [.identifier, .constant, .intKeyword, .voidKeyword, .returnKeyword]

/-- Whether two segments may stand next to each other: words must not, and minus signs. -/
def MayTouch (a b : Segment) : Prop :=
  ∀ l ∈ a.lexeme?, ∀ m ∈ b.lexeme?,
    ¬ (l.kind ∈ wordKinds ∧ m.kind ∈ wordKinds) ∧ ¬ (l.kind = .minus ∧ m.kind = .minus)

instance : DecidableRel MayTouch := fun a b =>
  have := fun l : Lexeme => Option.decidableForallMem (p := fun m : Lexeme =>
    ¬ (l.kind ∈ wordKinds ∧ m.kind ∈ wordKinds) ∧ ¬ (l.kind = .minus ∧ m.kind = .minus)) b.lexeme?
  Option.decidableForallMem a.lexeme?

end Lexical

namespace Tree

def signOf : UnaryOp → Lexeme
  | .negate => ⟨.minus, "-"⟩
  | .complement => ⟨.tilde, "~"⟩

/-- The ways to spell a constant under operators, of which the outermost is first. -/
inductive SpellsExpr (constant : Nat) : List UnaryOp → List Lexeme → Prop
  | constant : SpellsExpr constant [] [⟨.constant, Text.Decimal.ofNat constant⟩]
  | unary (op : UnaryOp) {ops : List UnaryOp} {word : List Lexeme}
      (operand : SpellsExpr constant ops word) : SpellsExpr constant (op :: ops) (signOf op :: word)
  | parens {ops : List UnaryOp} {word : List Lexeme} (inner : SpellsExpr constant ops word) :
      SpellsExpr constant ops (⟨.openParen, "("⟩ :: (word ++ [⟨.closeParen, ")"⟩]))

/-- The lexemes of a program that returns what `value` spells. -/
def programWord (name : String) (value : List Lexeme) : List Lexeme :=
  [⟨.intKeyword, "int"⟩, ⟨.identifier, name⟩, ⟨.openParen, "("⟩, ⟨.voidKeyword, "void"⟩,
    ⟨.closeParen, ")"⟩, ⟨.openBrace, "\x7b"⟩, ⟨.returnKeyword, "return"⟩] ++ value ++
  [⟨.semicolon, ";"⟩, ⟨.closeBrace, "\x7d"⟩]

/-- The program written with those lexemes and separators, one after the other, in those lines. -/
structure Renders (name : String) (ops : List UnaryOp) (constant : Nat) (pieces : List Segment)
    (lines : List String) : Prop where
  text : ofLines lines = spell pieces ++ [.lineEnd]
  word : ∃ value, SpellsExpr constant ops value ∧
    pieces.filterMap Segment.lexeme? = programWord name value
  separators : ∀ piece ∈ pieces, piece.lexeme? = none → piece.IsSeparator
  touching : pieces.IsChain MayTouch

end Tree

namespace Lexical

/-- Behind a lexeme that is neither a word nor a minus, anything can stand. -/
theorem mayPrecede_of_ne {next : Option Char} {kind : Kind}
    (hword : kind ∈ wordKinds → ∀ c ∈ next, ¬ IsWordChar c)
    (hminus : kind = .minus → next ≠ some '-') : MayPrecede next kind := by
  cases kind with
  | identifier => exact hword (by decide)
  | constant => exact hword (by decide)
  | intKeyword => exact hword (by decide)
  | voidKeyword => exact hword (by decide)
  | returnKeyword => exact hword (by decide)
  | minus => exact hminus rfl
  | _ => trivial

/-- The first character of a lexeme tells words and signs apart. -/
theorem head_of_isLexeme {c : Char} {text : List Char} {kind : Kind}
    (h : IsLexeme (c :: text) kind) :
    (kind ∉ wordKinds → ¬ IsWordChar c) ∧ (kind ≠ .minus → kind ≠ .minusMinus → c ≠ '-') := by
  have hne : IsWordChar c → c ≠ '-' := by
    rintro hc rfl
    exact absurd hc (by decide)
  cases kind with
  | identifier => exact ⟨fun h => absurd (by decide) h, fun _ _ => hne (.inl h.1.1)⟩
  | constant =>
    exact ⟨fun h => absurd (by decide) h, fun _ _ => hne (.inr (h.2 c List.mem_cons_self))⟩
  | eof => cases h
  | _ => cases h; decide

/-- What a segment shows to the one before it. -/
theorem mayPrecede_of_mayTouch {kind : Kind} {text : List Char} {piece : Segment}
    (h : MayTouch (.lexeme kind text) piece) (hsep : piece.lexeme? = none → piece.IsSeparator)
    (hlex : ∀ l ∈ piece.lexeme?, IsLexeme l.text.toList l.kind ∧ l.kind ≠ .minusMinus)
    (rest : List Symbol) : MayPrecede (nextChar? (piece.symbols ++ rest)) kind := by
  cases piece with
  | blanks chars =>
    obtain ⟨hne, hblank⟩ := hsep rfl
    cases chars with
    | nil => exact absurd rfl hne
    | cons c chars =>
      have hc := hblank c List.mem_cons_self
      refine mayPrecede_of_ne (fun _ d hd => ?_) fun _ hd => ?_
      · cases hd
        exact Token.not_isWordChar_of_isBlank hc
      · cases hd
        exact absurd hc (by decide)
  | lineEnd => exact mayPrecede_none kind
  | lineComment body => cases hsep rfl
  | blockComment body =>
    refine mayPrecede_of_ne (fun _ d hd => ?_) fun _ hd => ?_
    · cases hd
      decide
    · cases hd
  | lexeme kind' text' =>
    obtain ⟨hlexeme, hminus⟩ := hlex _ rfl
    rw [String.toList_ofList] at hlexeme
    cases text' with
    | nil => exact absurd rfl (isLexeme_ne_nil hlexeme)
    | cons c text' =>
      obtain ⟨hword, hsign⟩ := head_of_isLexeme hlexeme
      obtain ⟨hwords, hsigns⟩ := h _ rfl _ rfl
      refine mayPrecede_of_ne (fun hk d hd => ?_) fun hk hd => ?_
      · cases hd
        exact hword fun hk' => hwords ⟨hk, hk'⟩
      · cases hd
        exact hsign (fun hk' => hsigns ⟨hk, hk'⟩) hminus rfl

/-- Pieces that may touch where they do are a cut of what they spell. -/
theorem fitting_of_mayTouch {pieces : List Segment}
    (hsep : ∀ piece ∈ pieces, piece.lexeme? = none → piece.IsSeparator)
    (hlex : ∀ l ∈ pieces.filterMap Segment.lexeme?,
      IsLexeme l.text.toList l.kind ∧ l.kind ≠ .minusMinus)
    (htouch : pieces.IsChain MayTouch) : Fitting [.lineEnd] pieces := by
  induction pieces with
  | nil => trivial
  | cons piece pieces ih =>
    have hlex' : ∀ q ∈ piece :: pieces, ∀ l ∈ q.lexeme?,
        IsLexeme l.text.toList l.kind ∧ l.kind ≠ .minusMinus :=
      fun q hq l hl => hlex l (List.mem_filterMap.mpr ⟨q, hq, hl⟩)
    refine ⟨?_, ih (fun q hq => hsep q (List.mem_cons_of_mem _ hq)) (fun l hl => ?_) htouch.tail⟩
    · have hpiece := hsep piece List.mem_cons_self
      cases piece with
      | blanks chars => exact hpiece rfl
      | lineEnd => trivial
      | lineComment body => cases hpiece rfl
      | blockComment body => exact hpiece rfl
      | lexeme kind text =>
        have htext := (hlex' _ List.mem_cons_self _ rfl).1
        rw [String.toList_ofList] at htext
        refine ⟨htext, ?_⟩
        cases pieces with
        | nil => exact mayPrecede_none kind
        | cons next pieces =>
          have hnext : next ∈ Segment.lexeme kind text :: next :: pieces := by simp
          rw [spell_cons, List.append_assoc]
          exact mayPrecede_of_mayTouch (List.isChain_cons_cons.mp htouch).1 (hsep next hnext)
            (hlex' next hnext) _
    · obtain ⟨q, hq, hql⟩ := List.mem_filterMap.mp hl
      exact hlex' q (List.mem_cons_of_mem _ hq) l hql

def lexemeOf? (t : Token) : Option Lexeme :=
  t.text.map (⟨t.kind, ·⟩)

/-- The tokens of a cut are its lexemes with their places. -/
theorem map_lexemeOf?_tokensFrom (p : Position) (segments : List Segment) :
    (tokensFrom p segments).map lexemeOf? = (segments.filterMap Segment.lexeme?).map some := by
  induction segments generalizing p with
  | nil => rfl
  | cons segment segments ih =>
    rw [tokensFrom, List.map_append, ih]
    cases segment <;> rfl

end Lexical

namespace Tree

theorem parse_word (d : Derivation) (eof : TokenOf .eof) (rest : List Token) :
    parse (d.word ++ eof.1 :: rest) = .ok d.tree := by
  rw [parse, bind_eq_ok_iff]
  exact ⟨_, parseFunction_eq_ok_iff.mpr ⟨d, rfl, rfl, rfl⟩,
    expect_bind_eq_ok_iff.mpr ⟨eof, rest, rfl, rfl⟩⟩

theorem SpellsExpr.isLexeme {constant : Nat} {ops : List UnaryOp} {word : List Lexeme}
    (h : SpellsExpr constant ops word) :
    ∀ l ∈ word, IsLexeme l.text.toList l.kind ∧ l.kind ≠ .minusMinus := by
  induction h with
  | constant =>
    intro l hl
    rw [List.mem_singleton.mp hl]
    exact ⟨Text.Decimal.isNumber_ofNat constant, nofun⟩
  | unary op operand ih =>
    intro l hl
    rcases List.mem_cons.mp hl with rfl | hl
    · cases op <;> decide
    · exact ih l hl
  | parens inner ih =>
    intro l hl
    simp only [List.mem_cons, List.mem_append, List.not_mem_nil, or_false] at hl
    rcases hl with rfl | hl | rfl
    · decide
    · exact ih l hl
    · decide

theorem isLexeme_programWord {name : String} (hname : IsWord name.toList)
    (hkeyword : name.toList ∉ keywords) {constant : Nat} {ops : List UnaryOp}
    {value : List Lexeme} (h : SpellsExpr constant ops value) :
    ∀ l ∈ programWord name value, IsLexeme l.text.toList l.kind ∧ l.kind ≠ .minusMinus := by
  intro l hl
  simp only [programWord, List.mem_append, List.mem_cons, List.not_mem_nil, or_false] at hl
  rcases hl with ((rfl | rfl | rfl | rfl | rfl | rfl | rfl) | hl) | (rfl | rfl)
  · decide
  · exact ⟨⟨hname, hkeyword⟩, nofun⟩
  · decide
  · decide
  · decide
  · decide
  · decide
  · exact h.isLexeme l hl
  · decide
  · decide

theorem lexemeOf?_eq_some_iff {t : Token} {l : Lexeme} :
    lexemeOf? t = some l ↔ t.kind = l.kind ∧ t.text = some l.text := by
  obtain ⟨kind, text⟩ := l
  simp only [lexemeOf?, Option.map_eq_some_iff, Lexeme.mk.injEq]
  constructor
  · rintro ⟨text', htext, hkind, rfl⟩
    exact ⟨hkind, htext⟩
  · rintro ⟨hkind, htext⟩
    exact ⟨text, htext, hkind, rfl⟩

/-- Whatever spells an expression derives from the grammar, wherever its tokens stand. -/
theorem SpellsExpr.exists_derivation {constant : Nat} (hc : constant ≤ 2147483647)
    {ops : List UnaryOp} {word : List Lexeme} (h : SpellsExpr constant ops word) :
    ∀ tokens : List Token, tokens.map lexemeOf? = word.map some →
      ∃ d : ExprDerivation, d.word = tokens ∧ d.tree.ops = ops ∧ d.tree.base.toInt = constant := by
  induction h with
  | constant =>
    intro tokens htokens
    obtain ⟨t, rfl, ht⟩ := List.map_eq_singleton_iff.mp htokens
    obtain ⟨hkind, htext⟩ := lexemeOf?_eq_some_iff.mp ht
    have hvalue : (Int32.ofInt constant).toInt = constant :=
      Int32.toInt_ofInt_of_le (by omega) (by omega)
    have hdenotes := Text.Decimal.Denotes.unsigned (Text.Decimal.isNumber_ofNat constant)
    rw [Text.Decimal.placeValue_ofNat, ← hvalue] at hdenotes
    exact ⟨.constant ⟨⟨t, hkind⟩, _, Int32.ofInt constant, htext, hdenotes⟩, rfl, rfl, hvalue⟩
  | unary op operand ih =>
    intro tokens htokens
    obtain ⟨t, tokens, rfl, ht, hrest⟩ := List.map_eq_cons_iff.mp htokens
    obtain ⟨hkind, -⟩ := lexemeOf?_eq_some_iff.mp ht
    obtain ⟨d, rfl, rfl, hbase⟩ := ih tokens hrest
    cases op with
    | negate => exact ⟨.negate ⟨t, hkind⟩ d, rfl, rfl, hbase⟩
    | complement => exact ⟨.complement ⟨t, hkind⟩ d, rfl, rfl, hbase⟩
  | parens inner ih =>
    intro tokens htokens
    obtain ⟨t, tokens, rfl, ht, hrest⟩ := List.map_eq_cons_iff.mp htokens
    rw [List.map_append] at hrest
    obtain ⟨inside, last, rfl, hinside, hlast⟩ := List.map_eq_append_iff.mp hrest
    obtain ⟨u, rfl, hu⟩ := List.map_eq_singleton_iff.mp hlast
    obtain ⟨hkind, -⟩ := lexemeOf?_eq_some_iff.mp ht
    obtain ⟨hkind', -⟩ := lexemeOf?_eq_some_iff.mp hu
    obtain ⟨d, rfl, hops, hbase⟩ := ih inside hinside
    exact ⟨.parens ⟨t, hkind⟩ d ⟨u, hkind'⟩, rfl, hops, hbase⟩

theorem exists_derivation_of_programWord {name : String} {constant : Nat}
    (hc : constant ≤ 2147483647) {ops : List UnaryOp} {value : List Lexeme}
    (h : SpellsExpr constant ops value) {tokens : List Token}
    (htokens : tokens.map lexemeOf? = (programWord name value).map some) :
    ∃ d : Derivation, d.word = tokens ∧ d.tree.function.name = name ∧
      d.tree.function.body.value.ops = ops ∧ d.tree.function.body.value.base.toInt = constant := by
  simp only [programWord, List.map_append, List.map_cons, List.map_nil, List.cons_append,
    List.nil_append, List.map_eq_cons_iff, List.map_eq_append_iff, List.map_eq_nil_iff,
    lexemeOf?_eq_some_iff] at htokens
  obtain ⟨int, _, rfl, ⟨hint, -⟩, ident, _, rfl, ⟨hident, hname⟩, openParen, _, rfl,
    ⟨hopenParen, -⟩, void, _, rfl, ⟨hvoid, -⟩, closeParen, _, rfl, ⟨hcloseParen, -⟩, openBrace, _,
    rfl, ⟨hopenBrace, -⟩, ret, _, rfl, ⟨hret, -⟩, inside, _, rfl, hinside, semicolon, _, rfl,
    ⟨hsemicolon, -⟩, closeBrace, _, rfl, ⟨hcloseBrace, -⟩, rfl⟩ := htokens
  obtain ⟨d, rfl, hops, hbase⟩ := h.exists_derivation hc inside hinside
  exact ⟨{ int := ⟨int, hint⟩, name := ⟨⟨ident, hident⟩, name, hname⟩,
           openParen := ⟨openParen, hopenParen⟩, void := ⟨void, hvoid⟩,
           closeParen := ⟨closeParen, hcloseParen⟩, openBrace := ⟨openBrace, hopenBrace⟩,
           ret := ⟨ret, hret⟩, value := d, semicolon := ⟨semicolon, hsemicolon⟩,
           closeBrace := ⟨closeBrace, hcloseBrace⟩ }, by simp [Derivation.word], rfl, hops, hbase⟩

end Tree

/-- However a program is written, its lines parse to a tree with its name, its operators and its
constant. -/
theorem compile_parse_rendering (name : String) (hname : IsWord name.toList)
    (hkeyword : name.toList ∉ keywords) (ops : List UnaryOp) (constant : Nat)
    (hc : constant ≤ 2147483647) (pieces : List Segment) (lines : List String)
    (h : Tree.Renders name ops constant pieces lines) :
    ∃ tree, compile lines .parse = .ok (.tree tree) ∧ tree.function.name = name ∧
      tree.function.body.value.ops = ops ∧ tree.function.body.value.base.toInt = constant := by
  obtain ⟨value, hvalue, hword⟩ := h.word
  have hlex := Tree.isLexeme_programWord hname hkeyword hvalue
  rw [← hword] at hlex
  have hfitting := fitting_of_mayTouch h.separators hlex h.touching
  have hcuts : Cuts (pieces ++ [.lineEnd]) lines :=
    ⟨by rw [spell_append, h.text]; rfl, fitting_append.mpr ⟨hfitting, trivial, trivial⟩⟩
  have htokens : (tokensFrom { line := 1, column := 1 } (pieces ++ [.lineEnd])).map lexemeOf? =
      (Tree.programWord name value).map some := by
    rw [map_lexemeOf?_tokensFrom, List.filterMap_append, hword]
    simp [Segment.lexeme?]
  obtain ⟨d, hd, htree⟩ := Tree.exists_derivation_of_programWord hc hvalue htokens
  have hparse := Tree.parse_word d ⟨Token.endOfInput (lines.length + 1), rfl⟩ []
  refine ⟨d.tree, compile_parse_eq_ok_iff.mpr ?_, htree⟩
  rw [parseSource, scanSource, Token.scan_of_cuts hcuts, ← hd]
  change (Tree.parse (d.word ++ [Token.endOfInput (lines.length + 1)])).mapError _ = _
  rw [hparse]
  rfl

/-- Two words with a comment between them, and minus signs apart in two ways. -/
def winding : List String :=
  ["int/* a", "*/_f1(void)\x7b return-(- -((~ 40)));", "\x7d"]

def windingPieces : List Segment :=
  [.lexeme .intKeyword ['i', 'n', 't'], .blockComment (ofChars [' ', 'a'] ++ [.lineEnd]),
    .lexeme .identifier ['_', 'f', '1'], .lexeme .openParen ['('],
    .lexeme .voidKeyword ['v', 'o', 'i', 'd'], .lexeme .closeParen [')'],
    .lexeme .openBrace ['\x7b'], .blanks [' '],
    .lexeme .returnKeyword ['r', 'e', 't', 'u', 'r', 'n'], .lexeme .minus ['-'],
    .lexeme .openParen ['('], .lexeme .minus ['-'], .blanks [' '], .lexeme .minus ['-'],
    .lexeme .openParen ['('], .lexeme .openParen ['('], .lexeme .tilde ['~'], .blanks [' '],
    .lexeme .constant ['4', '0'], .lexeme .closeParen [')'], .lexeme .closeParen [')'],
    .lexeme .closeParen [')'], .lexeme .semicolon [';'], .lineEnd, .lexeme .closeBrace ['\x7d']]

theorem compile_parse_rendering_winding :
    IsWord "_f1".toList ∧ "_f1".toList ∉ keywords ∧
    Tree.Renders "_f1" [.negate, .negate, .negate, .complement] 40 windingPieces winding ∧
    ∃ tree, compile winding .parse = .ok (.tree tree) ∧ tree.function.name = "_f1" ∧
      tree.function.body.value.ops = [.negate, .negate, .negate, .complement] ∧
      tree.function.body.value.base.toInt = 40 := by
  have hname : IsWord "_f1".toList := by decide
  have hkeyword : "_f1".toList ∉ keywords := by decide
  have hrenders : Tree.Renders "_f1" [.negate, .negate, .negate, .complement] 40 windingPieces
      winding :=
    { text := by decide
      word := ⟨_, .unary .negate (.parens (.unary .negate (.unary .negate (.parens (.parens
        (.unary .complement .constant)))))), by decide +kernel⟩
      separators := by decide
      touching := by decide }
  exact ⟨hname, hkeyword, hrenders,
    compile_parse_rendering "_f1" hname hkeyword _ 40 (by decide) _ _ hrenders⟩

end UnaryC
