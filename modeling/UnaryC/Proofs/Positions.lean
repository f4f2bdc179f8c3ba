import UnaryC.Proofs.EndOfInput
import UnaryC.Proofs.ScanError

/-!
# The lines of a syntax tree

Every token of a source text but the last is a lexeme that stands in the text at the token's line
and column, and the lines of the tokens do not decrease. A syntax tree keeps the lines of some of
its tokens, in their order. So they do not decrease either, from the line of the function to that of
the constant, and on each of them stands what the node was read from.
-/
namespace UnaryC

namespace Lexical

/-- The characters stand on the line with that number, counted from 1. -/
def OnLine (lines : List String) (number : Nat) (chars : List Char) : Prop :=
  ∃ i line, number = i + 1 ∧ lines[i]? = some line ∧ chars <:+: line.toList

theorem OnLine.bounds {lines : List String} {number : Nat} {chars : List Char}
    (h : OnLine lines number chars) : 1 ≤ number ∧ number ≤ lines.length := by
  obtain ⟨i, line, rfl, hline, -⟩ := h
  obtain ⟨hi, -⟩ := List.getElem?_eq_some_iff.mp hline
  omega

theorem Spot.onLine (s : Spot) {chars : List Char} (h : chars <+: s.right) :
    OnLine s.lines s.position.line chars := by
  refine ⟨s.earlier.length, String.ofList (s.left ++ s.right), rfl, by simp [lines], ?_⟩
  rw [String.toList_ofList]
  exact List.infix_append_of_infix_right h.isInfix

theorem Position.line_le_after (p : Position) (text : List Symbol) :
    p.line ≤ (p.after text).line := by
  induction text generalizing p with
  | nil => exact Nat.le_refl _
  | cons symbol text ih =>
    have hnext : p.line ≤ (p.next symbol).line := by cases symbol <;> simp [next]
    exact hnext.trans (ih (p.next symbol))

/-- The tokens of segments do not stand above the first segment, and their lines do not decrease. -/
theorem pairwise_tokensFrom (p : Position) (segments : List Segment) :
    (∀ t ∈ tokensFrom p segments, p.line ≤ t.line) ∧
      (tokensFrom p segments).Pairwise fun t u => t.line ≤ u.line := by
  induction segments generalizing p with
  | nil => simp [tokensFrom]
  | cons segment segments ih =>
    obtain ⟨hbelow, hordered⟩ := ih (p.after segment.symbols)
    have hrest : ∀ t ∈ tokensFrom (p.after segment.symbols) segments, p.line ≤ t.line :=
      fun t ht => (p.line_le_after segment.symbols).trans (hbelow t ht)
    cases segment with
    | lexeme kind text =>
      exact ⟨List.forall_mem_cons.mpr ⟨Nat.le_refl _, hrest⟩,
        List.pairwise_cons.mpr ⟨hrest, hordered⟩⟩
    | _ => exact ⟨hrest, hordered⟩

/-- Every token of a cut comes from a lexeme of it, and has the position behind all before that. -/
theorem exists_lexeme_of_mem_tokensFrom {p : Position} {segments : List Segment} {t : Token}
    (h : t ∈ tokensFrom p segments) :
    ∃ before kind text behind, segments = before ++ .lexeme kind text :: behind ∧
      (Segment.lexeme kind text).token? (p.after (spell before)) = some t := by
  induction segments generalizing p with
  | nil => cases h
  | cons segment segments ih =>
    rcases List.mem_append.mp h with hhead | hrest
    · cases segment with
      | lexeme kind text => exact ⟨[], kind, text, segments, rfl, Option.mem_toList.mp hhead⟩
      | _ => cases hhead
    · obtain ⟨before, kind, text, behind, rfl, ht⟩ := ih hrest
      refine ⟨segment :: before, kind, text, behind, rfl, ?_⟩
      rwa [spell_cons, Position.after_append]

/-- A lexeme of a cut stands in the text, behind everything before it. -/
theorem Cuts.exists_spot {before behind : List Segment} {kind : Token.Kind} {text : List Char}
    {lines : List String} (h : Cuts (before ++ .lexeme kind text :: behind) lines) :
    ∃ s : Spot, s.lines = lines ∧ s.before = spell before ∧ text <+: s.right := by
  obtain ⟨hspells, hfitting⟩ := h
  obtain ⟨hbefore, hlexeme, -⟩ := fitting_append.mp hfitting
  rw [spell_append, spell_cons] at hspells
  rw [List.append_nil] at hbefore
  obtain ⟨lines', htail, -⟩ :=
    Token.scanAt_spell before hbefore lines hspells.symm { line := 1, column := 1 }
  cases lines' with
  | nil =>
    have hnil := (List.append_eq_nil_iff.mp htail).1
    exact absurd hnil hlexeme.symbols_ne_nil
  | cons line later =>
    have hlines : ofLines lines = spell before ++ ofLines (String.ofList line.toList :: later) := by
      rw [String.ofList_toList, ← htail, ← hspells]
      rfl
    obtain ⟨s, hs, hsbefore, hright, -⟩ := Lexical.exists_spot hlines
    rw [ofLines_cons] at htail
    obtain ⟨text', hline, -⟩ := ofChars_append_eq htail
    exact ⟨s, hs, hsbefore, text', by rw [hright, hline]⟩

end Lexical

open Lexical

namespace Token

/-- The token is a lexeme that stands in the lines at the token's place. -/
def StandsIn (lines : List String) (t : Token) : Prop :=
  ∃ (text : String) (s : Spot), t.text = some text ∧ IsLexeme text.toList t.kind ∧
    s.lines = lines ∧ s.position = { line := t.line, column := t.column } ∧ text.toList <+: s.right

theorem StandsIn.exists_text {lines : List String} {t : Token} (h : t.StandsIn lines) :
    ∃ text, t.text = some text ∧ IsLexeme text.toList t.kind ∧
      OnLine lines t.line text.toList := by
  obtain ⟨text, s, htext, hlexeme, rfl, hposition, hright⟩ := h
  have honLine := s.onLine hright
  rw [hposition] at honLine
  exact ⟨text, htext, hlexeme, honLine⟩

/-- A token whose kind has one text only. -/
theorem StandsIn.onLine {lines : List String} {t : Token} (h : t.StandsIn lines) {kind : Kind}
    (hkind : t.kind = kind) {chars : List Char}
    (hchars : ∀ text, IsLexeme text kind → text = chars) : OnLine lines t.line chars := by
  obtain ⟨text, -, hlexeme, honLine⟩ := h.exists_text
  rwa [hchars text.toList (hkind ▸ hlexeme)] at honLine

/-- The tokens of a cut stand in the lines that are cut. -/
theorem standsIn_of_cuts {lines : List String} {segments : List Segment} (h : Cuts segments lines)
    {t : Token} (ht : t ∈ tokensFrom { line := 1, column := 1 } segments) : t.StandsIn lines := by
  obtain ⟨before, kind, text, behind, rfl, htoken⟩ := exists_lexeme_of_mem_tokensFrom ht
  obtain ⟨s, hlines, hbefore, hright⟩ := h.exists_spot
  have hlexeme := (fitting_append.mp h.fitting).2.1.1
  rw [← hbefore, s.after_before] at htoken
  cases htoken
  refine ⟨String.ofList text, s, rfl, ?_, hlines, rfl, ?_⟩
  · rwa [String.toList_ofList]
  · rwa [String.toList_ofList]

/-- All tokens of the source lines but the end of input stand in these lines. -/
theorem standsIn_of_scan {lines : List String} {tokens : List Token} (h : scan lines = .ok tokens)
    {t : Token} (ht : t ∈ tokens) (hkind : t.kind ≠ .eof) : t.StandsIn lines := by
  obtain ⟨segments, hcuts, rfl⟩ := exists_cuts_of_scan h
  rcases List.mem_append.mp ht with ht | ht
  · exact standsIn_of_cuts hcuts ht
  · rw [List.mem_singleton.mp ht] at hkind
    exact absurd rfl hkind

/-- The lines of the tokens do not decrease. -/
theorem pairwise_line_of_scan {lines : List String} {tokens : List Token}
    (h : scan lines = .ok tokens) : tokens.Pairwise fun t u => t.line ≤ u.line := by
  obtain ⟨segments, hcuts, rfl⟩ := exists_cuts_of_scan h
  refine List.pairwise_append.mpr
    ⟨(pairwise_tokensFrom _ segments).2, List.pairwise_singleton _ _, fun t ht u hu => ?_⟩
  obtain ⟨text, -, -, honLine⟩ := (standsIn_of_cuts hcuts ht).exists_text
  rw [List.mem_singleton.mp hu]
  exact honLine.bounds.2.trans (Nat.le_succ _)

end Token

namespace Tree

/-- The lines of an expression's nodes, outermost first; the last one is the constant's. -/
def Expr.lines : Expr → List Nat
  | constant _ line => [line]
  | unary _ operand line => line :: operand.lines

/-- The lines of the function, of the return and of the expression. -/
def Program.lines (p : Program) : List Nat :=
  p.function.line :: p.function.body.line :: p.function.body.value.lines

/-- What the nodes were read from stands on their lines: signs, and digits with the value of the
constant. -/
def Expr.StandsIn (lines : List String) : Expr → Prop
  | constant value line => ∃ digits, IsNumber digits ∧
      value.toInt = Text.Decimal.placeValue digits ∧ OnLine lines line digits
  | unary op operand line =>
      OnLine lines line (signOf op).text.toList ∧ operand.StandsIn lines

/-- The same of a program. Its name stands somewhere between its first two words. -/
structure Program.StandsIn (lines : List String) (p : Program) : Prop where
  int : OnLine lines p.line ['i', 'n', 't']
  name : ∃ number, p.line ≤ number ∧ number ≤ p.function.body.line ∧
    OnLine lines number p.function.name.toList
  ret : OnLine lines p.function.body.line ['r', 'e', 't', 'u', 'r', 'n']
  value : p.function.body.value.StandsIn lines

namespace ExprDerivation

/-- The lines of an expression are lines of its tokens, in their order. -/
theorem lines_sublist (d : ExprDerivation) :
    d.tree.lines.Sublist (d.word.map Token.line) := by
  induction d with
  | constant c => exact .refl _
  | negate sign operand ih => exact ih.cons_cons _
  | complement sign operand ih => exact ih.cons_cons _
  | parens opening inner closing ih =>
    rw [word, List.map_cons, List.map_append]
    exact (ih.trans (List.sublist_append_left _ _)).cons _

theorem standsIn {lines : List String} (d : ExprDerivation)
    (h : ∀ t ∈ d.word, t.StandsIn lines) : d.tree.StandsIn lines := by
  induction d with
  | constant c =>
    obtain ⟨text, htext, hlexeme, honLine⟩ := (h _ List.mem_cons_self).exists_text
    obtain rfl : c.text = text := Option.some.inj (c.text_eq.symm.trans htext)
    have hnumber : IsNumber c.text.toList := by rwa [c.token.2] at hlexeme
    exact ⟨c.text.toList, hnumber,
      (Text.Decimal.denotes_iff_of_isNumber hnumber).mp c.denotes, honLine⟩
  | negate sign operand ih =>
    obtain ⟨hsign, hoperand⟩ := List.forall_mem_cons.mp h
    exact ⟨hsign.onLine sign.2 fun _ h => h, ih hoperand⟩
  | complement sign operand ih =>
    obtain ⟨hsign, hoperand⟩ := List.forall_mem_cons.mp h
    exact ⟨hsign.onLine sign.2 fun _ h => h, ih hoperand⟩
  | parens opening inner closing ih =>
    exact ih fun t ht => h t (List.mem_cons_of_mem _ (List.mem_append_left _ ht))

end ExprDerivation

/-- The lines of a program's nodes and of its name are lines of its tokens, in their order. -/
theorem Derivation.lines_sublist (d : Derivation) :
    (d.int.1.line :: d.name.token.1.line :: d.ret.1.line :: d.value.tree.lines).Sublist
      (d.word.map Token.line) := by
  have hvalue := d.value.lines_sublist.trans (List.sublist_append_left _
    ([d.semicolon.1, d.closeBrace.1].map Token.line))
  rw [word, List.append_assoc, List.map_append, List.map_append]
  have hbody := ((((hvalue.cons_cons d.ret.1.line).cons d.openBrace.1.line).cons
    d.closeParen.1.line).cons d.void.1.line).cons d.openParen.1.line
  exact (hbody.cons_cons d.name.token.1.line).cons_cons d.int.1.line

theorem Expr.StandsIn.base_nonneg {lines : List String} {e : Expr} (h : e.StandsIn lines) :
    0 ≤ e.base.toInt := by
  induction e with
  | constant value line =>
    obtain ⟨digits, -, hvalue, -⟩ := h
    exact hvalue ▸ Int.natCast_nonneg _
  | unary op operand line ih => exact ih h.2

end Tree

/-- The tree of source lines has a name that is a word and no keyword, and a constant that is not
negative. Its lines are lines of the source. They do not decrease from the function to the return,
to the operators from the outermost to the innermost, and to the constant, and on each of them
stands what the node was read from. -/
theorem compile_parse_positions (lines : List String) (program : Tree.Program)
    (h : compile lines .parse = .ok (.tree program)) :
    (IsWord program.function.name.toList ∧ program.function.name.toList ∉ keywords) ∧
    (0 ≤ program.function.body.value.base.toInt ∧
      program.function.body.value.base.toInt ≤ 2147483647) ∧
    program.line = program.function.line ∧
    (program.lines.Pairwise (· ≤ ·) ∧ ∀ n ∈ program.lines, 1 ≤ n ∧ n ≤ lines.length) ∧
    program.StandsIn lines := by
  obtain ⟨tokens, hscan, hparse⟩ :=
    exists_tokens_of_parseSource (r := .ok program) (compile_parse_eq_ok_iff.mp h)
  obtain ⟨d, eof, rest, rfl, rfl⟩ := Tree.exists_derivation_of_parse hparse
  have hstands : ∀ t ∈ d.word, t.StandsIn lines := fun t ht =>
    Token.standsIn_of_scan hscan (List.mem_append_left _ ht) (d.kind_ne_eof t ht)
  have hordered : (d.word.map Token.line).Pairwise (· ≤ ·) :=
    List.pairwise_map.mpr (List.pairwise_append.mp (Token.pairwise_line_of_scan hscan)).1
  have hbounds : ∀ n ∈ d.word.map Token.line, 1 ≤ n ∧ n ≤ lines.length := by
    intro n hn
    obtain ⟨t, ht, rfl⟩ := List.mem_map.mp hn
    obtain ⟨text, -, -, honLine⟩ := (hstands t ht).exists_text
    exact honLine.bounds
  have hint := hstands d.int.1 (by simp [Tree.Derivation.word])
  have hret := hstands d.ret.1 (by simp [Tree.Derivation.word])
  have hname := hstands d.name.token.1 (by simp [Tree.Derivation.word])
  have hvalue := d.value.standsIn fun t ht => hstands t (by simp [Tree.Derivation.word, ht])
  obtain ⟨text, htext, hlexeme, honLine⟩ := hname.exists_text
  obtain rfl : d.name.name = text := Option.some.inj (d.name.text_eq.symm.trans htext)
  rw [d.name.token.2] at hlexeme
  have hsigned := hordered.sublist d.lines_sublist
  have hnodes : d.tree.lines.Sublist (d.word.map Token.line) :=
    ((List.sublist_cons_self d.name.token.1.line _).cons_cons _).trans d.lines_sublist
  obtain ⟨hfirst, hsecond⟩ := List.pairwise_cons.mp hsigned
  refine ⟨hlexeme, ⟨hvalue.base_nonneg, Int.le_of_lt_add_one d.value.tree.base.toInt_lt⟩, rfl,
    ⟨hordered.sublist hnodes, fun n hn => hbounds n (hnodes.subset hn)⟩, ?_⟩
  exact
    { int := hint.onLine d.int.2 fun _ h => h
      name := ⟨d.name.token.1.line, hfirst _ List.mem_cons_self,
        (List.pairwise_cons.mp hsecond).1 _ List.mem_cons_self, honLine⟩
      ret := hret.onLine d.ret.2 fun _ h => h
      value := hvalue }

/-- Words, signs and digits on lines of their own, with others like them in comments. -/
def spread : List String :=
  ["// int", "int/* f */", "main(void)\x7b", "return", "-", "/* - */ (~", "  007) ; // 7", "\x7d"]

def spreadTree : Tree.Program :=
  { function :=
      { name := "main"
        body := { value := .unary .negate (.unary .complement (.constant 7 7) 6) 5, line := 4 }
        line := 2 }
    line := 2 }

theorem compile_parse_positions_spread :
    compile spread .parse = .ok (.tree spreadTree) ∧ spreadTree.lines = [2, 4, 5, 6, 7] ∧
      spreadTree.lines.Pairwise (· ≤ ·) ∧ spreadTree.StandsIn spread := by
  have hparse : compile spread .parse = .ok (.tree spreadTree) := by decide +kernel
  obtain ⟨-, -, -, ⟨hordered, -⟩, hstands⟩ := compile_parse_positions spread spreadTree hparse
  exact ⟨hparse, rfl, hordered, hstands⟩

end UnaryC
