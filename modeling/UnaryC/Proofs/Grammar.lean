import UnaryC.Proofs.Numeral
import UnaryC.Proofs.Reader

/-!
# The grammar of programs

A derivation is given by its tokens, one for each place of the grammar's rules. Its word is these
tokens from left to right, and its tree what is left of it without parentheses and punctuation. The
parser accepts the words of derivations, with an end of input behind them, and returns their trees.
No word has two derivations, as none is the beginning of another.
-/
namespace UnaryC.Tree

open Token (Kind)
open Text.Decimal (Denotes)

def TokenOf (kind : Kind) : Type :=
  { t : Token // t.kind = kind }

/-- A constant with the value that its text denotes. -/
structure ConstantToken where
  token : TokenOf .constant
  text : String
  value : Int32
  text_eq : token.1.text = some text
  denotes : Denotes text.toList value.toInt

structure NameToken where
  token : TokenOf .identifier
  name : String
  text_eq : token.1.text = some name

inductive ExprDerivation where
  | constant (constant : ConstantToken)
  | negate (sign : TokenOf .minus) (operand : ExprDerivation)
  | complement (sign : TokenOf .tilde) (operand : ExprDerivation)
  | parens (opening : TokenOf .openParen) (inner : ExprDerivation) (closing : TokenOf .closeParen)

namespace ExprDerivation

def word : ExprDerivation → List Token
  | constant c => [c.token.1]
  | negate sign operand => sign.1 :: operand.word
  | complement sign operand => sign.1 :: operand.word
  | parens opening inner closing => opening.1 :: (inner.word ++ [closing.1])

def tree : ExprDerivation → Expr
  | constant c => .constant c.value c.token.1.line
  | negate sign operand => .unary .negate operand.tree sign.1.line
  | complement sign operand => .unary .complement operand.tree sign.1.line
  | parens _ inner _ => inner.tree

/-- The kind of the first token. -/
def headKind : ExprDerivation → Kind
  | constant _ => .constant
  | negate _ _ => .minus
  | complement _ _ => .tilde
  | parens _ _ _ => .openParen

end ExprDerivation

structure Derivation where
  int : TokenOf .intKeyword
  name : NameToken
  openParen : TokenOf .openParen
  void : TokenOf .voidKeyword
  closeParen : TokenOf .closeParen
  openBrace : TokenOf .openBrace
  ret : TokenOf .returnKeyword
  value : ExprDerivation
  semicolon : TokenOf .semicolon
  closeBrace : TokenOf .closeBrace

namespace Derivation

def word (d : Derivation) : List Token :=
  [d.int.1, d.name.token.1, d.openParen.1, d.void.1, d.closeParen.1, d.openBrace.1, d.ret.1] ++
    d.value.word ++ [d.semicolon.1, d.closeBrace.1]

def tree (d : Derivation) : Program :=
  { function :=
      { name := d.name.name
        body := { value := d.value.tree, line := d.ret.1.line }
        line := d.int.1.line }
    line := d.int.1.line }

end Derivation

theorem bind_eq_ok_iff {α β : Type} {x : Except ParseError α} {f : α → Except ParseError β}
    {b : β} : (x >>= f) = .ok b ↔ ∃ a, x = .ok a ∧ f a = .ok b := by
  cases x with
  | error e => simp [bind, Except.bind]
  | ok a => simp [bind, Except.bind]

theorem expect_eq_ok_iff {line line' : Nat} {kind : Kind} {tokens rest : List Token} {t : Token} :
    expect line kind tokens = .ok (t, line', rest) ↔
      t.kind = kind ∧ line' = t.line ∧ tokens = t :: rest := by
  cases tokens with
  | nil => simp [expect]
  | cons u tokens =>
    rw [expect]
    split
    next hu =>
      simp only [Except.ok.injEq, Prod.mk.injEq, List.cons.injEq]
      constructor
      · rintro ⟨rfl, rfl, rfl⟩
        exact ⟨hu, rfl, rfl, rfl⟩
      · rintro ⟨-, rfl, rfl, rfl⟩
        exact ⟨rfl, rfl, rfl⟩
    next hu =>
      simp only [reduceCtorEq, List.cons.injEq, false_iff]
      rintro ⟨ht, -, rfl, -⟩
      exact hu ht

/-- A run that expects a token goes on behind it. -/
theorem expect_bind_eq_ok_iff {β : Type} {line : Nat} {kind : Kind} {tokens : List Token}
    {f : Token × Nat × List Token → Except ParseError β} {b : β} :
    (expect line kind tokens >>= f) = .ok b ↔
      ∃ (t : TokenOf kind) (rest : List Token),
        tokens = t.1 :: rest ∧ f (t.1, t.1.line, rest) = .ok b := by
  rw [bind_eq_ok_iff]
  constructor
  · rintro ⟨⟨t, line', rest⟩, hexpect, h⟩
    obtain ⟨hkind, rfl, rfl⟩ := expect_eq_ok_iff.mp hexpect
    exact ⟨⟨t, hkind⟩, rest, rfl, h⟩
  · rintro ⟨t, rest, rfl, h⟩
    exact ⟨(t.1, t.1.line, rest), expect_eq_ok_iff.mpr ⟨t.2, rfl, rfl⟩, h⟩

theorem parseIdentifier_eq_ok_iff {line line' : Nat} {tokens rest : List Token} {name : String} :
    parseIdentifier line tokens = .ok (name, line', rest) ↔
      ∃ n : NameToken, n.name = name ∧ line' = n.token.1.line ∧ tokens = n.token.1 :: rest := by
  rw [parseIdentifier, expect_bind_eq_ok_iff]
  constructor
  · rintro ⟨t, rest', rfl, h⟩
    cases htext : t.1.text with
    | none => simp [htext, throw, throwThe, MonadExceptOf.throw] at h
    | some text =>
      simp only [htext, pure, Except.pure, Except.ok.injEq, Prod.mk.injEq] at h
      obtain ⟨rfl, rfl, rfl⟩ := h
      exact ⟨⟨t, text, htext⟩, rfl, rfl, rfl⟩
  · rintro ⟨n, rfl, rfl, rfl⟩
    exact ⟨n.token, rest, rfl, by simp only [n.text_eq]; rfl⟩

theorem constantValue?_eq_some_iff {t : Token} {value : Int32} :
    constantValue? t = some value ↔
      ∃ text, t.text = some text ∧ Denotes text.toList value.toInt := by
  simp only [constantValue?, Option.bind_eq_some_iff, Text.Decimal.readInt32?_eq_some_iff]

/-- An expression is read off the head of the tokens, whatever follows it. -/
theorem parseExpr_word (line : Nat) (d : ExprDerivation) (rest : List Token) :
    parseExpr line (d.word ++ rest) = .ok (d.tree, lineAfter line d.word, rest) := by
  induction d generalizing line rest with
  | constant c =>
    have hvalue : constantValue? c.token.1 = some c.value :=
      constantValue?_eq_some_iff.mpr ⟨c.text, c.text_eq, c.denotes⟩
    simp only [ExprDerivation.word, List.cons_append, List.nil_append, parseExpr, c.token.2, hvalue]
    rfl
  | negate sign operand ih =>
    simp only [ExprDerivation.word, List.cons_append, parseExpr, sign.2, ih]
    rfl
  | complement sign operand ih =>
    simp only [ExprDerivation.word, List.cons_append, parseExpr, sign.2, ih]
    rfl
  | parens opening inner closing ih =>
    simp only [ExprDerivation.word, List.cons_append, List.append_assoc, List.nil_append, parseExpr,
      opening.2, ih]
    refine bind_eq_ok_iff.mpr ⟨_, rfl, ?_⟩
    refine expect_bind_eq_ok_iff.mpr ⟨closing, rest, rfl, ?_⟩
    rw [← List.cons_append, lineAfter_append]
    rfl

/-- Whatever is read as an expression has a derivation. -/
theorem exists_exprDerivation {tokens : List Token} :
    ∀ {line line' : Nat} {expr : Expr} {rest : List Token},
      parseExpr line tokens = .ok (expr, line', rest) →
        ∃ d : ExprDerivation, d.tree = expr ∧ tokens = d.word ++ rest := by
  induction tokens with
  | nil =>
    intro line line' expr rest h
    cases h
  | cons t tokens ih =>
    intro line line' expr rest h
    rw [parseExpr] at h
    split at h
    next hkind =>
      split at h
      next value hvalue =>
        cases h
        obtain ⟨text, htext, hdenotes⟩ := constantValue?_eq_some_iff.mp hvalue
        exact ⟨.constant ⟨⟨t, hkind⟩, text, value, htext, hdenotes⟩, rfl, rfl⟩
      next => cases h
    next hkind =>
      obtain ⟨⟨inner, line₁, rest₁⟩, hinner, hclose⟩ := bind_eq_ok_iff.mp h
      obtain ⟨closing, rest₂, rfl, hreturn⟩ := expect_bind_eq_ok_iff.mp hclose
      obtain ⟨d, rfl, rfl⟩ := ih hinner
      cases hreturn
      exact ⟨.parens ⟨t, hkind⟩ d closing, rfl, by simp [ExprDerivation.word]⟩
    next hkind =>
      obtain ⟨⟨operand, line₁, rest₁⟩, hoperand, hreturn⟩ := bind_eq_ok_iff.mp h
      obtain ⟨d, rfl, rfl⟩ := ih hoperand
      cases hreturn
      exact ⟨.negate ⟨t, hkind⟩ d, rfl, rfl⟩
    next hkind =>
      obtain ⟨⟨operand, line₁, rest₁⟩, hoperand, hreturn⟩ := bind_eq_ok_iff.mp h
      obtain ⟨d, rfl, rfl⟩ := ih hoperand
      cases hreturn
      exact ⟨.complement ⟨t, hkind⟩ d, rfl, rfl⟩
    next => cases h
    next => cases h

theorem parseExpr_eq_ok_iff {line line' : Nat} {tokens rest : List Token} {expr : Expr} :
    parseExpr line tokens = .ok (expr, line', rest) ↔
      ∃ d : ExprDerivation,
        d.tree = expr ∧ line' = lineAfter line d.word ∧ tokens = d.word ++ rest := by
  constructor
  · intro h
    obtain ⟨d, rfl, rfl⟩ := exists_exprDerivation h
    rw [parseExpr_word] at h
    cases h
    exact ⟨d, rfl, rfl, rfl⟩
  · rintro ⟨d, rfl, rfl, rfl⟩
    exact parseExpr_word line d rest

theorem parseReturn_eq_ok_iff {line line' : Nat} {tokens rest : List Token} {body : Return} :
    parseReturn line tokens = .ok (body, line', rest) ↔
      ∃ (ret : TokenOf .returnKeyword) (d : ExprDerivation) (semicolon : TokenOf .semicolon),
        { value := d.tree, line := ret.1.line } = body ∧ line' = semicolon.1.line ∧
          tokens = ret.1 :: (d.word ++ semicolon.1 :: rest) := by
  rw [parseReturn, expect_bind_eq_ok_iff]
  constructor
  · rintro ⟨ret, rest₁, rfl, h⟩
    obtain ⟨⟨value, line₂, rest₂⟩, hvalue, hsemicolon⟩ := bind_eq_ok_iff.mp h
    obtain ⟨d, rfl, rfl, rfl⟩ := parseExpr_eq_ok_iff.mp hvalue
    obtain ⟨semicolon, rest₃, rfl, hreturn⟩ := expect_bind_eq_ok_iff.mp hsemicolon
    cases hreturn
    exact ⟨ret, d, semicolon, rfl, rfl, rfl⟩
  · rintro ⟨ret, d, semicolon, rfl, rfl, rfl⟩
    refine ⟨ret, _, rfl, bind_eq_ok_iff.mpr ⟨_, parseExpr_word _ d _, ?_⟩⟩
    exact expect_bind_eq_ok_iff.mpr ⟨semicolon, rest, rfl, rfl⟩

theorem parseFunction_eq_ok_iff {line line' : Nat} {tokens rest : List Token}
    {function : Function} :
    parseFunction line tokens = .ok (function, line', rest) ↔
      ∃ d : Derivation, d.tree.function = function ∧ line' = d.closeBrace.1.line ∧
        tokens = d.word ++ rest := by
  rw [parseFunction]
  simp only [expect_bind_eq_ok_iff]
  constructor
  · rintro ⟨int, rest₁, rfl, h⟩
    obtain ⟨⟨name, line₂, rest₂⟩, hname, hsignature⟩ := bind_eq_ok_iff.mp h
    obtain ⟨name, rfl, rfl, rfl⟩ := parseIdentifier_eq_ok_iff.mp hname
    simp only [expect_bind_eq_ok_iff] at hsignature
    obtain ⟨openParen, _, rfl, void, _, rfl, closeParen, _, rfl, openBrace, _, rfl, hbraces⟩ :=
      hsignature
    obtain ⟨⟨body, line₃, rest₃⟩, hbody, hclose⟩ := bind_eq_ok_iff.mp hbraces
    obtain ⟨ret, value, semicolon, rfl, rfl, rfl⟩ := parseReturn_eq_ok_iff.mp hbody
    obtain ⟨closeBrace, rest₄, rfl, hreturn⟩ := expect_bind_eq_ok_iff.mp hclose
    cases hreturn
    exact ⟨⟨int, name, openParen, void, closeParen, openBrace, ret, value, semicolon, closeBrace⟩,
      rfl, rfl, by simp [Derivation.word]⟩
  · rintro ⟨d, rfl, rfl, rfl⟩
    have hword : d.word ++ rest =
        d.int.1 :: d.name.token.1 :: d.openParen.1 :: d.void.1 :: d.closeParen.1 :: d.openBrace.1 ::
          d.ret.1 :: (d.value.word ++ d.semicolon.1 :: d.closeBrace.1 :: rest) := by
      simp [Derivation.word]
    refine ⟨d.int, _, hword, bind_eq_ok_iff.mpr ⟨_, parseIdentifier_eq_ok_iff.mpr
      ⟨d.name, rfl, rfl, rfl⟩, ?_⟩⟩
    simp only [expect_bind_eq_ok_iff]
    refine ⟨d.openParen, _, rfl, d.void, _, rfl, d.closeParen, _, rfl, d.openBrace, _, rfl,
      bind_eq_ok_iff.mpr
        ⟨_, parseReturn_eq_ok_iff.mpr ⟨d.ret, d.value, d.semicolon, rfl, rfl, rfl⟩, ?_⟩⟩
    exact expect_bind_eq_ok_iff.mpr ⟨d.closeBrace, rest, rfl, rfl⟩

theorem ConstantToken.eq_of_token {c c' : ConstantToken} (h : c.token.1 = c'.token.1) : c = c' := by
  obtain ⟨token, text, value, htext, hdenotes⟩ := c
  obtain ⟨token', text', value', htext', hdenotes'⟩ := c'
  obtain rfl : token = token' := Subtype.ext h
  obtain rfl : text = text' := Option.some.inj (htext.symm.trans htext')
  have hread := Text.Decimal.readInt32?_eq_some_iff.mpr hdenotes
  rw [Text.Decimal.readInt32?_eq_some_iff.mpr hdenotes'] at hread
  cases hread
  rfl

theorem NameToken.eq_of_token {n n' : NameToken} (h : n.token.1 = n'.token.1) : n = n' := by
  obtain ⟨token, name, hname⟩ := n
  obtain ⟨token', name', hname'⟩ := n'
  obtain rfl : token = token' := Subtype.ext h
  obtain rfl : name = name' := Option.some.inj (hname.symm.trans hname')
  rfl

theorem ExprDerivation.head_word (d : ExprDerivation) (rest : List Token) :
    (d.word ++ rest).head?.map Token.kind = some d.headKind := by
  cases d with
  | constant c => exact congrArg some c.token.2
  | negate sign operand => exact congrArg some sign.2
  | complement sign operand => exact congrArg some sign.2
  | parens opening inner closing => exact congrArg some opening.2

theorem ExprDerivation.headKind_eq {d d' : ExprDerivation} {rest rest' : List Token}
    (h : d.word ++ rest = d'.word ++ rest') : d.headKind = d'.headKind := by
  have hhead := d.head_word rest
  rw [h, head_word] at hhead
  exact (Option.some.inj hhead).symm

/-- Expressions at the head of the same tokens have the same derivation. -/
theorem ExprDerivation.word_append_injective (d : ExprDerivation) :
    ∀ {d' : ExprDerivation} {rest rest' : List Token}, d.word ++ rest = d'.word ++ rest' →
      d = d' ∧ rest = rest' := by
  induction d with
  | constant c =>
    intro d' rest rest' h
    have hkind := headKind_eq h
    cases d' with
    | constant c' =>
      obtain ⟨hhead, hrest⟩ := List.cons.inj h
      exact ⟨congrArg _ (ConstantToken.eq_of_token hhead), hrest⟩
    | _ => cases hkind
  | negate sign operand ih =>
    intro d' rest rest' h
    have hkind := headKind_eq h
    cases d' with
    | negate sign' operand' =>
      obtain ⟨hhead, htail⟩ := List.cons.inj h
      obtain ⟨rfl, hrest⟩ := ih htail
      exact ⟨congrArg (negate · operand) (Subtype.ext hhead), hrest⟩
    | _ => cases hkind
  | complement sign operand ih =>
    intro d' rest rest' h
    have hkind := headKind_eq h
    cases d' with
    | complement sign' operand' =>
      obtain ⟨hhead, htail⟩ := List.cons.inj h
      obtain ⟨rfl, hrest⟩ := ih htail
      exact ⟨congrArg (complement · operand) (Subtype.ext hhead), hrest⟩
    | _ => cases hkind
  | parens opening inner closing ih =>
    intro d' rest rest' h
    have hkind := headKind_eq h
    cases d' with
    | parens opening' inner' closing' =>
      simp only [word, List.cons_append, List.append_assoc, List.nil_append, List.cons.injEq] at h
      obtain ⟨hhead, htail⟩ := h
      obtain ⟨rfl, hclose⟩ := ih htail
      obtain ⟨hclosing, hrest⟩ := List.cons.inj hclose
      obtain rfl : opening = opening' := Subtype.ext hhead
      obtain rfl : closing = closing' := Subtype.ext hclosing
      exact ⟨rfl, hrest⟩
    | _ => cases hkind

theorem Derivation.word_append_injective {d d' : Derivation} {rest rest' : List Token}
    (h : d.word ++ rest = d'.word ++ rest') : d = d' ∧ rest = rest' := by
  obtain ⟨int, name, openParen, void, closeParen, openBrace, ret, value, semicolon, closeBrace⟩ := d
  obtain ⟨int', name', openParen', void', closeParen', openBrace', ret', value', semicolon',
    closeBrace'⟩ := d'
  simp only [word, List.cons_append, List.append_assoc, List.nil_append, List.cons.injEq] at h
  obtain ⟨hint, hname, hopenParen, hvoid, hcloseParen, hopenBrace, hret, htail⟩ := h
  obtain ⟨rfl, hend⟩ := value.word_append_injective htail
  simp only [List.cons.injEq] at hend
  obtain ⟨hsemicolon, hcloseBrace, hrest⟩ := hend
  obtain rfl : int = int' := Subtype.ext hint
  obtain rfl : name = name' := NameToken.eq_of_token hname
  obtain rfl : openParen = openParen' := Subtype.ext hopenParen
  obtain rfl : void = void' := Subtype.ext hvoid
  obtain rfl : closeParen = closeParen' := Subtype.ext hcloseParen
  obtain rfl : openBrace = openBrace' := Subtype.ext hopenBrace
  obtain rfl : ret = ret' := Subtype.ext hret
  obtain rfl : semicolon = semicolon' := Subtype.ext hsemicolon
  obtain rfl : closeBrace = closeBrace' := Subtype.ext hcloseBrace
  exact ⟨rfl, hrest⟩

/-- The parser accepts the tokens that begin with the word of a derivation and an end of input, and
returns the derivation's tree. There is one such derivation at most. -/
theorem parse_eq_ok_iff_derivation (tokens : List Token) :
    (∀ program, parse tokens = .ok program ↔
      ∃ (d : Derivation) (eof : TokenOf .eof) (rest : List Token),
        tokens = d.word ++ eof.1 :: rest ∧ program = d.tree) ∧
    ∀ (d d' : Derivation) (eof eof' : TokenOf .eof) (rest rest' : List Token),
      tokens = d.word ++ eof.1 :: rest → tokens = d'.word ++ eof'.1 :: rest' →
        d = d' ∧ eof = eof' ∧ rest = rest' := by
  constructor
  · intro program
    rw [parse, bind_eq_ok_iff]
    constructor
    · rintro ⟨⟨function, line, rest⟩, hfunction, h⟩
      obtain ⟨eof, rest', rfl, hreturn⟩ := expect_bind_eq_ok_iff.mp h
      obtain ⟨d, rfl, rfl, rfl⟩ := parseFunction_eq_ok_iff.mp hfunction
      cases hreturn
      exact ⟨d, eof, rest', rfl, rfl⟩
    · rintro ⟨d, eof, rest, rfl, rfl⟩
      refine ⟨_, parseFunction_eq_ok_iff.mpr ⟨d, rfl, rfl, rfl⟩, ?_⟩
      exact expect_bind_eq_ok_iff.mpr ⟨eof, rest, rfl, rfl⟩
  · intro d d' eof eof' rest rest' h h'
    obtain ⟨hd, htail⟩ := Derivation.word_append_injective (h.symm.trans h')
    obtain ⟨heof, hrest⟩ := List.cons.inj htail
    exact ⟨hd, Subtype.ext heof, hrest⟩

/-- `int f(void) { return -(~+007); }` over three lines, with a token behind the end of input. -/
def signed : Derivation where
  int := ⟨⟨.intKeyword, none, 1, 1⟩, rfl⟩
  name := ⟨⟨⟨.identifier, some "f", 1, 5⟩, rfl⟩, "f", rfl⟩
  openParen := ⟨⟨.openParen, none, 1, 6⟩, rfl⟩
  void := ⟨⟨.voidKeyword, none, 1, 7⟩, rfl⟩
  closeParen := ⟨⟨.closeParen, none, 1, 11⟩, rfl⟩
  openBrace := ⟨⟨.openBrace, none, 1, 13⟩, rfl⟩
  ret := ⟨⟨.returnKeyword, none, 2, 1⟩, rfl⟩
  value := .negate ⟨⟨.minus, none, 2, 8⟩, rfl⟩ (.parens ⟨⟨.openParen, none, 2, 9⟩, rfl⟩
    (.complement ⟨⟨.tilde, none, 3, 1⟩, rfl⟩ (.constant
      { token := ⟨⟨.constant, some "+007", 3, 2⟩, rfl⟩, text := "+007", value := 7, text_eq := rfl,
        denotes := .plus (by decide) }))
    ⟨⟨.closeParen, none, 3, 6⟩, rfl⟩)
  semicolon := ⟨⟨.semicolon, none, 3, 7⟩, rfl⟩
  closeBrace := ⟨⟨.closeBrace, none, 3, 9⟩, rfl⟩

def signedEnd : TokenOf .eof :=
  ⟨⟨.eof, none, 4, 1⟩, rfl⟩

theorem parse_signed :
    parse (signed.word ++ [signedEnd.1, ⟨.minus, none, 5, 1⟩]) = .ok
      { function :=
          { name := "f"
            body :=
              { value := .unary .negate (.unary .complement (.constant 7 3) 3) 2, line := 2 }
            line := 1 }
        line := 1 } ∧
    ∀ (d : Derivation) (eof : TokenOf .eof) (rest : List Token),
      signed.word ++ [signedEnd.1, ⟨.minus, none, 5, 1⟩] = d.word ++ eof.1 :: rest →
        d = signed ∧ eof = signedEnd ∧ rest = [⟨.minus, none, 5, 1⟩] := by
  obtain ⟨haccepts, hunique⟩ :=
    parse_eq_ok_iff_derivation (signed.word ++ [signedEnd.1, ⟨.minus, none, 5, 1⟩])
  exact ⟨(haccepts _).mpr ⟨signed, signedEnd, _, rfl, rfl⟩,
    fun d eof rest h => hunique d signed eof signedEnd rest _ h rfl⟩

end UnaryC.Tree
