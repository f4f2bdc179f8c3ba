import UnaryC.Proofs.EndOfInput
import UnaryC.Proofs.ScanError

/-!
# Constants are read and written exactly

The digits of a constant may be of any number and begin with zeros. What counts is their value by
places: if it fits 32 bits with a sign, it is the constant, and if not, the parser points at the
digits. In assembly text a constant stands behind a dollar sign, and is read back from there.
-/
namespace UnaryC

open Lexical

namespace Text.Decimal

theorem exists_readInt32?_of_le {s : List Char} (h : IsNumber s)
    (hle : placeValue s ≤ 2147483647) :
    ∃ v : Int32, v.toInt = placeValue s ∧ readInt32? s = some v := by
  have hvalue : (Int32.ofInt (placeValue s)).toInt = placeValue s :=
    Int32.toInt_ofInt_of_le (by omega) (by omega)
  refine ⟨Int32.ofInt (placeValue s), hvalue, readInt32?_eq_some_iff.mpr ?_⟩
  rw [denotes_iff_of_isNumber h, hvalue]

theorem readInt32?_eq_none_of_lt {s : List Char} (h : IsNumber s)
    (hlt : 2147483647 < placeValue s) : readInt32? s = none := by
  rw [Option.eq_none_iff_forall_ne_some]
  intro v hv
  have hvalue := (denotes_iff_of_isNumber h).mp (readInt32?_eq_some_iff.mp hv)
  have hbound := v.toInt_lt
  omega

end Text.Decimal

namespace Tree

open Reader

/-- A program whose expression has an error has that error. -/
theorem parse_of_parseExpr_error (int : TokenOf .intKeyword) (name : NameToken)
    (openParen : TokenOf .openParen) (void : TokenOf .voidKeyword)
    (closeParen : TokenOf .closeParen) (openBrace : TokenOf .openBrace)
    (ret : TokenOf .returnKeyword) {tokens : List Token} {e : ParseError}
    (h : ∀ line, parseExpr line tokens = .error e) :
    parse (int.1 :: name.token.1 :: openParen.1 :: void.1 :: closeParen.1 :: openBrace.1 ::
      ret.1 :: tokens) = .error e := by
  have hexpect : ∀ {kind : Token.Kind} (t : TokenOf kind) (line : Nat) (rest : List Token),
      expect line kind (t.1 :: rest) = .ok (t.1, t.1.line, rest) :=
    fun t _ _ => expect_eq_ok_iff.mpr ⟨t.2, rfl, rfl⟩
  have hreturn : ∀ line, parseReturn line (ret.1 :: tokens) = .error e := by
    intro line
    rw [parseReturn_eq, andThen_of_ok (hexpect ret _ _), andThen_of_error (h _)]
  have hfunction : ∀ line, parseFunction line (int.1 :: name.token.1 :: openParen.1 :: void.1 ::
      closeParen.1 :: openBrace.1 :: ret.1 :: tokens) = .error e := by
    intro line
    rw [parseFunction_eq, andThen_of_ok (hexpect int _ _),
      andThen_of_ok (parseIdentifier_eq_ok_iff.mpr ⟨name, rfl, rfl, rfl⟩),
      andThen_of_ok (hexpect openParen _ _), andThen_of_ok (hexpect void _ _),
      andThen_of_ok (hexpect closeParen _ _), andThen_of_ok (hexpect openBrace _ _),
      andThen_of_error (hreturn _)]
  rw [parse_eq, parseAll, andThen_of_error (hfunction _)]
  rfl

end Tree

open Text.Decimal

/-- A program that returns the constant with those digits. -/
def returning (digits : String) : List String :=
  ["int main(void) \x7b return " ++ digits ++ "; \x7d"]

/-- The segments before the space in front of the digits. -/
def beforeDigits : List Segment :=
  [.lexeme .intKeyword ['i', 'n', 't'], .blanks [' '], .lexeme .identifier ['m', 'a', 'i', 'n'],
    .lexeme .openParen ['('], .lexeme .voidKeyword ['v', 'o', 'i', 'd'], .lexeme .closeParen [')'],
    .blanks [' '], .lexeme .openBrace ['\x7b'], .blanks [' '],
    .lexeme .returnKeyword ['r', 'e', 't', 'u', 'r', 'n']]

def behindDigits : List Segment :=
  [.lexeme .semicolon [';'], .blanks [' '], .lexeme .closeBrace ['\x7d'], .lineEnd]

theorem cuts_returning {digits : String} (h : IsNumber digits.toList) :
    Cuts (beforeDigits ++ .blanks [' '] :: .lexeme .constant digits.toList :: behindDigits)
      (returning digits) := by
  have hbefore : Fitting [.char ' '] beforeDigits := by decide
  have hbehind : Fitting [] behindDigits := by decide
  have hblank : ∀ c ∈ [' '], Text.isBlank c = true := List.forall_mem_singleton.mpr (by decide)
  have hnext : MayPrecede (some ';') .constant := by decide
  constructor
  · simp [returning, ofLines, beforeDigits, behindDigits, spell, Segment.symbols, ofChars]
  · exact fitting_append.mpr ⟨hbefore.of_head? (.inr rfl), ⟨by simp, hblank⟩, ⟨h, hnext⟩, hbehind⟩

/-- The constant of that program. -/
def constantToken (digits : String) : Token :=
  ⟨.constant, some digits, 1, 25⟩

def returningTokens (digits : String) : List Token :=
  [⟨.intKeyword, some "int", 1, 1⟩, ⟨.identifier, some "main", 1, 5⟩, ⟨.openParen, some "(", 1, 9⟩,
    ⟨.voidKeyword, some "void", 1, 10⟩, ⟨.closeParen, some ")", 1, 14⟩,
    ⟨.openBrace, some "\x7b", 1, 16⟩, ⟨.returnKeyword, some "return", 1, 18⟩,
    constantToken digits, ⟨.semicolon, some ";", 1, 25 + digits.toList.length⟩,
    ⟨.closeBrace, some "\x7d", 1, 25 + digits.toList.length + 2⟩, .endOfInput 2]

theorem scan_returning {digits : String} (h : IsNumber digits.toList) :
    Token.scan (returning digits) = .ok (returningTokens digits) := by
  rw [Token.scan_of_cuts (cuts_returning h)]
  simp only [beforeDigits, behindDigits, List.cons_append, List.nil_append, tokensFrom,
    Segment.token?, Segment.symbols, Position.after_ofChars, String.ofList_toList]
  rfl

def constantTree (v : Int32) : Tree.Program :=
  { function := { name := "main", body := { value := .constant v 1, line := 1 }, line := 1 }
    line := 1 }

def constantCode (v : Int32) : Machine.Program :=
  { name := "main", code := [.mov (.imm v) (.reg .ax), .ret] }

theorem parse_returning_of_some {digits : String} {v : Int32}
    (h : readInt32? digits.toList = some v) :
    Tree.parse (returningTokens digits) = .ok (constantTree v) :=
  Tree.parse_word
    { int := ⟨_, rfl⟩, name := ⟨⟨_, rfl⟩, "main", rfl⟩, openParen := ⟨_, rfl⟩, void := ⟨_, rfl⟩,
      closeParen := ⟨_, rfl⟩, openBrace := ⟨_, rfl⟩, ret := ⟨_, rfl⟩,
      value := .constant ⟨⟨constantToken digits, rfl⟩, digits, v, rfl, readInt32?_eq_some_iff.mp h⟩,
      semicolon := ⟨_, rfl⟩, closeBrace := ⟨_, rfl⟩ }
    ⟨_, rfl⟩ []

theorem parse_returning_of_none {digits : String} (h : readInt32? digits.toList = none) :
    Tree.parse (returningTokens digits) =
      .error (.constantOutOfRange (constantToken digits)) := by
  have hvalue : Tree.constantValue? (constantToken digits) = none := h
  refine Tree.parse_of_parseExpr_error ⟨_, rfl⟩ ⟨⟨_, rfl⟩, "main", rfl⟩ ⟨_, rfl⟩ ⟨_, rfl⟩
    ⟨_, rfl⟩ ⟨_, rfl⟩ ⟨_, rfl⟩ fun line => ?_
  rw [Tree.parseExpr_cons, Tree.exprBehind]
  simp only [hvalue]
  rfl

/-- Digits whose value by places fits are compiled as the constant with that value, and digits whose
value does not are what the parser points at. Any constant is written behind a dollar sign as a text
that a constant token would be read from with the same value. -/
theorem compile_constant (digits : String) (h : IsNumber digits.toList) :
    (placeValue digits.toList ≤ 2147483647 → ∃ v : Int32, v.toInt = placeValue digits.toList ∧
      compile (returning digits) .parse = .ok (.tree (constantTree v)) ∧
      compile (returning digits) .codegen = .ok (.machine (constantCode v))) ∧
    (2147483647 < placeValue digits.toList → ∃ e : ParseError,
      compile (returning digits) .parse = .error (.parse e) ∧
      e.detail = "Integer constant out of range" ∧ e.token? = some (constantToken digits)) ∧
    ∀ v : Int32, ∃ text, (Machine.Operand.imm v).assembly = .ok ("$" ++ text) ∧
      (Machine.Instr.allocate v).assembly = .ok ("\tsubq $" ++ text ++ ", %rsp\n") ∧
      ∀ t : Token, t.text = some text → Tree.constantValue? t = some v := by
  have hparse := parseSource_of_scan (scan_returning h)
  refine ⟨fun hle => ?_, fun hlt => ?_, fun v => ?_⟩
  · obtain ⟨v, hvalue, hread⟩ := exists_readInt32?_of_le h hle
    rw [parse_returning_of_some hread] at hparse
    refine ⟨v, hvalue, compile_parse_eq_ok_iff.mpr hparse, ?_⟩
    rw [compile, generateSource_eq, hparse]
    rfl
  · rw [parse_returning_of_none (readInt32?_eq_none_of_lt h hlt)] at hparse
    refine ⟨.constantOutOfRange (constantToken digits), ?_, rfl, rfl⟩
    rw [compile, hparse]
    rfl
  · refine ⟨ofInt32 v, rfl, rfl, fun t ht => ?_⟩
    exact Tree.constantValue?_eq_some_iff.mpr ⟨ofInt32 v, ht, denotes_ofInt32 v⟩

/-- The greatest constant with zeros in front, a number greater by one, and the least word. -/
theorem compile_constant_limits :
    compile (returning "0002147483647") .parse = .ok (.tree (constantTree 2147483647)) ∧
    (∃ e : ParseError, compile (returning "2147483648") .parse = .error (.parse e) ∧
      e.detail = "Integer constant out of range" ∧
      e.token? = some ⟨.constant, some "2147483648", 1, 25⟩) ∧
    ∃ text, (Machine.Operand.imm (-2147483648)).assembly = .ok ("$" ++ text) ∧
      ∀ t : Token, t.text = some text → Tree.constantValue? t = some (-2147483648) := by
  obtain ⟨hfits, -, hwritten⟩ := compile_constant "0002147483647" (by decide)
  obtain ⟨v, hvalue, hparse, -⟩ := hfits (by decide)
  obtain ⟨-, hrefused, -⟩ := compile_constant "2147483648" (by decide)
  obtain ⟨text, htext, -, hread⟩ := hwritten (-2147483648)
  obtain rfl : v = 2147483647 := Int32.toInt_inj.mp hvalue
  exact ⟨hparse, hrefused (by decide), text, htext, hread⟩

end UnaryC
