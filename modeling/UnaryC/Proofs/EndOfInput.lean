import UnaryC.Proofs.FirstError
import UnaryC.Proofs.Layout
import UnaryC.Proofs.Rendering

/-!
# Nothing is read behind the end of input

The word of a derivation has no end of input in it. So tokens with an end of input that are the
beginning of a program are one already, and the parser does not run out of tokens on them. Any
other error is found at one of these tokens, whatever stands behind them. The tokens of a source
text end with an end of input, so an error in a source text has a token to point at.
-/
namespace UnaryC

namespace Tree

open Token (Kind)
open Reader

theorem TokenOf.kind_ne {kind kind' : Kind} (t : TokenOf kind) (h : kind ≠ kind') :
    t.1.kind ≠ kind' :=
  t.2.trans_ne h

theorem ExprDerivation.kind_ne_eof (d : ExprDerivation) : ∀ t ∈ d.word, t.kind ≠ .eof := by
  induction d with
  | constant c => exact List.forall_mem_singleton.mpr (c.token.kind_ne (by decide))
  | negate sign operand ih => exact List.forall_mem_cons.mpr ⟨sign.kind_ne (by decide), ih⟩
  | complement sign operand ih => exact List.forall_mem_cons.mpr ⟨sign.kind_ne (by decide), ih⟩
  | parens opening inner closing ih =>
    refine List.forall_mem_cons.mpr ⟨opening.kind_ne (by decide), ?_⟩
    refine List.forall_mem_append.mpr ⟨ih, ?_⟩
    exact List.forall_mem_singleton.mpr (closing.kind_ne (by decide))

theorem Derivation.kind_ne_eof (d : Derivation) : ∀ t ∈ d.word, t.kind ≠ .eof := by
  refine List.forall_mem_append.mpr ⟨List.forall_mem_append.mpr ⟨?_, d.value.kind_ne_eof⟩, ?_⟩
  · simp only [List.forall_mem_cons, List.not_mem_nil, false_imp_iff, implies_true, and_true]
    exact ⟨d.int.kind_ne (by decide), d.name.token.kind_ne (by decide),
      d.openParen.kind_ne (by decide), d.void.kind_ne (by decide),
      d.closeParen.kind_ne (by decide), d.openBrace.kind_ne (by decide),
      d.ret.kind_ne (by decide)⟩
  · simp only [List.forall_mem_cons, List.not_mem_nil, false_imp_iff, implies_true, and_true]
    exact ⟨d.semicolon.kind_ne (by decide), d.closeBrace.kind_ne (by decide)⟩

/-- What the parser accepts begins with a derivation's word and an end of input. -/
theorem exists_derivation_of_parse {tokens : List Token} {program : Program}
    (h : parse tokens = .ok program) :
    ∃ (d : Derivation) (eof : TokenOf .eof) (rest : List Token),
      d.tree = program ∧ tokens = d.word ++ eof.1 :: rest := by
  obtain ⟨⟨function, line, rest⟩, hfunction, hend⟩ := bind_eq_ok_iff.mp h
  obtain ⟨d, rfl, rfl, rfl⟩ := parseFunction_eq_ok_iff.mp hfunction
  obtain ⟨eof, rest', rfl, hreturn⟩ := expect_bind_eq_ok_iff.mp hend
  cases hreturn
  exact ⟨d, eof, rest', rfl, rfl⟩

/-- Accepted tokens are accepted with any tokens behind them. -/
theorem parse_append_of_ok {tokens : List Token} {program : Program}
    (h : parse tokens = .ok program) (rest : List Token) :
    parse (tokens ++ rest) = .ok program := by
  obtain ⟨d, eof, rest', rfl, rfl⟩ := exists_derivation_of_parse h
  rw [List.append_assoc]
  exact parse_word d eof (rest' ++ rest)

/-- An end of input is not inside a derivation's word, so the word and the end of input behind it
stand before everything that follows another end of input. -/
theorem Derivation.word_before_eof {d : Derivation} {eof : TokenOf .eof} {e : Token}
    (he : e.kind = .eof) {pre more rest : List Token}
    (h : pre ++ e :: more = d.word ++ eof.1 :: rest) :
    ∃ rest', pre ++ [e] = d.word ++ eof.1 :: rest' := by
  rcases List.append_eq_append_iff.mp h with ⟨inside, hword, htail⟩ | ⟨behind, rfl, htail⟩
  · cases inside with
    | nil =>
      rw [List.append_nil] at hword
      exact ⟨[], by rw [hword, (List.cons.inj htail).1]⟩
    | cons t inside =>
      have hmem : e ∈ d.word := by
        rw [hword, (List.cons.inj htail).1]
        simp
      exact absurd he (d.kind_ne_eof e hmem)
  · cases behind with
    | nil => exact ⟨[], by rw [List.append_nil, (List.cons.inj htail).1]⟩
    | cons t behind =>
      refine ⟨behind ++ [e], ?_⟩
      rw [(List.cons.inj htail).1, List.append_assoc]
      rfl

/-- Tokens up to an end of input that can go on as a program are one already. -/
theorem exists_parse_of_viable_eof {pre : List Token} {e : Token} (he : e.kind = .eof)
    (h : Viable (pre ++ [e])) : ∃ program, parse (pre ++ [e]) = .ok program := by
  obtain ⟨more, program, haccepted⟩ := h
  obtain ⟨d, eof, rest, -, hword⟩ := exists_derivation_of_parse haccepted
  rw [List.append_assoc, List.singleton_append] at hword
  obtain ⟨rest', hpre⟩ := Derivation.word_before_eof he hword
  exact ⟨d.tree, hpre ▸ parse_word d eof rest'⟩

/-- An error in tokens up to an end of input is at one of them, whatever stands behind. -/
theorem parse_error_of_eof {pre : List Token} {e : Token} (he : e.kind = .eof) {err : ParseError}
    (h : parse (pre ++ [e]) = .error err) :
    (∃ t ∈ pre ++ [e], err.token? = some t ∧ err.line = t.line) ∧
      ∀ rest, parse (pre ++ [e] ++ rest) = .error err := by
  have hall := parseAll_of_parse_error h
  generalize htokens : pre ++ [e] = tokens at hall
  cases exact_parseAll.error hall with
  | outOfTokens hbegins =>
    obtain ⟨program, haccepted⟩ :=
      exists_parse_of_viable_eof he (htokens ▸ viable_of_begins hbegins)
    rw [h] at haccepted
    cases haccepted
  | @token before _ t _ htoken hbefore hstuck =>
    refine ⟨⟨t, by simp, htoken, err.line_of_token? htoken⟩, fun rest => ?_⟩
    rw [parse_eq, List.append_assoc, List.cons_append, hstuck]
    rfl

end Tree

theorem eq_error_of_map {α β : Type} {x : Except CompileError α} {f : α → β} {e : CompileError}
    (h : x.map f = .error e) : x = .error e := by
  cases x with
  | error e' => cases h; rfl
  | ok a => cases h

theorem scanSource_ne_parse (lines : List String) (err : ParseError) :
    scanSource lines ≠ .error (.parse err) := by
  intro h
  rw [scanSource] at h
  cases hscan : Token.scan lines with
  | error e => rw [hscan] at h; cases h
  | ok tokens => rw [hscan] at h; cases h

/-- Every stage behind the first fails if parsing fails, and as parsing does. -/
theorem parseSource_of_compile_error {lines : List String} {stage : Stage} {err : ParseError}
    (h : compile lines stage = .error (.parse err)) : parseSource lines = .error (.parse err) := by
  cases stage with
  | lex => exact absurd (eq_error_of_map h) (scanSource_ne_parse lines err)
  | parse => exact eq_error_of_map h
  | tacky => exact eq_error_of_map (eq_error_of_map h)
  | codegen =>
    rw [compile, generateSource_eq] at h
    exact eq_error_of_map (eq_error_of_map h)

/-- What the parser makes of source lines is what it makes of their tokens. -/
theorem exists_tokens_of_parseSource {lines : List String} {r : Except ParseError Tree.Program}
    (h : parseSource lines = r.mapError .parse) :
    ∃ tokens, Token.scan lines = .ok tokens ∧ Tree.parse tokens = r := by
  cases hscan : Token.scan lines with
  | error e =>
    rw [parseSource, scanSource, hscan] at h
    cases r <;> cases h
  | ok tokens =>
    refine ⟨tokens, rfl, ?_⟩
    rw [parseSource_of_scan hscan] at h
    generalize Tree.parse tokens = parsed at h
    cases parsed <;> cases r <;> cases h <;> rfl

/-- Tokens up to an end of input are parsed the same whatever stands behind them, and the parser
does not run out of them: an error points at one of them, and is on its line. So every error of the
parser in a compilation points at a token of the source lines, and is on its line. -/
theorem parse_stops_at_eof :
    (∀ (pre : List Token) (e : Token), e.kind = .eof →
      (∀ rest, Tree.parse (pre ++ [e] ++ rest) = Tree.parse (pre ++ [e])) ∧
      (∀ line, Tree.parse (pre ++ [e]) ≠ .error (.outOfTokens line)) ∧
      ∀ err, Tree.parse (pre ++ [e]) = .error err →
        ∃ t ∈ pre ++ [e], err.token? = some t ∧ err.line = t.line) ∧
    ∀ lines stage err, compile lines stage = .error (.parse err) →
      ∃ tokens, Token.scan lines = .ok tokens ∧
        ∃ t ∈ tokens, err.token? = some t ∧ err.line = t.line := by
  refine ⟨fun pre e he => ⟨fun rest => ?_, fun line h => ?_, fun err h => ?_⟩,
    fun lines stage err h => ?_⟩
  · cases hparse : Tree.parse (pre ++ [e]) with
    | ok program => exact Tree.parse_append_of_ok hparse rest
    | error err => exact (Tree.parse_error_of_eof he hparse).2 rest
  · obtain ⟨⟨t, -, htoken, -⟩, -⟩ := Tree.parse_error_of_eof he h
    cases htoken
  · exact (Tree.parse_error_of_eof he h).1
  · obtain ⟨tokens, hscan, hparse⟩ :=
      exists_tokens_of_parseSource (r := .error err) (parseSource_of_compile_error h)
    obtain ⟨segments, -, rfl⟩ := Token.exists_cuts_of_scan hscan
    exact ⟨_, hscan, (Tree.parse_error_of_eof rfl hparse).1⟩

/-- The beginning of a program. What would complete it stands in comments. -/
def endless : List String :=
  ["int f(void) \x7b", "  return -2 // ;", "/* \x7d */"]

theorem parse_stops_at_eof_endless :
    (∀ rest, Tree.parse ([⟨.intKeyword, none, 1, 1⟩, .endOfInput 7] ++ rest) =
      .error (.expected .identifier (.endOfInput 7))) ∧
    compile endless .codegen = .error (.parse (.expected .semicolon (.endOfInput 4))) ∧
    ∃ tokens, Token.scan endless = .ok tokens ∧ .endOfInput 4 ∈ tokens := by
  obtain ⟨hstops, hpoints⟩ := parse_stops_at_eof
  obtain ⟨hrest, -, -⟩ := hstops [⟨.intKeyword, none, 1, 1⟩] (.endOfInput 7) rfl
  have herror : compile endless .codegen =
      .error (.parse (.expected .semicolon (.endOfInput 4))) := by decide +kernel
  obtain ⟨tokens, hscan, t, ht, htoken, -⟩ := hpoints endless .codegen _ herror
  cases htoken
  exact ⟨hrest, herror, tokens, hscan, ht⟩

end UnaryC
