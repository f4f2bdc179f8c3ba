import UnaryC.Proofs.Grammar

/-!
# Errors point at the first token that cannot be right

A reader that is exact fails in two ways. It fails at a token where what stands before that token
could go on, and with the token no longer can. Or it runs out of tokens, and then it has taken all
of them, so that it stands on the line of the last, and they could go on. Readers that are put one
behind another stay exact, so the parser is exact.
-/
namespace UnaryC

theorem ParseError.line_of_token? {e : ParseError} {t : Token} (h : e.token? = some t) :
    e.line = t.line := by
  cases e <;> cases h <;> rfl

namespace Tree

open Token (Kind)

namespace Reader

variable {α β : Type}

/-- The reader takes these tokens, whatever follows them. -/
def Takes (p : Reader α) (word : List Token) (x : α) : Prop :=
  ∀ line rest, p line (word ++ rest) = .ok (x, lineAfter line word, rest)

/-- The tokens are the beginning of some that the reader takes. -/
def Begins (p : Reader α) (tokens : List Token) : Prop :=
  ∃ more x, p.Takes (tokens ++ more) x

/-- The error is that of the first token that cannot be right, or else there are too few tokens. In
that case the last of them gives the line. -/
inductive Pinpoints (p : Reader α) (line : Nat) : List Token → ParseError → Prop where
  | token (before : List Token) {rest : List Token} {t : Token} {e : ParseError}
      (htoken : e.token? = some t) (hbefore : p.Begins before)
      (hstuck : ∀ line more, p line (before ++ t :: more) = .error e) :
      Pinpoints p line (before ++ t :: rest) e
  | outOfTokens {tokens : List Token} (htokens : p.Begins tokens) :
      Pinpoints p line tokens (.outOfTokens (lineAfter line tokens))

structure Exact (p : Reader α) : Prop where
  ok : ∀ {line tokens x line' rest}, p line tokens = .ok (x, line', rest) →
    ∃ word, tokens = word ++ rest ∧ p.Takes word x
  error : ∀ {line tokens e}, p line tokens = .error e → p.Pinpoints line tokens e
  begins : p.Begins []

variable {p : Reader α} {q : α → Reader β} {line : Nat} {tokens : List Token} {e : ParseError}

theorem Takes.andThen {word word' : List Token} {x : α} {y : β} (hp : p.Takes word x)
    (hq : (q x).Takes word' y) : (p.andThen q).Takes (word ++ word') y := by
  intro line rest
  rw [List.append_assoc, andThen_of_ok (hp line _), hq, lineAfter_append]

theorem Begins.andThen (hp : p.Begins tokens) (hq : ∀ x, (q x).Begins []) :
    (p.andThen q).Begins tokens := by
  obtain ⟨more, x, hmore⟩ := hp
  obtain ⟨word, y, hword⟩ := hq x
  exact ⟨more ++ word, y, List.append_assoc tokens more word ▸ hmore.andThen hword⟩

theorem Pinpoints.andThen (hp : p.Pinpoints line tokens e) (hq : ∀ x, (q x).Begins []) :
    (p.andThen q).Pinpoints line tokens e := by
  cases hp with
  | token before htoken hbefore hstuck =>
    exact .token before htoken (hbefore.andThen hq) fun line more =>
      andThen_of_error (hstuck line more)
  | outOfTokens htokens => exact .outOfTokens (htokens.andThen hq)

/-- A reader that becomes another one behind some tokens fails there as that one does. -/
theorem Pinpoints.behind {p q : Reader α} (word : List Token)
    (hbehind : ∀ line tokens, p line (word ++ tokens) = q (lineAfter line word) tokens)
    (hq : q.Pinpoints (lineAfter line word) tokens e) : p.Pinpoints line (word ++ tokens) e := by
  have hbegins : ∀ {tokens}, q.Begins tokens → p.Begins (word ++ tokens) := by
    rintro tokens ⟨more, x, hmore⟩
    refine ⟨more, x, fun line rest => ?_⟩
    rw [List.append_assoc word, List.append_assoc word, hbehind, hmore, lineAfter_append line word]
  cases hq with
  | token before htoken hbefore hstuck =>
    rw [← List.append_assoc]
    refine .token _ htoken (hbegins hbefore) fun line more => ?_
    rw [List.append_assoc, hbehind, hstuck]
  | outOfTokens htokens =>
    rw [← lineAfter_append]
    exact .outOfTokens (hbegins htokens)

/-- The second of two readers may fail behind what the first one takes. What is said of the first
need hold at these tokens only: that is how a reader that calls itself is dealt with. -/
theorem pinpoints_andThen
    (hok : ∀ {x line' rest}, p line tokens = .ok (x, line', rest) →
      ∃ word, tokens = word ++ rest ∧ p.Takes word x)
    (herror : ∀ {e}, p line tokens = .error e → p.Pinpoints line tokens e)
    (hq : ∀ x, (q x).Exact) (h : p.andThen q line tokens = .error e) :
    (p.andThen q).Pinpoints line tokens e := by
  cases hp : p line tokens with
  | error e' =>
    rw [andThen_of_error hp] at h
    cases h
    exact (herror hp).andThen fun x => (hq x).begins
  | ok result =>
    obtain ⟨x, line', rest⟩ := result
    obtain ⟨word, rfl, hword⟩ := hok hp
    rw [andThen_of_ok (hword line rest)] at h
    exact ((hq x).error h).behind word fun line rest => andThen_of_ok (hword line rest)

namespace Exact

theorem ret (x : α) : (ret x).Exact where
  ok h := by cases h; exact ⟨[], rfl, fun _ _ => rfl⟩
  error h := by cases h
  begins := ⟨[], x, fun _ _ => rfl⟩

theorem andThen (hp : p.Exact) (hq : ∀ x, (q x).Exact) : (p.andThen q).Exact where
  ok {line tokens y line' rest} h := by
    cases hfirst : p line tokens with
    | error e => rw [andThen_of_error hfirst] at h; cases h
    | ok result =>
      obtain ⟨x, middle, rest'⟩ := result
      rw [andThen_of_ok hfirst] at h
      obtain ⟨word, rfl, hword⟩ := hp.ok hfirst
      obtain ⟨word', rfl, hword'⟩ := (hq x).ok h
      exact ⟨word ++ word', (List.append_assoc ..).symm, hword.andThen hword'⟩
  error := pinpoints_andThen hp.ok hp.error hq
  begins := hp.begins.andThen fun x => (hq x).begins

end Exact

end Reader

open Reader

theorem exact_oneToken {α : Type} {f : Token → Except ParseError α}
    (hf : ∀ t e, f t = .error e → e.token? = some t) {t : Token} {x : α} (ht : f t = .ok x) :
    (oneToken f).Exact := by
  have htakes : ∀ {t x}, f t = .ok x → (oneToken f).Takes [t] x := by
    intro t x h line rest
    simp only [List.singleton_append, oneToken, h]
    rfl
  have hbegins : (oneToken f).Begins [] := ⟨[t], x, htakes ht⟩
  refine ⟨fun {line tokens x line' rest} h => ?_, fun {line tokens e} h => ?_, hbegins⟩
  · cases tokens with
    | nil => cases h
    | cons t tokens =>
      rw [oneToken] at h
      cases hread : f t with
      | error e => rw [hread] at h; cases h
      | ok y =>
        rw [hread] at h
        cases h
        exact ⟨[t], rfl, htakes hread⟩
  · cases tokens with
    | nil => cases h; exact .outOfTokens hbegins
    | cons t tokens =>
      rw [oneToken] at h
      cases hread : f t with
      | ok y => rw [hread] at h; cases h
      | error e' =>
        rw [hread] at h
        cases h
        refine .token [] (hf t e hread) hbegins fun line more => ?_
        rw [List.nil_append, oneToken, hread]
        rfl

theorem exact_expect (kind : Kind) : Exact (expect · kind) := by
  rw [expect_eq]
  refine exact_oneToken (t := ⟨kind, none, 1, 1⟩) (fun t e h => ?_) (if_pos rfl)
  split at h
  · cases h
  · cases h; rfl

theorem exact_parseIdentifier : Exact parseIdentifier := by
  rw [parseIdentifier_eq]
  refine exact_oneToken (t := ⟨.identifier, some "f", 1, 1⟩) (x := "f") (fun t e h => ?_) rfl
  split at h
  · cases htext : t.text with
    | some name => rw [htext] at h; cases h
    | none => rw [htext] at h; cases h; rfl
  · cases h; rfl

theorem begins_parseExpr : Begins parseExpr [] :=
  ⟨_, _, fun line rest => parseExpr_word line (.constant
    { token := ⟨⟨.constant, some "0", 1, 1⟩, rfl⟩, text := "0", value := 0, text_eq := rfl,
      denotes := .unsigned (by decide) }) rest⟩

theorem exists_word_of_parseExpr {line line' : Nat} {tokens rest : List Token} {x : Expr}
    (h : parseExpr line tokens = .ok (x, line', rest)) :
    ∃ word, tokens = word ++ rest ∧ Takes parseExpr word x := by
  obtain ⟨d, rfl, rfl⟩ := exists_exprDerivation h
  exact ⟨d.word, rfl, fun line rest => parseExpr_word line d rest⟩

theorem pinpoints_parseExpr {tokens : List Token} :
    ∀ {line : Nat} {e : ParseError}, parseExpr line tokens = .error e →
      Pinpoints parseExpr line tokens e := by
  induction tokens with
  | nil =>
    intro line e h
    cases h
    exact .outOfTokens begins_parseExpr
  | cons t tokens ih =>
    intro line e h
    rw [parseExpr_cons] at h
    -- A token that may come first leaves the rest to a reader that begins with this one again.
    have hdescend : ∀ {q : Expr → Reader Expr}, (∀ x, (q x).Exact) →
        exprBehind t = andThen parseExpr q → Pinpoints parseExpr line (t :: tokens) e := by
      intro q hq hbehind
      rw [hbehind] at h
      have hrest := pinpoints_andThen exists_word_of_parseExpr ih hq h
      exact hrest.behind [t] fun line tokens => hbehind ▸ parseExpr_cons line t tokens
    have hrefuse : ∀ e' : ParseError, e'.token? = some t → (exprBehind t = fun _ _ => .error e') →
        Pinpoints parseExpr line (t :: tokens) e := by
      intro e' htoken hbehind
      rw [hbehind] at h
      cases h
      refine .token [] htoken begins_parseExpr fun line more => ?_
      rw [List.nil_append, parseExpr_cons, hbehind]
    cases hkind : t.kind with
    | constant =>
      cases hvalue : constantValue? t with
      | some value => simp only [exprBehind, hkind, hvalue] at h; cases h
      | none => exact hrefuse (.constantOutOfRange t) rfl (by simp only [exprBehind, hkind, hvalue])
    | openParen =>
      exact hdescend (fun x => (exact_expect .closeParen).andThen fun _ => .ret x)
        (by simp only [exprBehind, hkind])
    | minus => exact hdescend (fun x => .ret _) (by simp only [exprBehind, hkind]; rfl)
    | tilde => exact hdescend (fun x => .ret _) (by simp only [exprBehind, hkind]; rfl)
    | minusMinus => exact hrefuse (.decrement t) rfl (by simp only [exprBehind, hkind])
    | _ => exact hrefuse (.expectedExpression t) rfl (by simp only [exprBehind, hkind])

theorem exact_parseExpr : Exact parseExpr :=
  ⟨exists_word_of_parseExpr, pinpoints_parseExpr, begins_parseExpr⟩

theorem exact_parseReturn : Exact parseReturn := by
  rw [parseReturn_eq]
  exact (exact_expect _).andThen fun _ => exact_parseExpr.andThen fun _ =>
    (exact_expect _).andThen fun _ => .ret _

theorem exact_parseFunction : Exact parseFunction := by
  rw [parseFunction_eq]
  exact (exact_expect _).andThen fun _ => exact_parseIdentifier.andThen fun _ =>
    (exact_expect _).andThen fun _ => (exact_expect _).andThen fun _ =>
      (exact_expect _).andThen fun _ => (exact_expect _).andThen fun _ =>
        exact_parseReturn.andThen fun _ => (exact_expect _).andThen fun _ => .ret _

theorem exact_parseAll : Exact parseAll :=
  exact_parseFunction.andThen fun _ => (exact_expect _).andThen fun _ => .ret _

/-- The tokens are the beginning of some that the parser accepts. -/
def Viable (tokens : List Token) : Prop :=
  ∃ more program, parse (tokens ++ more) = .ok program

theorem viable_of_begins {tokens : List Token} (h : parseAll.Begins tokens) : Viable tokens := by
  obtain ⟨more, program, htakes⟩ := h
  refine ⟨more, program, ?_⟩
  have hall := htakes 1 []
  rw [List.append_nil] at hall
  rw [parse_eq, hall]
  rfl

theorem parseAll_of_parse_error {tokens : List Token} {e : ParseError}
    (h : parse tokens = .error e) : parseAll 1 tokens = .error e := by
  rw [parse_eq] at h
  cases hread : parseAll 1 tokens with
  | error e' => rw [hread] at h; cases h; rfl
  | ok result => rw [hread] at h; cases h

/-- An error of the parser is at the first token with which no continuation is accepted any more,
and on the line of that token. Where there is none, the tokens end too early, on the line of the
last. -/
theorem parse_error_first (tokens : List Token) (e : ParseError) (h : parse tokens = .error e) :
    (∃ k t, tokens[k]? = some t ∧ e.token? = some t ∧ e.line = t.line ∧
      Viable (tokens.take k) ∧ ¬ Viable (tokens.take (k + 1))) ∨
    e.token? = none ∧ Viable tokens ∧ e.line = tokens.getLast?.elim 1 Token.line := by
  cases exact_parseAll.error (parseAll_of_parse_error h) with
  | outOfTokens htokens =>
    exact .inr ⟨rfl, viable_of_begins htokens, lineAfter_eq_getLast? 1 tokens⟩
  | @token before _ t _ htoken hbefore hstuck =>
    refine .inl ⟨before.length, t, by simp, htoken, e.line_of_token? htoken, ?_, ?_⟩
    · rw [List.take_left]
      exact viable_of_begins hbefore
    · rw [List.take_length_add_append, List.take_succ_cons, List.take_zero]
      rintro ⟨more, program, haccepted⟩
      rw [parse_eq, List.append_assoc, List.singleton_append, hstuck] at haccepted
      cases haccepted

/-- `int f(void) { return (-2147483648); }` over two lines. The number is too large by one. -/
def overflowing : List Token :=
  [⟨.intKeyword, some "int", 1, 1⟩, ⟨.identifier, some "f", 1, 5⟩, ⟨.openParen, some "(", 1, 6⟩,
    ⟨.voidKeyword, some "void", 1, 7⟩, ⟨.closeParen, some ")", 1, 11⟩,
    ⟨.openBrace, some "\x7b", 1, 13⟩, ⟨.returnKeyword, some "return", 2, 1⟩,
    ⟨.openParen, some "(", 2, 8⟩, ⟨.minus, some "-", 2, 9⟩,
    ⟨.constant, some "2147483648", 2, 10⟩, ⟨.closeParen, some ")", 2, 20⟩,
    ⟨.semicolon, some ";", 2, 21⟩, ⟨.closeBrace, some "\x7d", 2, 23⟩, .endOfInput 3]

/-- The number is to blame; without it and what follows, nothing is. -/
theorem parse_error_first_overflowing :
    (parse overflowing = .error (.constantOutOfRange ⟨.constant, some "2147483648", 2, 10⟩) ∧
      Viable (overflowing.take 9) ∧ ¬ Viable (overflowing.take 10)) ∧
    parse (overflowing.take 9) = .error (.outOfTokens 2) := by
  have hparse : parse overflowing =
      .error (.constantOutOfRange ⟨.constant, some "2147483648", 2, 10⟩) := rfl
  refine ⟨⟨hparse, ?_⟩, rfl⟩
  rcases parse_error_first overflowing _ hparse with ⟨k, t, hget, htoken, -, hviable⟩ | ⟨hnone, -⟩
  · obtain rfl := Option.some.inj htoken
    obtain ⟨hk, -⟩ := List.getElem?_eq_some_iff.mp hget
    have hplace : ∀ k < overflowing.length,
        overflowing[k]? = some ⟨.constant, some "2147483648", 2, 10⟩ → k = 9 := by decide
    obtain rfl := hplace k hk hget
    exact hviable
  · cases hnone

end Tree

end UnaryC
