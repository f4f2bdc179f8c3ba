import Mathlib.Data.List.Forall2
import UnaryC.Proofs.Faultless
import UnaryC.Proofs.Reader

/-!
# Layout does not reach the output

Two texts may be laid out differently and still have the same tokens, line and column apart. The
parser looks at neither to decide what to do. So it comes to trees that differ in their lines only,
or to errors that do, and what comes after it does not look at the lines of a tree.
-/
namespace UnaryC

/-- What a token is, wherever it stands. -/
def Token.shape (t : Token) : Token.Kind × Option String :=
  (t.kind, t.text)

/-- The tokens differ in their places only. -/
def Token.Alike (t u : Token) : Prop :=
  t.shape = u.shape

theorem Token.Alike.kind_eq {t u : Token} (h : t.Alike u) : t.kind = u.kind :=
  congrArg Prod.fst h

theorem Token.Alike.text_eq {t u : Token} (h : t.Alike u) : t.text = u.text :=
  congrArg Prod.snd h

theorem Token.Alike.describe_eq {t u : Token} (h : t.Alike u) : t.describe = u.describe := by
  rw [describe, describe, h.kind_eq, h.text_eq]

/-- The errors say the same, about tokens that differ in their places only. -/
structure ParseError.Alike (e e' : ParseError) : Prop where
  detail_eq : e.detail = e'.detail
  shape_eq : e.token?.map Token.shape = e'.token?.map Token.shape

theorem ParseError.alike_expected (kind : Token.Kind) {t u : Token} (h : t.Alike u) :
    (expected kind t).Alike (expected kind u) := by
  have hdetail : ∀ t : Token, (expected kind t).detail =
      if t.kind = .eof then "Unexpected end of input, expected " ++ kind.name
      else "Expected " ++ kind.name ++ ", but found " ++ t.describe := fun _ => rfl
  exact ⟨by rw [hdetail, hdetail, h.kind_eq, h.describe_eq], congrArg some h⟩

theorem ParseError.alike_expectedExpression {t u : Token} (h : t.Alike u) :
    (expectedExpression t).Alike (expectedExpression u) :=
  ⟨congrArg ("Expected an expression, but found " ++ ·) h.describe_eq, congrArg some h⟩

namespace Tree

/-- The expressions differ in their lines only. -/
structure Expr.Alike (e e' : Expr) : Prop where
  ops_eq : e.ops = e'.ops
  base_eq : e.base = e'.base

structure Program.Alike (p p' : Program) : Prop where
  name_eq : p.function.name = p'.function.name
  value : p.function.body.value.Alike p'.function.body.value

namespace Reader

variable {α β : Type}

/-- Results that differ in places only, where `R` says what that is for the values read. -/
inductive Same (R : α → α → Prop) : Except ParseError (α × Nat × List Token) →
    Except ParseError (α × Nat × List Token) → Prop where
  | ok {x y : α} {line line' : Nat} {rest rest' : List Token} (hvalue : R x y)
      (hrest : List.Forall₂ Token.Alike rest rest') :
      Same R (.ok (x, line, rest)) (.ok (y, line', rest'))
  | error {e e' : ParseError} (h : e.Alike e') : Same R (.error e) (.error e')

/-- On tokens that differ in their places only, so do the results of the readers. -/
def Matches (R : α → α → Prop) (p p' : Reader α) : Prop :=
  ∀ (line line' : Nat) {tokens tokens' : List Token}, List.Forall₂ Token.Alike tokens tokens' →
    Same R (p line tokens) (p' line' tokens')

variable {R : α → α → Prop} {S : β → β → Prop}

theorem matches_ret {x y : α} (h : R x y) : Matches R (ret x) (ret y) :=
  fun _ _ _ _ htokens => .ok h htokens

theorem Same.andThen {p p' : Reader α} {q q' : α → Reader β} {line line' : Nat}
    {tokens tokens' : List Token} (hp : Same R (p line tokens) (p' line' tokens'))
    (hq : ∀ {x y}, R x y → Matches S (q x) (q' y)) :
    Same S (p.andThen q line tokens) (p'.andThen q' line' tokens') := by
  generalize hx : p line tokens = result, hy : p' line' tokens' = result' at hp
  cases hp with
  | ok hvalue hrest =>
    rw [andThen_of_ok hx, andThen_of_ok hy]
    exact hq hvalue _ _ hrest
  | error h =>
    rw [andThen_of_error hx, andThen_of_error hy]
    exact .error h

theorem Matches.andThen {p p' : Reader α} {q q' : α → Reader β} (hp : Matches R p p')
    (hq : ∀ {x y}, R x y → Matches S (q x) (q' y)) :
    Matches S (p.andThen q) (p'.andThen q') :=
  fun line line' _ _ htokens => (hp line line' htokens).andThen hq

/-- Whatever one token is refused or not for, it is not its place. -/
theorem matches_oneToken {f : Token → Except ParseError α}
    (hf : ∀ {t u : Token}, t.Alike u →
      (∃ x y, f t = .ok x ∧ f u = .ok y ∧ R x y) ∨
        ∃ e e', f t = .error e ∧ f u = .error e' ∧ e.Alike e') :
    Matches R (oneToken f) (oneToken f) := by
  intro line line' tokens tokens' htokens
  cases htokens with
  | nil => exact .error ⟨rfl, rfl⟩
  | cons hhead hrest =>
    rcases hf hhead with ⟨x, y, hx, hy, hxy⟩ | ⟨e, e', he, he', hee⟩
    · rw [oneToken, oneToken, hx, hy]
      exact .ok hxy hrest
    · rw [oneToken, oneToken, he, he']
      exact .error hee

end Reader

open Reader

theorem matches_expect (kind : Token.Kind) :
    Matches Token.Alike (expect · kind) (expect · kind) := by
  rw [expect_eq]
  refine matches_oneToken fun {t u} h => ?_
  by_cases hkind : t.kind = kind
  · exact .inl ⟨t, u, if_pos hkind, if_pos (h.kind_eq ▸ hkind), h⟩
  · exact .inr ⟨_, _, if_neg hkind, if_neg (h.kind_eq ▸ hkind),
      ParseError.alike_expected kind h⟩

theorem matches_parseIdentifier : Matches Eq parseIdentifier parseIdentifier := by
  rw [parseIdentifier_eq]
  refine matches_oneToken fun {t u} h => ?_
  rw [← h.kind_eq, ← h.text_eq]
  by_cases hkind : t.kind = .identifier
  · cases t.text with
    | some name => exact .inl ⟨name, name, if_pos hkind, if_pos hkind, rfl⟩
    | none => exact .inr ⟨_, _, if_pos hkind, if_pos hkind, rfl, congrArg some h⟩
  · exact .inr ⟨_, _, if_neg hkind, if_neg hkind, ParseError.alike_expected _ h⟩

theorem matches_parseExpr : Matches Expr.Alike parseExpr parseExpr := by
  intro line line' tokens tokens' htokens
  induction htokens generalizing line line' with
  | nil => exact .error ⟨rfl, rfl⟩
  | @cons t u tokens tokens' hhead hrest ih =>
    rw [parseExpr_cons, parseExpr_cons]
    have hkind := hhead.kind_eq
    have hsign : ∀ (op : UnaryOp) {x y : Expr}, x.Alike y →
        Matches Expr.Alike (ret (.unary op x t.line)) (ret (.unary op y u.line)) :=
      fun op x y h => matches_ret ⟨congrArg (op :: ·) h.ops_eq, h.base_eq⟩
    cases ht : t.kind with
    | constant =>
      have hvalue : constantValue? u = constantValue? t := by
        rw [constantValue?, constantValue?, hhead.text_eq]
      simp only [exprBehind, ht, ← hkind, hvalue]
      cases constantValue? t with
      | some value => exact .ok ⟨rfl, rfl⟩ hrest
      | none => exact .error ⟨rfl, congrArg some hhead⟩
    | openParen =>
      simp only [exprBehind, ht, ← hkind]
      exact (ih _ _).andThen fun h => (matches_expect .closeParen).andThen fun _ => matches_ret h
    | minus =>
      simp only [exprBehind, ht, ← hkind]
      exact (ih _ _).andThen (hsign .negate)
    | tilde =>
      simp only [exprBehind, ht, ← hkind]
      exact (ih _ _).andThen (hsign .complement)
    | minusMinus =>
      simp only [exprBehind, ht, ← hkind]
      exact .error ⟨rfl, congrArg some hhead⟩
    | _ =>
      simp only [exprBehind, ht, ← hkind]
      exact .error (ParseError.alike_expectedExpression hhead)

theorem matches_parseAll : Matches Program.Alike parseAll parseAll := by
  have hreturn : Matches (fun r r' : Return => r.value.Alike r'.value) parseReturn parseReturn := by
    rw [parseReturn_eq]
    exact (matches_expect _).andThen fun _ => matches_parseExpr.andThen fun h =>
      (matches_expect _).andThen fun _ => matches_ret h
  rw [parseAll, parseFunction_eq]
  refine Matches.andThen (R := fun f f' => f.name = f'.name ∧ f.body.value.Alike f'.body.value)
    ?_ fun h => (matches_expect _).andThen fun _ => matches_ret ⟨h.1, h.2⟩
  exact (matches_expect _).andThen fun _ => matches_parseIdentifier.andThen fun hname =>
    (matches_expect _).andThen fun _ => (matches_expect _).andThen fun _ =>
      (matches_expect _).andThen fun _ => (matches_expect _).andThen fun _ =>
        hreturn.andThen fun hvalue => (matches_expect _).andThen fun _ =>
          matches_ret ⟨hname, hvalue⟩

/-- Tokens that differ in their places only have trees that differ in their lines only, or errors
that do. -/
theorem parse_alike {tokens tokens' : List Token}
    (h : tokens.map Token.shape = tokens'.map Token.shape) :
    (∃ p p', parse tokens = .ok p ∧ parse tokens' = .ok p' ∧ p.Alike p') ∨
      ∃ e e', parse tokens = .error e ∧ parse tokens' = .error e' ∧ e.Alike e' := by
  have htokens : List.Forall₂ Token.Alike tokens tokens' := by
    rw [← List.forall₂_eq_eq_eq, List.forall₂_map_left_iff, List.forall₂_map_right_iff] at h
    exact h
  have hsame := matches_parseAll 1 1 htokens
  rw [parse_eq, parse_eq]
  generalize parseAll 1 tokens = result, parseAll 1 tokens' = result' at hsame
  cases hsame with
  | ok hvalue _ => exact .inl ⟨_, _, rfl, rfl, hvalue⟩
  | error h => exact .inr ⟨_, _, rfl, rfl, h⟩

end Tree

namespace Tac

theorem lowerExpr_congr (names : NameSupply) {e : Tree.Expr} :
    ∀ {e' : Tree.Expr}, e.Alike e' → lowerExpr names e = lowerExpr names e' := by
  induction e with
  | constant value line =>
    intro e' h
    cases e' with
    | constant value' line' => rw [lowerExpr, lowerExpr, show value = value' from h.base_eq]
    | unary op' operand' line' => cases h.ops_eq
  | unary op operand line ih =>
    intro e' h
    cases e' with
    | constant value' line' => cases h.ops_eq
    | unary op' operand' line' =>
      obtain ⟨rfl, hops⟩ := List.cons.inj h.ops_eq
      rw [lowerExpr_unary, lowerExpr_unary, ih ⟨hops, h.base_eq⟩]

/-- Lowering does not look at lines. -/
theorem lower_congr {p p' : Tree.Program} (h : p.Alike p') : lower p = lower p' := by
  rw [lower, lower, lowerReturn, lowerReturn, lowerExpr_congr {} h.value, h.name_eq]

end Tac

theorem parseSource_of_scan {lines : List String} {tokens : List Token}
    (h : Token.scan lines = .ok tokens) :
    parseSource lines = (Tree.parse tokens).mapError .parse := by
  rw [parseSource, scanSource, h]
  rfl

/-- Texts whose tokens differ in their places only compile to the same three-address code and the
same machine code, which has a text, or both have an error of the parser. These errors say the same
about tokens that differ in their places only. -/
theorem compile_eq_of_same_shapes (lines lines' : List String) (tokens tokens' : List Token)
    (hscan : Token.scan lines = .ok tokens) (hscan' : Token.scan lines' = .ok tokens')
    (hshape : tokens.map Token.shape = tokens'.map Token.shape) :
    (∃ tac machine text,
      compile lines .tacky = .ok (.tac tac) ∧ compile lines' .tacky = .ok (.tac tac) ∧
      compile lines .codegen = .ok (.machine machine) ∧
      compile lines' .codegen = .ok (.machine machine) ∧ machine.assembly = .ok text) ∨
    ∃ e e' : ParseError,
      (∀ stage ∈ [Stage.tacky, Stage.codegen],
        compile lines stage = .error (.parse e) ∧ compile lines' stage = .error (.parse e')) ∧
      e.detail = e'.detail ∧ e.token?.map Token.shape = e'.token?.map Token.shape := by
  rcases Tree.parse_alike hshape with ⟨p, p', hp, hp', halike⟩ | ⟨e, e', he, he', halike⟩
  · have htree : parseSource lines = .ok p := by rw [parseSource_of_scan hscan, hp]; rfl
    have htree' : parseSource lines' = .ok p' := by rw [parseSource_of_scan hscan', hp']; rfl
    have hlower := Tac.lower_congr halike
    obtain ⟨text, htext⟩ :=
      Machine.exists_assembly_iff.mpr (Machine.pseudo_not_mem_generation (Tac.lower p))
    refine .inl ⟨Tac.lower p, Machine.generation (Tac.lower p), text, ?_, ?_, ?_, ?_, htext⟩
    · rw [compile, lowerSource, htree]; rfl
    · rw [compile, lowerSource, htree', hlower]; rfl
    · rw [compile, generateSource_eq, htree]; rfl
    · rw [compile, generateSource_eq, htree', hlower]; rfl
  · have htree : parseSource lines = .error (.parse e) := by rw [parseSource_of_scan hscan, he]; rfl
    have htree' : parseSource lines' = .error (.parse e') := by
      rw [parseSource_of_scan hscan', he']; rfl
    refine .inr ⟨e, e', fun stage hstage => ?_, halike.detail_eq, halike.shape_eq⟩
    rcases List.mem_pair.mp hstage with rfl | rfl
    · rw [compile, compile, lowerSource, lowerSource, htree, htree']
      exact ⟨rfl, rfl⟩
    · rw [compile, compile, generateSource_eq, generateSource_eq, htree, htree']
      exact ⟨rfl, rfl⟩

/-- The tokens of `wrapping` on lines of their own, with other comments. -/
def scattered : List String :=
  ["int", "main // entry", "(void)", "\x7breturn", "- (", "/* all", "ones */ ~", "2147483647",
    ");", "", "\x7d"]

theorem compile_eq_of_same_shapes_scattered :
    (Token.scan wrapping).map (List.map Token.shape) =
        (Token.scan scattered).map (List.map Token.shape) ∧
      compile wrapping .codegen = .ok (.machine wrappingCode) ∧
      compile scattered .codegen = .ok (.machine wrappingCode) := by
  have hshape : (Token.scan wrapping).map (List.map Token.shape) =
      (Token.scan scattered).map (List.map Token.shape) := by decide +kernel
  have hcode : compile wrapping .codegen = .ok (.machine wrappingCode) := by decide +kernel
  refine ⟨hshape, hcode, ?_⟩
  cases hscan : Token.scan wrapping with
  | error e =>
    have hok : (Token.scan wrapping).isOk := by decide +kernel
    rw [hscan] at hok
    cases hok
  | ok tokens =>
    rw [hscan] at hshape
    cases hscan' : Token.scan scattered with
    | error e => rw [hscan'] at hshape; cases hshape
    | ok tokens' =>
      rw [hscan'] at hshape
      rcases compile_eq_of_same_shapes wrapping scattered tokens tokens' hscan hscan'
        (Except.ok.inj hshape) with ⟨_, machine, _, -, -, hmachine, hmachine', -⟩ | ⟨e, _, he, -⟩
      · rw [hcode] at hmachine
        cases hmachine
        exact hmachine'
      · have herror := (he .codegen (by simp)).1
        rw [hcode] at herror
        cases herror

end UnaryC
