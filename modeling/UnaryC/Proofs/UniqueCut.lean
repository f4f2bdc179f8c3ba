import UnaryC.Proofs.Scanning

/-!
# Cuts of a source text

Scanning succeeds on the texts that have a cut, and its tokens are the lexemes of the cut. A text
has one cut at most, apart from the grouping of its blanks: two segments that can stand at the head
of one text are equal once blanks are taken one by one.
-/
namespace UnaryC.Lexical

open Text (isBlank)
open Token (Kind)

theorem spell_append (a b : List Segment) : spell (a ++ b) = spell a ++ spell b :=
  List.flatMap_append

theorem fitting_append {rest : List Symbol} {a b : List Segment} :
    Fitting rest (a ++ b) ↔ Fitting (spell b ++ rest) a ∧ Fitting rest b := by
  induction a with
  | nil => simp [Fitting]
  | cons segment a ih =>
    simp only [List.cons_append, Fitting, ih, spell_append, List.append_assoc, and_assoc]

namespace Segment

theorem spell_singleBlanks (segment : Segment) : spell segment.singleBlanks = segment.symbols := by
  cases segment with
  | blanks chars =>
    induction chars with
    | nil => rfl
    | cons c chars ih => exact congrArg (Symbol.char c :: ·) ih
  | _ => exact List.append_nil _

theorem singleBlanks_of_mem {segment single : Segment} (h : single ∈ segment.singleBlanks) :
    single.singleBlanks = [single] := by
  cases segment with
  | blanks chars =>
    obtain ⟨c, -, rfl⟩ := List.mem_map.mp h
    rfl
  | _ =>
    cases List.mem_singleton.mp h
    rfl

theorem Fits.singleBlanks {segment : Segment} {rest : List Symbol} (h : segment.Fits rest) :
    Fitting rest segment.singleBlanks := by
  cases segment with
  | blanks chars =>
    obtain ⟨-, hblank⟩ := h
    induction chars with
    | nil => trivial
    | cons c chars ih =>
      refine ⟨⟨List.cons_ne_nil _ _, ?_⟩, ih fun d hd => hblank d (List.mem_cons_of_mem c hd)⟩
      simpa using hblank c List.mem_cons_self
  | _ => exact ⟨h, trivial⟩

end Segment

/-- Taking blanks one by one keeps a cut. -/
theorem Cuts.singleBlanks {segments : List Segment} {lines : List String}
    (h : Cuts segments lines) : Cuts (segments.flatMap Segment.singleBlanks) lines := by
  have hspell : ∀ segments, spell (segments.flatMap Segment.singleBlanks) = spell segments := by
    intro segments
    induction segments with
    | nil => rfl
    | cons segment segments ih =>
      rw [List.flatMap_cons, spell_append, Segment.spell_singleBlanks, ih, spell_cons]
  refine ⟨(hspell segments).trans h.spells, ?_⟩
  have hfitting := h.fitting
  clear h
  induction segments with
  | nil => trivial
  | cons segment segments ih =>
    rw [List.flatMap_cons, fitting_append, hspell]
    exact ⟨hfitting.1.singleBlanks, ih hfitting.2⟩

/-- What the first characters of a text tell about the segment there. -/
inductive Shape where
  | blank
  | lineEnd
  | lineComment
  | blockComment
  | lexeme
deriving DecidableEq, Repr

def Segment.shape : Segment → Shape
  | blanks _ => .blank
  | lineEnd => .lineEnd
  | lineComment _ => .lineComment
  | blockComment _ => .blockComment
  | lexeme _ _ => .lexeme

def shapeAt : List Symbol → Shape
  | .char '/' :: .char '/' :: _ => .lineComment
  | .char '/' :: .char '*' :: _ => .blockComment
  | .char c :: _ => if isBlank c then .blank else .lexeme
  | _ => .lineEnd

theorem shapeAt_of_ne_slash {c : Char} (h : c ≠ '/') (rest : List Symbol) :
    shapeAt (.char c :: rest) = if isBlank c then .blank else .lexeme := by
  unfold shapeAt
  split <;> simp_all

theorem isLexeme_head {c : Char} {text : List Char} {kind : Kind} (h : IsLexeme (c :: text) kind) :
    c ≠ '/' ∧ isBlank c = false := by
  have hword : IsWordChar c → c ≠ '/' ∧ isBlank c = false := by
    intro hc
    refine ⟨?_, Bool.eq_false_iff.mpr fun hb => Token.not_isWordChar_of_isBlank hb hc⟩
    rintro rfl
    exact absurd hc (by decide)
  cases kind with
  | identifier => exact hword (.inl h.1.1)
  | constant => exact hword (.inr (h.2 c List.mem_cons_self))
  | eof => cases h
  | _ => cases h; decide

theorem Segment.Fits.shapeAt_append {segment : Segment} {rest : List Symbol}
    (h : segment.Fits rest) : shapeAt (segment.symbols ++ rest) = segment.shape := by
  cases segment with
  | blanks chars =>
    obtain ⟨hne, hblank⟩ := h
    cases chars with
    | nil => exact absurd rfl hne
    | cons c chars =>
      have hc := hblank c List.mem_cons_self
      have hslash : c ≠ '/' := by
        rintro rfl
        exact absurd hc (by decide)
      exact (shapeAt_of_ne_slash hslash _).trans (if_pos hc)
  | lexeme kind text =>
    cases text with
    | nil => exact absurd rfl (isLexeme_ne_nil h.1)
    | cons c text =>
      obtain ⟨hslash, hc⟩ := isLexeme_head h.1
      refine (shapeAt_of_ne_slash hslash _).trans (if_neg ?_)
      rw [hc]
      decide
  | _ => rfl

theorem closing_append_ne {symbol : Symbol} {body rest rest' : List Symbol}
    (h : ¬ closing <:+: symbol :: body) : closing ++ rest ≠ symbol :: body ++ closing ++ rest' := by
  intro heq
  cases body with
  | nil => simp [closing] at heq
  | cons second body =>
    have hprefix : closing <+: symbol :: second :: body := by
      simp only [closing, ofChars_cons, ofChars_nil, List.cons_append, List.nil_append,
        List.cons.injEq] at heq
      exact ⟨body, by rw [← heq.1, ← heq.2.1]; rfl⟩
    exact h hprefix.isInfix

/-- Of two bodies that end at their first closing, both at the head of one text, none is longer. -/
theorem closing_append_injective {body body' rest rest' : List Symbol}
    (h : ¬ closing <:+: body) (h' : ¬ closing <:+: body')
    (heq : body ++ closing ++ rest = body' ++ closing ++ rest') : body = body' := by
  induction body generalizing body' with
  | nil =>
    cases body' with
    | nil => rfl
    | cons symbol body' => exact absurd heq (closing_append_ne h')
  | cons symbol body ih =>
    cases body' with
    | nil => exact absurd heq.symm (closing_append_ne h)
    | cons symbol' body' =>
      simp only [List.cons_append, List.cons.injEq] at heq
      rw [heq.1, ih (not_closing_tail h) (not_closing_tail h') heq.2]

/-- The characters up to the end of the line. -/
def lineHead : List Symbol → List Char
  | .char c :: text => c :: lineHead text
  | _ => []

theorem lineHead_append (chars : List Char) (rest : List Symbol) :
    lineHead (ofChars chars ++ rest) = chars ++ lineHead rest := by
  induction chars with
  | nil => rfl
  | cons c chars ih => exact congrArg (c :: ·) ih

theorem nextChar?_eq_head? (text : List Symbol) : nextChar? text = (lineHead text).head? := by
  cases text with
  | nil => rfl
  | cons symbol text => cases symbol <;> rfl

/-- The longest match knows where a lexeme ends and of which kind it is. -/
theorem lexeme_append_injective {kind kind' : Kind} {text text' : List Char}
    {rest rest' : List Symbol} (h : (Segment.lexeme kind text).Fits rest)
    (h' : (Segment.lexeme kind' text').Fits rest')
    (heq : ofChars text ++ rest = ofChars text' ++ rest') : kind = kind' ∧ text = text' := by
  have hline : text ++ lineHead rest = text' ++ lineHead rest' := by
    rw [← lineHead_append, ← lineHead_append, heq]
  obtain ⟨k, hlongest, htoken⟩ := Token.longest?_lexeme h.1 (nextChar?_eq_head? rest ▸ h.2)
  obtain ⟨k', hlongest', htoken'⟩ := Token.longest?_lexeme h'.1 (nextChar?_eq_head? rest' ▸ h'.2)
  rw [hline, hlongest', Option.some.injEq, Token.Match.mk.injEq, Token.Effect.emit.injEq]
    at hlongest
  obtain ⟨hlength, rfl⟩ := hlongest
  obtain rfl := List.append_inj_left hline hlength.symm
  have hsame := (htoken 0 0).symm.trans (htoken' 0 0)
  exact ⟨congrArg Token.kind hsame, rfl⟩

/-- A text has one segment at its head. -/
theorem Segment.Fits.append_injective {segment segment' : Segment} {rest rest' : List Symbol}
    (h : segment.Fits rest) (h' : segment'.Fits rest')
    (hsingle : segment.singleBlanks = [segment]) (hsingle' : segment'.singleBlanks = [segment'])
    (heq : segment.symbols ++ rest = segment'.symbols ++ rest') :
    segment = segment' ∧ rest = rest' := by
  have hshape : segment.shape = segment'.shape := by
    rw [← h.shapeAt_append, ← h'.shapeAt_append, heq]
  suffices hsame : segment = segment' by
    subst hsame
    exact ⟨rfl, List.append_cancel_left heq⟩
  cases segment with
  | blanks chars =>
    cases segment' with
    | blanks chars' =>
      obtain ⟨c, rfl⟩ : ∃ c, chars = [c] := List.length_eq_one_iff.mp (by
        simpa [Segment.singleBlanks] using congrArg List.length hsingle)
      obtain ⟨c', rfl⟩ : ∃ c', chars' = [c'] := List.length_eq_one_iff.mp (by
        simpa [Segment.singleBlanks] using congrArg List.length hsingle')
      cases heq
      rfl
    | _ => cases hshape
  | lineEnd =>
    cases segment' with
    | lineEnd => rfl
    | _ => cases hshape
  | lineComment body =>
    cases segment' with
    | lineComment body' =>
      obtain ⟨tail, rfl⟩ := List.head?_eq_some_iff.mp h
      obtain ⟨tail', rfl⟩ := List.head?_eq_some_iff.mp h'
      have hbody := (ofChars_lineEnd_inj heq).1
      cases hbody
      rfl
    | _ => cases hshape
  | blockComment body =>
    cases segment' with
    | blockComment body' =>
      have hbody : body ++ closing ++ rest = body' ++ closing ++ rest' := by
        simpa [Segment.symbols] using heq
      rw [closing_append_injective h h' hbody]
    | _ => cases hshape
  | lexeme kind text =>
    cases segment' with
    | lexeme kind' text' =>
      obtain ⟨rfl, rfl⟩ := lexeme_append_injective h h' heq
      rfl
    | _ => cases hshape

theorem fitting_injective {segments : List Segment} :
    ∀ {segments' : List Segment}, Fitting [] segments → Fitting [] segments' →
      (∀ s ∈ segments, s.singleBlanks = [s]) → (∀ s ∈ segments', s.singleBlanks = [s]) →
      spell segments = spell segments' → segments = segments' := by
  induction segments with
  | nil =>
    intro segments' _ h' _ _ heq
    cases segments' with
    | nil => rfl
    | cons segment' segments' =>
      exact absurd (List.append_eq_nil_iff.mp heq.symm).1 h'.1.symbols_ne_nil
  | cons segment segments ih =>
    intro segments' h h' hsingle hsingle' heq
    cases segments' with
    | nil => exact absurd (List.append_eq_nil_iff.mp heq).1 h.1.symbols_ne_nil
    | cons segment' segments' =>
      have heads : segment.symbols ++ (spell segments ++ []) =
          segment'.symbols ++ (spell segments' ++ []) := by
        simpa using heq
      obtain ⟨rfl, htail⟩ := h.1.append_injective h'.1 (hsingle _ List.mem_cons_self)
        (hsingle' _ List.mem_cons_self) heads
      rw [List.append_nil, List.append_nil] at htail
      rw [ih h.2 h'.2 (fun s hs => hsingle s (List.mem_cons_of_mem _ hs))
        (fun s hs => hsingle' s (List.mem_cons_of_mem _ hs)) htail]

/-- Two cuts of one text differ in the grouping of blanks at most. -/
theorem Cuts.singleBlanks_eq {segments segments' : List Segment} {lines : List String}
    (h : Cuts segments lines) (h' : Cuts segments' lines) :
    segments.flatMap Segment.singleBlanks = segments'.flatMap Segment.singleBlanks := by
  have hsingle : ∀ segments : List Segment,
      ∀ s ∈ segments.flatMap Segment.singleBlanks, s.singleBlanks = [s] := by
    intro segments s hs
    obtain ⟨segment, -, hs⟩ := List.mem_flatMap.mp hs
    exact Segment.singleBlanks_of_mem hs
  exact fitting_injective h.singleBlanks.fitting h'.singleBlanks.fitting (hsingle _) (hsingle _)
    (h.singleBlanks.spells.trans h'.singleBlanks.spells.symm)

end UnaryC.Lexical

namespace UnaryC.Token

open Lexical

/-- Scanning accepts exactly the texts that have a cut, and its tokens are the lexemes of the cut,
each with its kind, text and position, and the end of the input on the line after the last. The cut
is unique up to how blanks are grouped. -/
theorem scan_eq_ok_iff_cuts (lines : List String) :
    (∀ tokens, scan lines = .ok tokens ↔ ∃ segments, Cuts segments lines ∧
      tokens = tokensFrom { line := 1, column := 1 } segments ++
        [{ kind := .eof, text := none, line := lines.length + 1, column := 1 }]) ∧
    ∀ segments segments', Cuts segments lines → Cuts segments' lines →
      segments.flatMap Segment.singleBlanks = segments'.flatMap Segment.singleBlanks := by
  refine ⟨fun tokens => ⟨fun h => ?_, ?_⟩, fun _ _ h h' => h.singleBlanks_eq h'⟩
  · rw [scan_eq_scanAt] at h
    obtain ⟨segments, hcuts⟩ := exists_cuts h
    rw [← scan_eq_scanAt, scan_of_cuts hcuts] at h
    exact ⟨segments, hcuts, (Except.ok.inj h).symm⟩
  · rintro ⟨segments, hcuts, rfl⟩
    exact scan_of_cuts hcuts

/-- A comment over two lines, whose first sign of closing is too early, and two blanks. -/
def commented : List String :=
  ["-/*/ a", "*/-  7//x"]

/-- Its cut, with the blanks before the number in the given groups. -/
def commentedCut (groups : List (List Char)) : List Segment :=
  [.lexeme .minus ['-'], .blockComment (ofChars ['/', ' ', 'a'] ++ [.lineEnd]),
    .lexeme .minus ['-']] ++ groups.map .blanks ++
  [.lexeme .constant ['7'], .lineComment ['x'], .lineEnd]

theorem scan_commented :
    Cuts (commentedCut [[' ', ' ']]) commented ∧ Cuts (commentedCut [[' '], [' ']]) commented ∧
    (commentedCut [[' ', ' ']]).flatMap Segment.singleBlanks =
      (commentedCut [[' '], [' ']]).flatMap Segment.singleBlanks ∧
    scan commented = .ok [⟨.minus, some "-", 1, 1⟩, ⟨.minus, some "-", 2, 3⟩,
      ⟨.constant, some "7", 2, 6⟩, ⟨.eof, none, 3, 1⟩] := by
  have hgrouped : Cuts (commentedCut [[' ', ' ']]) commented := by decide
  have hsingle : Cuts (commentedCut [[' '], [' ']]) commented := by decide
  obtain ⟨haccepts, hunique⟩ := scan_eq_ok_iff_cuts commented
  exact ⟨hgrouped, hsingle, hunique _ _ hgrouped hsingle,
    (haccepts _).mpr ⟨_, hgrouped, by decide⟩⟩

end UnaryC.Token
