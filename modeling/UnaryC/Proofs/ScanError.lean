import UnaryC.Proofs.UniqueCut

/-!
# Where scanning fails

A place in a text is clean if everything before it can be cut into segments. Scanning gets to every
clean place, whatever follows it, so it fails at the clean place where no segment starts, or at the
clean place where a comment starts that is never closed. Text behind the line of an unexpected
character plays no part in this, and the text before it is scanned without a failure.
-/
namespace UnaryC.Lexical

/-- A place in the text of some lines, between the characters `left` and `right` of a line. -/
structure Spot where
  earlier : List String
  left : List Char
  right : List Char
  later : List String
deriving DecidableEq, Repr

namespace Spot

def lines (s : Spot) : List String :=
  s.earlier ++ String.ofList (s.left ++ s.right) :: s.later

def position (s : Spot) : Position :=
  { line := s.earlier.length + 1, column := s.left.length + 1 }

/-- The lines up to that place. -/
def cut (s : Spot) : List String :=
  s.earlier ++ [String.ofList s.left]

def before (s : Spot) : List Symbol :=
  ofLines s.earlier ++ ofChars s.left

def behind (s : Spot) : List Symbol :=
  ofLines (String.ofList s.right :: s.later)

/-- All text before the place can be cut into segments. Whether a segment can stand there is read
off the whole text, and not off the text before the place alone. -/
def Clean (s : Spot) : Prop :=
  ∃ segments, spell segments = s.before ∧ Fitting s.behind segments

/-- At that place a comment starts which neither its line nor a later one closes. -/
def Unclosed (s : Spot) : Prop :=
  ∃ text, s.right = '/' :: '*' :: text ∧ ¬ ['*', '/'] <:+: text ∧
    ∀ line ∈ s.later, ¬ ['*', '/'] <:+: line.toList

theorem ofLines_lines (s : Spot) : ofLines s.lines = s.before ++ s.behind := by
  rw [lines, before, behind, ofLines_append, ofLines_ofList, ofLines_ofList, ofChars_append,
    List.append_assoc, List.append_assoc]

theorem after_before (s : Spot) :
    ({ line := 1, column := 1 } : Position).after s.before = s.position := by
  rw [before, Position.after_append, Position.after_ofLines, Position.after_ofChars, position,
    Nat.add_comm 1, Nat.add_comm 1]

end Spot

/-- A text that ends in some characters and whole lines falls apart at a place before these. -/
theorem exists_spot {text : List Symbol} {right : List Char} {later : List String} :
    ∀ {lines : List String}, ofLines lines = text ++ ofLines (String.ofList right :: later) →
      ∃ s : Spot, s.lines = lines ∧ s.before = text ∧ s.right = right ∧ s.later = later := by
  intro lines
  induction lines generalizing text with
  | nil =>
    intro h
    rw [ofLines_ofList] at h
    simp at h
  | cons line lines ih =>
    intro h
    rw [ofLines_cons] at h
    rcases split_lineEnd text with ⟨left, rfl⟩ | ⟨left, text, rfl⟩
    · obtain ⟨text, hline, hrest⟩ := ofChars_append_eq h.symm
      rw [ofLines_ofList] at hrest
      obtain ⟨rfl, hlater⟩ := ofChars_lineEnd_inj hrest
      refine ⟨⟨[], left, right, later⟩, ?_, rfl, rfl, rfl⟩
      rw [Spot.lines, ← hline, String.ofList_toList, ofLines_injective hlater]
      rfl
    · rw [List.append_assoc, List.cons_append] at h
      obtain ⟨hline, hlines⟩ := ofChars_lineEnd_inj h
      obtain ⟨s, rfl, rfl, rfl, rfl⟩ := ih hlines
      refine ⟨{ s with earlier := line :: s.earlier }, rfl, ?_, rfl, rfl⟩
      rw [Spot.before, Spot.before, ofLines_cons, hline, List.append_assoc]
      rfl

/-- A segment sees no more of what follows it than the first symbol, and can always stand at the end
of a line. -/
theorem Segment.Fits.of_head? {segment : Segment} {rest rest' : List Symbol}
    (h : segment.Fits rest) (hhead : rest'.head? = some .lineEnd ∨ rest'.head? = rest.head?) :
    segment.Fits rest' := by
  have hnext : nextChar? rest' = none ∨ nextChar? rest' = nextChar? rest := by
    rcases hhead with hend | hsame
    · obtain ⟨tail, rfl⟩ := List.head?_eq_some_iff.mp hend
      exact .inl rfl
    · cases rest with
      | nil =>
        rw [List.head?_eq_none_iff.mp hsame]
        exact .inl rfl
      | cons symbol rest =>
        obtain ⟨tail, rfl⟩ := List.head?_eq_some_iff.mp hsame
        cases symbol <;> exact .inr rfl
  cases segment with
  | lineComment body => exact hhead.elim id fun hsame => hsame.trans h
  | lexeme kind text =>
    refine ⟨h.1, ?_⟩
    rcases hnext with hnone | hsame
    · rw [hnone]
      exact mayPrecede_none kind
    · rw [hsame]
      exact h.2
  | _ => exact h

theorem Fitting.of_head? {segments : List Segment} {rest rest' : List Symbol}
    (h : Fitting rest segments)
    (hhead : rest'.head? = some .lineEnd ∨ rest'.head? = rest.head?) : Fitting rest' segments := by
  induction segments with
  | nil => trivial
  | cons segment segments ih =>
    refine ⟨h.1.of_head? ?_, ih h.2⟩
    cases spell segments with
    | nil => exact hhead
    | cons symbol text => exact .inr rfl

theorem closing_infix_ofChars {text : List Char} :
    closing <:+: ofChars text ↔ ['*', '/'] <:+: text := by
  refine ⟨fun h => ?_, fun h => h.map Symbol.char⟩
  obtain ⟨chars, hchars, hclosing⟩ := List.infix_map_iff.mp h
  rwa [(List.map_inj_right fun _ _ => Symbol.char.inj).mp hclosing]

/-- The two characters that close a comment stand on one line. -/
theorem closing_infix_ofLines {lines : List String} :
    closing <:+: ofLines lines ↔ ∃ line ∈ lines, ['*', '/'] <:+: line.toList := by
  induction lines with
  | nil => simp [closing]
  | cons line lines ih =>
    have hsplit : closing <:+: ofLines (line :: lines) ↔
        closing <:+: ofChars line.toList ∨ closing <:+: ofLines lines := by
      rw [ofLines_cons]
      constructor
      · intro h
        rcases List.infix_append_iff.mp h with hline | htail | ⟨a, b, hab, ha, hb⟩
        · exact .inl hline
        · rcases List.infix_cons_iff.mp htail with hprefix | hlines
          · simp [closing] at hprefix
          · exact .inr hlines
        · -- What the closing has on both sides of the line end is empty on the second.
          cases b with
          | nil =>
            rw [List.append_nil] at hab
            exact .inl (hab ▸ ha.isInfix)
          | cons symbol b =>
            have hmem : Symbol.lineEnd ∈ closing := by
              rw [hab, (List.cons_prefix_cons.mp hb).1]
              simp
            exact absurd hmem (by decide)
      · rintro (h | h)
        · exact List.infix_append_of_infix_left h
        · exact List.infix_append_of_infix_right (List.infix_cons h)
    rw [hsplit, closing_infix_ofChars, ih]
    simp

namespace Spot

theorem unclosed_iff {s : Spot} :
    s.Unclosed ↔ ∃ text, s.right = '/' :: '*' :: text ∧
      ¬ closing <:+: ofLines (String.ofList text :: s.later) := by
  simp [Unclosed, closing_infix_ofLines]

/-- What stands behind the line does not make a place clean, but for the end of a line. -/
theorem Clean.with_later {s : Spot} (h : s.Clean) (later : List String) :
    { s with later := later }.Clean := by
  obtain ⟨segments, hspell, hfit⟩ := h
  refine ⟨segments, hspell, hfit.of_head? (.inr ?_)⟩
  rw [behind, behind, ofLines_ofList, ofLines_ofList]
  cases s.right <;> rfl

/-- The text before a clean place has a cut of its own. -/
theorem Clean.exists_cuts {s : Spot} (h : s.Clean) : ∃ segments, Cuts segments s.cut := by
  obtain ⟨segments, hspell, hfit⟩ := h
  have hend : Fitting [] [.lineEnd] := ⟨trivial, trivial⟩
  refine ⟨segments ++ [.lineEnd], ?_, fitting_append.mpr ⟨hfit.of_head? (.inl rfl), hend⟩⟩
  rw [spell_append, hspell, cut, before, ofLines_append, ofLines_ofList, List.append_assoc]
  rfl

end Spot

end UnaryC.Lexical

namespace UnaryC.Token

open Lexical

/-- Scanning gets to every clean place with tokens that do not depend on what stands behind it, but
for the character there. -/
theorem exists_tokens_of_clean {s : Spot} (h : s.Clean) :
    ∃ tokens, ∀ right later, right = [] ∨ right.head? = s.right.head? →
      scan { s with right := right, later := later }.lines =
        (scanAt s.position none (String.ofList right :: later)).map (tokens ++ ·) := by
  obtain ⟨segments, hspell, hfit⟩ := h
  refine ⟨tokensFrom { line := 1, column := 1 } segments, fun right later hright => ?_⟩
  have hhead : (ofLines (String.ofList right :: later)).head? = some .lineEnd ∨
      (ofLines (String.ofList right :: later)).head? = s.behind.head? := by
    rw [Spot.behind, ofLines_ofList, ofLines_ofList]
    cases right with
    | nil => exact .inl rfl
    | cons c right =>
      obtain ⟨tail, htail⟩ := List.head?_eq_some_iff.mp (hright.resolve_left (by simp)).symm
      rw [htail]
      exact .inr rfl
  have hsplit : ofLines { s with right := right, later := later }.lines =
      spell segments ++ ofLines (String.ofList right :: later) := by
    rw [hspell]
    exact Spot.ofLines_lines _
  rw [scan_eq_scanAt, scanAt_fitting (hfit.of_head? hhead) hsplit, hspell, s.after_before]

theorem scan_of_clean {s : Spot} (h : s.Clean) :
    ∃ tokens, scan s.lines =
      (scanAt s.position none (String.ofList s.right :: s.later)).map (tokens ++ ·) := by
  obtain ⟨tokens, hscan⟩ := exists_tokens_of_clean h
  exact ⟨tokens, hscan s.right s.later (.inr rfl)⟩

theorem scan_unreadable {s : Spot} (h : s.Clean) (hright : Unreadable s.right) :
    ∃ c ∈ s.right.head?,
      scan s.lines = .error (.unexpectedChar c s.position.line s.position.column) := by
  obtain ⟨tokens, hscan⟩ := scan_of_clean h
  obtain ⟨c, hc, herror⟩ := scanAt_unreadable hright s.position s.later
  refine ⟨c, hc, ?_⟩
  rw [hscan, herror]
  rfl

theorem scan_unclosed {s : Spot} (h : s.Clean) (hopen : s.Unclosed) :
    scan s.lines = .error (.unterminatedComment s.position.line) := by
  obtain ⟨tokens, hscan⟩ := scan_of_clean h
  obtain ⟨text, hright, hnone⟩ := Spot.unclosed_iff.mp hopen
  rw [hscan, hright, scanAt_commentStart, scanAt_unterminated _ hnone]
  rfl

/-- Where scanning fails, and how. -/
theorem exists_spot_of_error {lines : List String} {e : LexError} (h : scan lines = .error e) :
    ∃ s : Spot, s.lines = lines ∧ s.Clean ∧ (Unreadable s.right ∨ s.Unclosed) := by
  obtain ⟨segments, lines', hfit, hsplit, hstop⟩ := exists_stop lines
  cases hstop with
  | ended =>
    have hcuts : Cuts segments lines := ⟨by rw [hsplit, ofLines_nil, List.append_nil], hfit⟩
    rw [scan_of_cuts hcuts] at h
    cases h
  | unreadable hright later =>
    obtain ⟨s, rfl, hbefore, rfl, rfl⟩ := exists_spot hsplit
    exact ⟨s, rfl, ⟨segments, hbefore.symm, hfit⟩, .inl hright⟩
  | unclosed hopen =>
    obtain ⟨s, rfl, hbefore, hright, rfl⟩ := exists_spot hsplit
    rw [← hright] at hfit
    exact ⟨s, rfl, ⟨segments, hbefore.symm, hfit⟩,
      .inr (Spot.unclosed_iff.mpr ⟨_, hright, hopen⟩)⟩

/-- Scanning fails with an unexpected character exactly if the character stands at a clean place and
no segment starts there, and with a comment that is not terminated exactly if it starts at a clean
place and is not closed. The text up to a clean place is scanned without a failure, and the lines
after the one with an unexpected character do not matter. -/
theorem scan_eq_error_iff (lines : List String) :
    (∀ c line column, scan lines = .error (.unexpectedChar c line column) ↔
      ∃ s : Spot, s.lines = lines ∧ s.position = { line := line, column := column } ∧ s.Clean ∧
        c ∈ s.right.head? ∧ Unreadable s.right) ∧
    (∀ line, scan lines = .error (.unterminatedComment line) ↔
      ∃ s : Spot, s.lines = lines ∧ s.position.line = line ∧ s.Clean ∧ s.Unclosed) ∧
    ∀ s : Spot, s.lines = lines → s.Clean →
      (∃ tokens, scan s.cut = .ok tokens) ∧
      (Unreadable s.right → ∀ later, scan { s with later := later }.lines = scan lines) := by
  refine ⟨fun c line column => ⟨fun h => ?_, ?_⟩, fun line => ⟨fun h => ?_, ?_⟩, ?_⟩
  · obtain ⟨s, rfl, hclean, hright | hopen⟩ := exists_spot_of_error h
    · obtain ⟨d, hd, hscan⟩ := scan_unreadable hclean hright
      rw [hscan] at h
      cases h
      exact ⟨s, rfl, rfl, hclean, hd, hright⟩
    · rw [scan_unclosed hclean hopen] at h
      cases h
  · rintro ⟨s, rfl, hposition, hclean, hc, hright⟩
    obtain ⟨d, hd, hscan⟩ := scan_unreadable hclean hright
    rw [hscan, hposition, Option.mem_unique hd hc]
  · obtain ⟨s, rfl, hclean, hright | hopen⟩ := exists_spot_of_error h
    · obtain ⟨d, -, hscan⟩ := scan_unreadable hclean hright
      rw [hscan] at h
      cases h
    · rw [scan_unclosed hclean hopen] at h
      cases h
      exact ⟨s, rfl, rfl, hclean, hopen⟩
  · rintro ⟨s, rfl, rfl, hclean, hopen⟩
    exact scan_unclosed hclean hopen
  · rintro s rfl hclean
    refine ⟨?_, fun hright later => ?_⟩
    · obtain ⟨segments, hcuts⟩ := hclean.exists_cuts
      exact ⟨_, scan_of_cuts hcuts⟩
    · obtain ⟨c, hc, hscan⟩ := scan_unreadable hclean hright
      obtain ⟨d, hd, hscan'⟩ := scan_unreadable (hclean.with_later later) hright
      rw [hscan, hscan', Option.mem_unique hd hc]
      rfl

/-- Behind a comment over two lines and a number, digits that run into a letter. -/
def glued : Spot :=
  { earlier := ["-/* 1x"]
    left := ['*', '/', '7', ' ']
    right := ['3', '4', '_', '@']
    later := ["/*"] }

/-- A comment with a sign of closing that is too early, and one on the next line that is torn. -/
def torn : Spot :=
  { earlier := [], left := ['7'], right := ['/', '*', '/'], later := ["*", "/"] }

theorem scan_eq_error_iff_glued :
    scan glued.lines = .error (.unexpectedChar '3' 2 5) ∧
    (∃ tokens, scan glued.cut = .ok tokens) ∧
    (∀ later, scan { glued with later := later }.lines = .error (.unexpectedChar '3' 2 5)) ∧
    scan torn.lines = .error (.unterminatedComment 1) := by
  have hglued : glued.Clean :=
    ⟨[.lexeme .minus ['-'], .blockComment (ofChars [' ', '1', 'x'] ++ [.lineEnd]),
      .lexeme .constant ['7'], .blanks [' ']], by decide, by decide⟩
  have hdigits : Unreadable glued.right :=
    ⟨by decide, by decide, by decide, fun h => absurd h (by decide),
      fun _ => ⟨['3', '4'], '_', ['@'], rfl, by decide, by decide⟩⟩
  have htorn : torn.Clean := ⟨[.lexeme .constant ['7']], by decide, by decide⟩
  have hopen : torn.Unclosed := ⟨['/'], rfl, by decide, by decide⟩
  obtain ⟨hunexpected, -, hclean⟩ := scan_eq_error_iff glued.lines
  have hscan := (hunexpected '3' 2 5).mpr ⟨glued, rfl, rfl, hglued, rfl, hdigits⟩
  obtain ⟨hcut, hlater⟩ := hclean glued rfl hglued
  refine ⟨hscan, hcut, fun later => (hlater hdigits later).trans hscan, ?_⟩
  exact ((scan_eq_error_iff torn.lines).2.1 1).mpr ⟨torn, rfl, rfl, htorn, hopen⟩

end UnaryC.Token
