import Mathlib.Data.List.Forall2
import UnaryC.Pipeline
import UnaryC.Proofs.Rendering

/-!
# Line endings do not matter

With a carriage return before every line feed, a text has as many lines as before, and each of them
is what it was or has one carriage return more at its end. That is a blank. A blank at the end of a
line is passed over by itself, or belongs to blanks or to a comment that reach the end anyway; it
changes no lexeme before it, and a character that starts no segment still starts none.
-/
namespace UnaryC

namespace Text

/-- The text with a carriage return before every line feed. -/
def withReturns (text : List Char) : List Char :=
  text.flatMap fun c => if c = '\n' then ['\r', '\n'] else [c]

def crlf (source : String) : String :=
  String.ofList (withReturns source.toList)

/-- The second line is the first, or has one blank more at its end. -/
inductive Trails (line : List Char) : List Char → Prop
  | same : Trails line line
  | blank {b : Char} (hb : isBlank b = true) : Trails line (line ++ [b])

theorem Trails.cons {line line' : List Char} (h : Trails line line') (c : Char) :
    Trails (c :: line) (c :: line') := by
  cases h with
  | same => exact .same
  | blank hb => exact .blank hb

theorem withReturns_lineFeed (text : List Char) :
    withReturns ('\n' :: text) = '\r' :: '\n' :: withReturns text :=
  rfl

theorem withReturns_cons {c : Char} (hc : c ≠ '\n') (text : List Char) :
    withReturns (c :: text) = c :: withReturns text := by
  simp [withReturns, hc]

theorem head?_withReturns (text : List Char) : (withReturns text).head? ≠ some '\n' := by
  cases text with
  | nil => simp [withReturns]
  | cons c text =>
    by_cases hc : c = '\n'
    · subst hc
      simp [withReturns_lineFeed]
    · simp [withReturns_cons hc, hc]

/-- A character that neither ends a line nor belongs to its end begins the first line. -/
theorem splitLines_cons {c : Char} {text : List Char} (hc : c ≠ '\n')
    (hreturn : c = '\r' → text.head? ≠ some '\n') :
    splitLines (c :: text) = (c :: (splitLines text).headD []) :: (splitLines text).tail := by
  rw [splitLines]
  · cases splitLines text <;> rfl
  · exact hc
  · rintro rest rfl rfl
    exact hreturn rfl rfl

theorem newline_not_mem_splitLines (text : List Char) : ∀ line ∈ splitLines text, '\n' ∉ line := by
  fun_induction splitLines text with
  | case1 => simp
  | case2 rest ih => exact List.forall_mem_cons.mpr ⟨by simp, ih⟩
  | case3 rest ih => exact List.forall_mem_cons.mpr ⟨by simp, ih⟩
  | case4 c rest hfeed hreturn hnil ih =>
    exact List.forall_mem_singleton.mpr (by simpa using Ne.symm hfeed)
  | case5 c rest hfeed hreturn line lines hlines ih =>
    rw [hlines] at ih
    obtain ⟨hline, hrest⟩ := List.forall_mem_cons.mp ih
    exact List.forall_mem_cons.mpr ⟨by simpa [hline] using Ne.symm hfeed, hrest⟩

theorem newline_not_mem_lines (source : String) : ∀ line ∈ lines source, '\n' ∉ line.toList := by
  refine List.forall_mem_map.mpr fun line hline => ?_
  rw [String.toList_ofList]
  exact newline_not_mem_splitLines source.toList line hline

theorem splitLines_withReturns (text : List Char) :
    List.Forall₂ Trails (splitLines text) (splitLines (withReturns text)) := by
  have hcons : ∀ {c : Char} {rest : List Char}, (c = '\n' → False) →
      splitLines (withReturns (c :: rest)) = (c :: (splitLines (withReturns rest)).headD []) ::
        (splitLines (withReturns rest)).tail := by
    intro c rest hc
    rw [withReturns_cons hc, splitLines_cons hc fun _ => head?_withReturns rest]
  fun_induction splitLines text with
  | case1 => exact .nil
  | case2 rest ih =>
    rw [withReturns_lineFeed, splitLines]
    exact .cons .same ih
  | case3 rest ih =>
    rw [hcons (by decide), withReturns_lineFeed, splitLines]
    exact .cons (.blank (by decide)) ih
  | case4 c rest hfeed hreturn hnil ih =>
    rw [hnil] at ih
    rw [hcons hfeed, List.forall₂_nil_left_iff.mp ih]
    exact .cons .same .nil
  | case5 c rest hfeed hreturn line lines hlines ih =>
    rw [hlines] at ih
    obtain ⟨line', lines', hline, htail, hsplit⟩ := List.forall₂_cons_left_iff.mp ih
    rw [hcons hfeed, hsplit]
    exact .cons (hline.cons c) htail

end Text

open Text (isBlank)
open Lexical

namespace Lexical

theorem ne_of_isBlank {b c : Char} (hb : isBlank b = true) (hc : isBlank c = false) : b ≠ c := by
  rintro rfl
  rw [hb] at hc
  cases hc

/-- A lexeme can stand before a blank where it can stand at the end of a line. -/
theorem mayPrecede_concat_blank {kind : Token.Kind} {rest : List Char} {b : Char}
    (hb : isBlank b = true) (h : MayPrecede rest.head? kind) :
    MayPrecede (rest ++ [b]).head? kind := by
  cases rest with
  | cons c rest => exact h
  | nil =>
    refine mayPrecede_of_ne (fun _ c hc => ?_) fun _ hminus => ?_
    · cases hc
      exact Token.not_isWordChar_of_isBlank hb
    · exact ne_of_isBlank hb (by decide) (Option.some.inj hminus)

theorem Unreadable.concat_blank {text : List Char} {b : Char} (hb : isBlank b = true)
    (h : Unreadable text) : Unreadable (text ++ [b]) := by
  cases text with
  | nil => cases h
  | cons c rest =>
    obtain ⟨hblank, hletter, hmark, hslash, hdigit⟩ := h
    have hhead : ∀ d, isBlank d = false → rest.head? ≠ some d → (rest ++ [b]).head? ≠ some d := by
      intro d hd hrest
      cases rest with
      | cons e rest => exact hrest
      | nil => exact fun h => ne_of_isBlank hb hd (Option.some.inj h)
    refine ⟨hblank, hletter, hmark, fun hc => ?_, fun hc => ?_⟩
    · obtain ⟨hline, hblock⟩ := hslash hc
      exact ⟨hhead '/' (by decide) hline, hhead '*' (by decide) hblock⟩
    · obtain ⟨digits, d, more, hsplit, hdigits, hd⟩ := hdigit hc
      refine ⟨digits, d, more ++ [b], ?_, hdigits, hd⟩
      change (c :: rest) ++ [b] = _
      rw [hsplit, List.append_assoc, List.cons_append]

theorem not_closing_concat_blank {text : List Char} {b : Char} (hb : isBlank b = true)
    (h : ¬ closing <:+: ofChars text) : ¬ closing <:+: ofChars (text ++ [b]) := by
  intro hclosing
  rw [ofChars_append] at hclosing
  rcases List.infix_concat_iff.mp hclosing with hsuffix | hinfix
  · -- The blank would be the second of the two characters that close the comment.
    obtain hnil | ⟨front, hfront, -⟩ := List.suffix_concat_iff.mp hsuffix
    · cases hnil
    · have hlast : some (Symbol.char '/') = some (.char b) :=
        (congrArg List.getLast? hfront).trans List.getLast?_concat
      exact ne_of_isBlank hb (by decide) (Symbol.char.inj (Option.some.inj hlast)).symm
  · exact h hinfix

end Lexical

namespace Token

/-- Behind the last character of a line, a blank makes no difference. -/
theorem scanAt_blank_lineEnd {b : Char} (hb : isBlank b = true) (p : Position)
    (lines : List String) :
    scanAt p none (String.ofList [b] :: lines) = scanAt p none ("" :: lines) := by
  have hblank : ∀ c ∈ [b], isBlank c = true := List.forall_mem_singleton.mpr hb
  have hblanks := scanAt_blanks hblank p [] lines
  rw [List.append_nil, String.ofList_nil] at hblanks
  rw [hblanks, scanAt_lineEnd, scanAt_lineEnd]
  rfl

/-- A blank at the end of a line makes no difference, in a comment or not. -/
theorem scanAt_concat_blank {b : Char} (hb : isBlank b = true) (text : List Char)
    (lines : List String) (p : Position) (opened : Option Nat) :
    scanAt p opened (String.ofList (text ++ [b]) :: lines) =
      scanAt p opened (String.ofList text :: lines) := by
  -- The induction is on the characters left on the line; a segment takes at least one of them.
  induction hlength : text.length using Nat.strongRecOn generalizing text p opened with
  | ind n ih =>
    cases opened with
    | some start =>
      rcases split_closing_ofChars text with hopen | ⟨body, rest, rfl, hbody⟩
      · rw [scanAt_unclosed (not_closing_concat_blank hb hopen), scanAt_unclosed hopen,
          Position.after_line, Position.after_line]
      · have hlt : rest.length < n := by
          rw [← hlength, List.length_append, List.length_cons, List.length_cons]
          omega
        rw [List.append_assoc, List.cons_append, List.cons_append, scanAt_closed hbody,
          scanAt_closed hbody]
        exact ih _ hlt rest _ none rfl
    | none =>
      cases text with
      | nil => exact scanAt_blank_lineEnd hb p lines
      | cons c rest =>
        have hhead := head_cons c rest
        generalize c :: rest = text at hhead hlength ⊢
        cases hhead with
        | @blanks chars rest hne hblank =>
          have hlt : rest.length < n := by
            have hpos := List.length_pos_iff.mpr hne
            rw [← hlength, List.length_append]
            omega
          rw [List.append_assoc, scanAt_blanks hblank, scanAt_blanks hblank]
          exact ih _ hlt rest _ none rfl
        | lineComment body =>
          rw [List.cons_append, List.cons_append, scanAt_lineComment, scanAt_lineComment,
            scanAt_lineEnd, scanAt_lineEnd, ← Position.after_append, ← Position.after_append,
            Position.after_line, Position.after_line]
        | commentStart rest =>
          have hlt : rest.length < n := by
            rw [← hlength, List.length_cons, List.length_cons]
            omega
          rw [List.cons_append, List.cons_append, scanAt_commentStart, scanAt_commentStart]
          exact ih _ hlt rest _ _ rfl
        | @lexeme kind text rest hlexeme hrest =>
          have hlt : rest.length < n := by
            have hpos := List.length_pos_iff.mpr (isLexeme_ne_nil hlexeme)
            rw [← hlength, List.length_append]
            omega
          rw [List.append_assoc, scanAt_lexeme hlexeme p (mayPrecede_concat_blank hb hrest),
            scanAt_lexeme hlexeme p hrest, ih _ hlt rest _ none rfl]
        | unreadable h =>
          obtain ⟨d, hd, hscan⟩ := scanAt_unreadable h p lines
          obtain ⟨d', hd', hscan'⟩ := scanAt_unreadable (h.concat_blank hb) p lines
          rw [List.head?_append, Option.mem_def.mp hd] at hd'
          cases hd'
          rw [hscan, hscan']

/-- Lines with a blank more at their ends are scanned alike. -/
theorem scanAt_trails {lines lines' : List (List Char)} (h : List.Forall₂ Text.Trails lines lines')
    (p : Position) (opened : Option Nat) :
    scanAt p opened (lines'.map String.ofList) = scanAt p opened (lines.map String.ofList) := by
  induction h generalizing p opened with
  | nil => rfl
  | @cons line line' lines lines' hline hlines ih =>
    have hrest : ∀ n opened, scanLines n opened (lines'.map String.ofList) =
        scanLines n opened (lines.map String.ofList) := by
      intro n opened
      rw [scanLines_eq_scanAt, scanLines_eq_scanAt, ih]
    have hsame : ∀ text, scanAt p opened (text :: lines'.map String.ofList) =
        scanAt p opened (text :: lines.map String.ofList) := by
      intro text
      simp only [scanAt, hrest]
    rw [List.map_cons, List.map_cons, hsame]
    cases hline with
    | same => rfl
    | blank hb => exact scanAt_concat_blank hb line _ p opened

end Token

/-- Every stage reads the lines through their tokens. -/
theorem compile_eq_of_scan_eq {lines lines' : List String}
    (h : Token.scan lines = Token.scan lines') (stage : Stage) :
    compile lines stage = compile lines' stage := by
  have hscan : scanSource lines = scanSource lines' := by rw [scanSource, scanSource, h]
  have hparse : parseSource lines = parseSource lines' := by rw [parseSource, parseSource, hscan]
  have hlower : lowerSource lines = lowerSource lines' := by rw [lowerSource, lowerSource, hparse]
  cases stage with
  | lex => rw [compile, compile, hscan]
  | parse => rw [compile, compile, hparse]
  | tacky => rw [compile, compile, hlower]
  | codegen => rw [compile, compile, generateSource, generateSource, hlower]

/-- Line endings do not matter. With a carriage return before every line feed, whatever stood there
before, a text is compiled to the same artifact, with the same lines and columns, or fails with the
same error. -/
theorem compile_crlf (source : String) (stage : Stage) :
    compile (Text.lines (Text.crlf source)) stage = compile (Text.lines source) stage := by
  refine compile_eq_of_scan_eq ?_ stage
  have htrails := Text.splitLines_withReturns source.toList
  rw [Token.scan_eq_scanAt, Token.scan_eq_scanAt, Text.lines, Text.lines, Text.crlf,
    String.toList_ofList]
  exact Token.scanAt_trails htrails _ none

end UnaryC
