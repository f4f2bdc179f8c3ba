import UnaryC.Proofs.ScanError

/-!
# Scanning one list of lines behind another

Between two lines the scanner remembers the number of the line and where an open comment began, and
nothing else. So lines that leave no comment open are scanned as they would be alone, only further
down. A comment that is left open passes over everything up to the first sign that closes it. The
same tokens come out if blanks stand there and the comment does not begin.
-/
namespace UnaryC

/-- The error in a text that stands `n` lines further down. -/
def LexError.shift (n : Nat) : LexError → LexError
  | unexpectedChar char line column => .unexpectedChar char (line + n) column
  | unterminatedComment line => .unterminatedComment (line + n)

namespace Token

/-- The token in a text that stands `n` lines further down. -/
def shift (n : Nat) (t : Token) : Token :=
  { t with line := t.line + n }

def Step.shift (n : Nat) (s : Step) : Step :=
  { s with token := s.token.map (Token.shift n), opened := s.opened.map (· + n) }

theorem step_shift (n line : Nat) (opened : Option Nat) (column : Nat) (c : Char)
    (rest : List Char) :
    step (line + n) (opened.map (· + n)) column c rest =
      ((step line opened column c rest).map (Step.shift n)).mapError (LexError.shift n) := by
  cases opened with
  | some start =>
    simp only [step, Option.map_some]
    cases commentLength? (c :: rest) <;> rfl
  | none =>
    simp only [step, Option.map_none]
    cases longest? (c :: rest) with
    | none => rfl
    | some m =>
      obtain ⟨length, effect⟩ := m
      cases effect <;> rfl

theorem scanLine_shift (n line : Nat) (opened : Option Nat) (column : Nat) (text : List Char) :
    scanLine (line + n) (opened.map (· + n)) column text =
      ((scanLine line opened column text).map fun r =>
        (r.1.map (shift n), r.2.map (· + n))).mapError (LexError.shift n) := by
  -- The induction is on the characters left, since a step may cover any number of them.
  induction hlength : text.length using Nat.strongRecOn generalizing opened column text with
  | ind m ih =>
    cases text with
    | nil =>
      rw [scanLine, scanLine]
      rfl
    | cons c rest =>
      have hshift := step_shift n line opened column c rest
      cases hstep : step line opened column c rest with
      | error e =>
        rw [hstep] at hshift
        rw [scanLine_of_error hshift, scanLine_of_error hstep]
        rfl
      | ok s =>
        rw [hstep] at hshift
        have hlt : ((c :: rest).drop s.length).length < m := by
          have hpos := step_pos hstep
          rw [← hlength, List.length_drop, List.length_cons]
          omega
        have hrest := ih _ hlt s.opened (column + s.length) _ rfl
        rw [scanLine_of_step hshift, scanLine_of_step hstep]
        simp only [Step.shift]
        rw [hrest]
        cases scanLine line s.opened (column + s.length) ((c :: rest).drop s.length) with
        | error e => rfl
        | ok r => cases s.token <;> rfl

/-- Lines further down are scanned as before. -/
theorem scanLines_shift (n line : Nat) (opened : Option Nat) (lines : List String) :
    scanLines (line + n) (opened.map (· + n)) lines =
      ((scanLines line opened lines).map (List.map (shift n))).mapError (LexError.shift n) := by
  induction lines generalizing line opened with
  | nil => cases opened <;> rfl
  | cons text lines ih =>
    simp only [scanLines]
    rw [scanLine_shift]
    cases scanLine line opened 1 text.toList with
    | error e => rfl
    | ok r =>
      have hmore := ih (line + 1) r.2
      rw [Nat.add_right_comm] at hmore
      change (scanLines (line + n + 1) (r.2.map (· + n)) lines).map (r.1.map (shift n) ++ ·) =
        (((scanLines (line + 1) r.2 lines).map (r.1 ++ ·)).map (List.map (shift n))).mapError _
      rw [hmore]
      cases scanLines (line + 1) r.2 lines with
      | error e => rfl
      | ok more => exact congrArg Except.ok List.map_append.symm

end Token

end UnaryC

namespace UnaryC.Lexical

/-- The one segment that ends with the end of a line. -/
theorem Segment.Fits.eq_lineEnd {segment : Segment} {rest : List Symbol} (h : segment.Fits rest)
    (hlast : segment.symbols.getLast? = some .lineEnd) : segment = .lineEnd := by
  have hchars : ∀ chars : List Char, (ofChars chars).getLast? ≠ some .lineEnd := by
    intro chars hc
    have hmem := List.mem_of_getLast? hc
    simp [ofChars] at hmem
  cases segment with
  | lineEnd => rfl
  | blanks chars => exact absurd hlast (hchars chars)
  | lineComment body => exact absurd hlast (hchars _)
  | lexeme kind text => exact absurd hlast (hchars text)
  | blockComment body =>
    rw [symbols, closing, List.getLast?_append] at hlast
    simp [ofChars] at hlast

theorem getLast?_ofLines {lines : List String} (h : ofLines lines ≠ []) :
    (ofLines lines).getLast? = some .lineEnd := by
  rcases List.eq_nil_or_concat lines with rfl | ⟨front, last, rfl⟩
  · exact absurd rfl h
  · rw [List.concat_eq_append, ofLines_append, ofLines_cons, ofLines_nil, ← List.append_assoc,
      List.getLast?_concat]

/-- A cut of whole lines can stand before any text. -/
theorem Cuts.fitting_before {segments : List Segment} {lines : List String}
    (h : Cuts segments lines) (rest : List Symbol) : Fitting rest segments := by
  rcases List.eq_nil_or_concat segments with rfl | ⟨front, last, rfl⟩
  · trivial
  · obtain ⟨hspells, hfitting⟩ := h
    rw [List.concat_eq_append] at hspells hfitting ⊢
    obtain ⟨hfront, hlast⟩ := fitting_append.mp hfitting
    have hend : last = .lineEnd := by
      have hne := hlast.1.symbols_ne_nil
      have hsplit : ofLines lines = spell front ++ last.symbols := by
        rw [← hspells, spell_append, spell_cons]
        exact congrArg _ (List.append_nil _)
      have hend : (ofLines lines).getLast? = _ := getLast?_ofLines (by simp [hsplit, hne])
      rw [hsplit, List.getLast?_append, List.getLast?_eq_some_getLast hne, Option.some_or] at hend
      exact hlast.1.eq_lineEnd ((List.getLast?_eq_some_getLast hne).trans hend)
    subst hend
    exact fitting_append.mpr ⟨hfront.of_head? (.inl rfl), trivial, trivial⟩

/-- A space for each character. -/
def blanked (chars : List Char) : List Char :=
  chars.map fun _ => ' '

theorem isBlank_blanked (chars : List Char) : ∀ c ∈ blanked chars, Text.isBlank c = true := by
  intro c hc
  obtain ⟨_, -, rfl⟩ := List.mem_map.mp hc
  decide

theorem after_blanked (p : Position) (chars : List Char) :
    p.after (ofChars (blanked chars)) = p.after (ofChars chars) := by
  rw [Position.after_ofChars, Position.after_ofChars, blanked, List.length_map]

namespace Spot

theorem lines_append (s : Spot) (b : List String) :
    s.lines ++ b = { s with later := s.later ++ b }.lines := by
  simp only [lines, List.append_assoc, List.cons_append]

/-- The lines cut off at that place, with an empty line for each later one. -/
def padded (s : Spot) : List String :=
  s.cut ++ List.replicate s.later.length ""

/-- The first sign of closing in the lines is there. -/
structure Closes (s : Spot) : Prop where
  sign : ['*', '/'] <+: s.right
  left : ¬ ['*', '/'] <:+: s.left
  earlier : ∀ line ∈ s.earlier, ¬ ['*', '/'] <:+: line.toList

/-- The lines with a space for each character before that place and for the two behind it. -/
def blankedOut (s : Spot) : List String :=
  s.earlier.map (fun line => String.ofList (blanked line.toList)) ++
    String.ofList (blanked (s.left ++ s.right.take 2) ++ s.right.drop 2) :: s.later

/-- Lines with a sign of closing have a first one. -/
theorem exists_closes {lines : List String} (h : ∃ line ∈ lines, ['*', '/'] <:+: line.toList) :
    ∃ s : Spot, s.lines = lines ∧ s.Closes := by
  induction lines with
  | nil => simp at h
  | cons line lines ih =>
    rcases split_closing_ofChars line.toList with hnone | ⟨left, right, hline, hleft⟩
    · rw [closing_infix_ofChars] at hnone
      have hlater : ∃ line ∈ lines, ['*', '/'] <:+: line.toList := by simpa [hnone] using h
      obtain ⟨s, rfl, hs⟩ := ih hlater
      refine ⟨{ s with earlier := line :: s.earlier }, rfl, hs.sign, hs.left, ?_⟩
      exact List.forall_mem_cons.mpr ⟨hnone, hs.earlier⟩
    · refine ⟨⟨[], left, ['*', '/'] ++ right, lines⟩, ?_, List.prefix_append _ _, ?_, by simp⟩
      · change String.ofList (left ++ '*' :: '/' :: right) :: lines = line :: lines
        rw [← hline, String.ofList_toList]
      · rwa [← closing_infix_ofChars]

/-- The text before the first sign of closing has none. -/
theorem Closes.not_closing_before {s : Spot} (h : s.Closes) : ¬ closing <:+: s.before := by
  intro hinfix
  have hcut : closing <:+: ofLines s.cut := by
    rw [cut, ofLines_append, ofLines_ofList, ofLines_nil, ← List.append_assoc]
    exact List.infix_append_of_infix_left hinfix
  obtain ⟨line, hline, hclosing⟩ := closing_infix_ofLines.mp hcut
  rcases List.mem_append.mp hline with hearlier | hleft
  · exact h.earlier line hearlier hclosing
  · rw [List.mem_singleton.mp hleft, String.toList_ofList] at hclosing
    exact h.left hclosing

end Spot

end UnaryC.Lexical

namespace UnaryC.Token

open Lexical

/-- Lines without a sign of closing do not end a comment. -/
theorem scanAt_commentLines {lines : List String}
    (h : ∀ line ∈ lines, ¬ ['*', '/'] <:+: line.toList) (p : Position) (start : Nat)
    (rest : List String) :
    scanAt p (some start) (lines ++ rest) = scanAt (p.after (ofLines lines)) (some start) rest := by
  induction lines generalizing p with
  | nil => rfl
  | cons line lines ih =>
    obtain ⟨hline, hlines⟩ := List.forall_mem_cons.mp h
    rw [← closing_infix_ofChars] at hline
    rw [List.cons_append, ← String.ofList_toList (s := line), scanAt_unclosed hline, ih hlines,
      ← Position.after_append, ofLines_ofList, List.append_assoc]
    rfl

/-- Lines of blanks are passed over. -/
theorem scanAt_blankLines (p : Position) (lines rest : List String) :
    scanAt p none (lines.map (fun line => String.ofList (blanked line.toList)) ++ rest) =
      scanAt (p.after (ofLines lines)) none rest := by
  induction lines generalizing p with
  | nil => rfl
  | cons line lines ih =>
    have hline := scanAt_blanks (isBlank_blanked line.toList) p []
      (lines.map (fun line => String.ofList (blanked line.toList)) ++ rest)
    rw [List.append_nil] at hline
    rw [List.map_cons, List.cons_append, hline, String.ofList_nil, scanAt_lineEnd, ih,
      after_blanked, ← Position.after_append, ← Position.after_append, ofLines_cons]
    rfl

theorem scanAt_emptyLines (p : Position) (n : Nat) (rest : List String) :
    scanAt p none (List.replicate n "" ++ rest) =
      scanAt (p.after (ofLines (List.replicate n ""))) none rest := by
  rw [← scanAt_blankLines, List.map_replicate]
  rfl

/-- Inside a comment, what stands before the first sign of closing may as well be blanks. -/
theorem scanAt_blankedOut {s : Spot} (h : s.Closes) (p : Position) (start : Nat) :
    scanAt p (some start) s.lines = scanAt p none s.blankedOut := by
  obtain ⟨rest, hright⟩ := h.sign
  have hlines : ofLines s.lines =
      s.before ++ closing ++ ofLines (String.ofList rest :: s.later) := by
    rw [s.ofLines_lines, Spot.behind, ← hright, ofLines_ofList, ofLines_ofList, ofChars_append]
    simp only [closing, List.append_assoc]
  obtain ⟨lines', hrest, hscan⟩ := scanAt_comment s.lines h.not_closing_before hlines p start
  rw [← ofLines_injective hrest] at hscan
  have hblanked : s.blankedOut = s.earlier.map (fun line => String.ofList (blanked line.toList)) ++
      String.ofList (blanked (s.left ++ ['*', '/']) ++ rest) :: s.later := by
    rw [Spot.blankedOut, ← hright]
    rfl
  rw [hscan, hblanked, scanAt_blankLines, scanAt_blanks (isBlank_blanked _), after_blanked,
    ← Position.after_append, ofChars_append, Spot.before, List.append_assoc]
  rfl

/-- Lines that leave no comment open, and any lines behind them. -/
theorem scan_append_of_cuts {segments : List Segment} {a : List String} (h : Cuts segments a)
    (b : List String) :
    scan (a ++ b) = ((scan b).map fun tokens =>
      tokensFrom { line := 1, column := 1 } segments ++ tokens.map (shift a.length)).mapError
        (LexError.shift a.length) := by
  have hsplit : ofLines (a ++ b) = spell segments ++ ofLines b := by rw [ofLines_append, h.spells]
  rw [scan_eq_scanAt, scanAt_fitting (h.fitting_before _) hsplit, h.spells,
    Position.after_ofLines, ← scanLines_eq_scanAt]
  have hshift := scanLines_shift a.length 1 none b
  rw [Option.map_none] at hshift
  rw [hshift, scan]
  cases scanLines 1 none b <;> rfl

/-- A comment left open by the lines before goes on in those behind, as if it began on its own line
there. -/
theorem scan_append_of_unclosed {s : Spot} (hclean : s.Clean) (hopen : s.Unclosed) :
    ∃ tokens,
      (∀ b, scan (s.lines ++ b) = (scanAt { line := s.lines.length + 1, column := 1 }
        (some s.position.line) b).map (tokens ++ ·)) ∧
      ∀ b, scan (s.padded ++ b) =
        (scanAt { line := s.lines.length + 1, column := 1 } none b).map (tokens ++ ·) := by
  obtain ⟨tokens, hscan⟩ := exists_tokens_of_clean hclean
  obtain ⟨text, hright, htext, hlater⟩ := hopen
  have hlength : s.lines.length + 1 = s.position.line + 1 + s.later.length := by
    simp only [Spot.lines, Spot.position, List.length_append, List.length_cons]
    omega
  refine ⟨tokens, fun b => ?_, fun b => ?_⟩
  · have hcomment : ∀ line ∈ String.ofList text :: s.later, ¬ ['*', '/'] <:+: line.toList := by
      refine List.forall_mem_cons.mpr ⟨?_, hlater⟩
      rwa [String.toList_ofList]
    rw [s.lines_append, hscan s.right (s.later ++ b) (.inr rfl), hright, scanAt_commentStart,
      ← List.cons_append, scanAt_commentLines hcomment, Position.after_ofLines_cons,
      Position.after_ofChars, hlength]
  · have hlines : s.padded ++ b =
        { s with right := [], later := List.replicate s.later.length "" ++ b }.lines := by
      simp only [Spot.padded, Spot.cut, Spot.lines, List.append_assoc, List.append_nil,
        List.cons_append, List.nil_append]
    rw [hlines, hscan [] _ (.inl rfl), String.ofList_nil, scanAt_lineEnd, scanAt_emptyLines,
      Position.after_lineEnd, Position.after_ofLines, List.length_replicate, hlength]

/-- Lines that are scanned without a failure leave those behind them as they are, but for the
numbers of the lines, and put their tokens in front. An unexpected character stays one, whatever
stands behind. So does a comment that is left open, unless a later line closes it: then it may as
well not begin, with blanks in place of all that it passes over. -/
theorem scan_append (a b : List String) :
    (∀ tokens, scan a = .ok tokens → ∃ front, tokens = front ++ [endOfInput (a.length + 1)] ∧
      scan (a ++ b) = ((scan b).map fun tokens => front ++ tokens.map (shift a.length)).mapError
        (LexError.shift a.length)) ∧
    (∀ c line column, scan a = .error (.unexpectedChar c line column) →
      scan (a ++ b) = .error (.unexpectedChar c line column)) ∧
    ∀ start, scan a = .error (.unterminatedComment start) →
      ((∀ line ∈ b, ¬ ['*', '/'] <:+: line.toList) →
        scan (a ++ b) = .error (.unterminatedComment start)) ∧
      ((∃ line ∈ b, ['*', '/'] <:+: line.toList) →
        (∃ s : Spot, s.lines = a ∧ s.Clean ∧ s.Unclosed) ∧ (∃ t : Spot, t.lines = b ∧ t.Closes) ∧
        ∀ s t : Spot, s.lines = a → s.Clean → s.Unclosed → t.lines = b → t.Closes →
          s.position.line = start ∧ scan (a ++ b) = scan (s.padded ++ t.blankedOut)) := by
  refine ⟨fun tokens h => ?_, fun c line column h => ?_, fun start h => ?_⟩
  · have hscan := h
    rw [scan_eq_scanAt] at hscan
    obtain ⟨segments, hcuts⟩ := exists_cuts hscan
    rw [scan_of_cuts hcuts] at h
    exact ⟨_, (Except.ok.inj h).symm, scan_append_of_cuts hcuts b⟩
  · obtain ⟨s, rfl, hclean, hright | hopen⟩ := exists_spot_of_error h
    · obtain ⟨d, hd, hscan⟩ := scan_unreadable hclean hright
      obtain ⟨d', hd', hscan'⟩ := scan_unreadable (hclean.with_later (s.later ++ b)) hright
      rw [s.lines_append, hscan', ← h, hscan, Option.mem_unique hd' hd]
      rfl
    · rw [scan_unclosed hclean hopen] at h
      cases h
  · obtain ⟨s, rfl, hclean, hright | hopen⟩ := exists_spot_of_error h
    · obtain ⟨d, -, hscan⟩ := scan_unreadable hclean hright
      rw [hscan] at h
      cases h
    · have hstart : ∀ t : Spot, t.lines = s.lines → t.Clean → t.Unclosed →
          t.position.line = start := by
        intro t ht htclean htopen
        rw [← ht, scan_unclosed htclean htopen] at h
        cases h
        rfl
      refine ⟨fun hnone => ?_, fun hclosed => ⟨⟨s, rfl, hclean, hopen⟩,
        Spot.exists_closes hclosed, fun s' t hs hclean' hopen' ht hcloses => ?_⟩⟩
      · obtain ⟨tokens, hscan, -⟩ := scan_append_of_unclosed hclean hopen
        have hinfix : ¬ closing <:+: ofLines b := fun hinfix => by
          obtain ⟨line, hline, hclosing⟩ := closing_infix_ofLines.mp hinfix
          exact hnone line hline hclosing
        rw [hscan, scanAt_unterminated b hinfix, hstart s rfl hclean hopen]
        rfl
      · obtain ⟨tokens, hscan, hpadded⟩ := scan_append_of_unclosed hclean' hopen'
        refine ⟨hstart s' hs hclean' hopen', ?_⟩
        rw [← hs, ← ht, hscan, hpadded, scanAt_blankedOut hcloses]

/-- A comment that is open at the end of two lines. -/
def leftOpen : Spot :=
  { earlier := [], left := ['-'], right := ['/', '*', '/', ' ', 'x'], later := ["y"] }

/-- Its first sign of closing, on the second of three lines. -/
def closedLater : Spot :=
  { earlier := ["/*"], left := ['*'], right := ['*', '/', ' ', '7'], later := ["@"] }

theorem scan_append_leftOpen :
    scan leftOpen.lines = .error (.unterminatedComment 1) ∧
    scan (leftOpen.lines ++ ["*", "/"]) = .error (.unterminatedComment 1) ∧
    scan (leftOpen.lines ++ closedLater.lines) = scan ["-", "", "  ", "    7", "@"] ∧
    (∀ b, scan (["@"] ++ b) = .error (.unexpectedChar '@' 1 1)) ∧
    scan (["-"] ++ ["", "7"]) = .ok [⟨.minus, some "-", 1, 1⟩, ⟨.constant, some "7", 3, 1⟩,
      ⟨.eof, none, 4, 1⟩] := by
  have hclean : leftOpen.Clean := ⟨[.lexeme .minus ['-']], by decide, by decide⟩
  have hunclosed : leftOpen.Unclosed := ⟨['/', ' ', 'x'], rfl, by decide, by decide⟩
  have hcloses : closedLater.Closes := ⟨by decide, by decide, by decide⟩
  have hopen : scan leftOpen.lines = .error (.unterminatedComment 1) :=
    scan_unclosed hclean hunclosed
  have hunexpected : scan ["@"] = .error (.unexpectedChar '@' 1 1) := by
    have hclean : Spot.Clean ⟨[], [], ['@'], []⟩ := ⟨[], rfl, trivial⟩
    have hdigit : ¬ IsDigit '@' := by decide
    obtain ⟨c, hc, hscan⟩ := scan_unreadable hclean
      ⟨by decide, by decide, by decide, by decide, fun h => absurd h hdigit⟩
    cases hc
    exact hscan
  have hminus : Cuts [.lexeme .minus ['-'], .lineEnd] ["-"] := by decide
  have hseven : Cuts [.lineEnd, .lexeme .constant ['7'], .lineEnd] ["", "7"] := by decide
  obtain ⟨front, hfront, hscan⟩ := (scan_append ["-"] ["", "7"]).1 _ (scan_of_cuts hminus)
  obtain ⟨hnone, -⟩ := (scan_append leftOpen.lines ["*", "/"]).2.2 1 hopen
  obtain ⟨-, hclosed⟩ := (scan_append leftOpen.lines closedLater.lines).2.2 1 hopen
  obtain ⟨-, -, hsame⟩ := hclosed ⟨"**/ 7", by decide, by decide⟩
  refine ⟨hopen, hnone (by decide), ?_, fun b => (scan_append ["@"] b).2.1 _ _ _ hunexpected, ?_⟩
  · exact (hsame leftOpen closedLater rfl hclean hunclosed rfl hcloses).2
  · rw [hscan, ← List.append_cancel_right hfront, scan_of_cuts hseven]
    rfl

end UnaryC.Token
