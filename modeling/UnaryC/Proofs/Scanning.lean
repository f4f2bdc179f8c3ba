import UnaryC.Proofs.LongestMatch

/-!
# Scanning follows the lexical grammar

The scanner, started anywhere in a line, passes over a segment of the grammar in one go or several:
it is then at the position behind the segment, and has made the segment's token. So what it makes of
a whole text are the tokens of any cut of the text. Conversely, where the scanner gets on, it gets
on by a segment.
-/
namespace UnaryC.Token

open Text (isBlank)
open Lexical

/-- Scans `lines`, of which the first starts at `p`: its characters before that are not there. -/
def scanAt (p : Position) (opened : Option Nat) : List String → Except LexError (List Token)
  | [] => scanLines p.line opened []
  | text :: lines => do
    let (tokens, opened) ← scanLine p.line opened p.column text.toList
    let more ← scanLines (p.line + 1) opened lines
    return tokens ++ more

theorem scanLines_eq_scanAt (line : Nat) (opened : Option Nat) (lines : List String) :
    scanLines line opened lines = scanAt { line := line, column := 1 } opened lines := by
  cases lines <;> rfl

theorem scan_eq_scanAt (lines : List String) :
    scan lines = scanAt { line := 1, column := 1 } none lines :=
  scanLines_eq_scanAt 1 none lines

/-- At the end of a line scanning goes on with the next. -/
theorem scanAt_lineEnd (p : Position) (opened : Option Nat) (lines : List String) :
    scanAt p opened ("" :: lines) = scanAt (p.after [.lineEnd]) opened lines := by
  rw [Position.after_lineEnd, ← scanLines_eq_scanAt, scanAt, String.toList_empty, scanLine]
  simp only [bind, Except.bind, pure, Except.pure, List.nil_append]
  cases scanLines (p.line + 1) opened lines <;> rfl

theorem scanLine_of_error {line column : Nat} {opened : Option Nat} {c : Char} {rest : List Char}
    {e : LexError} (h : step line opened column c rest = .error e) :
    scanLine line opened column (c :: rest) = .error e := by
  rw [scanLine]
  split
  next e' he => rw [h] at he; cases he; rfl
  next s hs => rw [h] at hs; cases hs

theorem scanLine_of_step {line column : Nat} {opened : Option Nat} {c : Char} {rest : List Char}
    {s : Step} (h : step line opened column c rest = .ok s) :
    scanLine line opened column (c :: rest) =
      (scanLine line s.opened (column + s.length) ((c :: rest).drop s.length)).map
        fun r => (s.token.toList ++ r.1, r.2) := by
  rw [scanLine]
  split
  next e he => rw [h] at he; cases he
  next s' hs =>
    rw [h] at hs
    cases hs
    cases scanLine line s.opened (column + s.length) ((c :: rest).drop s.length) <;> rfl

theorem scanAt_of_step {p : Position} {opened : Option Nat} {c : Char} {rest : List Char}
    {s : Step} (h : step p.line opened p.column c rest = .ok s) (lines : List String) :
    scanAt p opened (String.ofList (c :: rest) :: lines) =
      (scanAt { p with column := p.column + s.length } s.opened
        (String.ofList ((c :: rest).drop s.length) :: lines)).map (s.token.toList ++ ·) := by
  simp only [scanAt, String.toList_ofList]
  rw [scanLine_of_step h]
  cases scanLine p.line s.opened (p.column + s.length) ((c :: rest).drop s.length) with
  | error e => rfl
  | ok r =>
    simp only [Except.map, bind, Except.bind, pure, Except.pure]
    cases scanLines (p.line + 1) r.2 lines with
    | error e => rfl
    | ok more => simp

theorem scanAt_of_unmatched {p : Position} {c : Char} {rest : List Char}
    (h : longest? (c :: rest) = none) (lines : List String) :
    scanAt p none (String.ofList (c :: rest) :: lines) =
      .error (.unexpectedChar c p.line p.column) := by
  have hstep : step p.line none p.column c rest = .error (.unexpectedChar c p.line p.column) := by
    simp only [step, h]
  simp only [scanAt, String.toList_ofList]
  rw [scanLine_of_error hstep]
  rfl

theorem map_nil_append (x : Except LexError (List Token)) : x.map ([] ++ ·) = x := by
  cases x <;> rfl

theorem drop_length_takeWhile (p : Char → Bool) (text : List Char) :
    text.drop (text.takeWhile p).length = text.dropWhile p := by
  have hdrop : (text.takeWhile p ++ text.dropWhile p).drop (text.takeWhile p).length =
      text.dropWhile p := List.drop_left' rfl
  rwa [List.takeWhile_append_dropWhile] at hdrop

theorem scanAt_dropBlanks (p : Position) (text : List Char) (lines : List String) :
    scanAt p none (String.ofList text :: lines) =
      scanAt (p.after (ofChars (text.takeWhile isBlank))) none
        (String.ofList (text.dropWhile isBlank) :: lines) := by
  cases text with
  | nil => rfl
  | cons c rest =>
    by_cases h : isBlank c = true
    · have hstep : step p.line none p.column c rest =
          .ok ⟨((c :: rest).takeWhile isBlank).length, none, none⟩ := by
        simp only [step, longest?_blank h]
      rw [scanAt_of_step hstep, Position.after_ofChars]
      simp only [Option.toList_none, map_nil_append, drop_length_takeWhile]
    · rw [List.takeWhile_cons_of_neg h, List.dropWhile_cons_of_neg h]
      rfl

/-- Blanks are passed over, however they are grouped. -/
theorem scanAt_blanks {chars : List Char} (h : ∀ c ∈ chars, isBlank c = true) (p : Position)
    (rest : List Char) (lines : List String) :
    scanAt p none (String.ofList (chars ++ rest) :: lines) =
      scanAt (p.after (ofChars chars)) none (String.ofList rest :: lines) := by
  rw [scanAt_dropBlanks p, scanAt_dropBlanks (p.after (ofChars chars)),
    List.takeWhile_append_of_pos h, List.dropWhile_append_of_pos h, ofChars_append,
    Position.after_append]

theorem scanAt_lineComment (p : Position) (body : List Char) (lines : List String) :
    scanAt p none (String.ofList ('/' :: '/' :: body) :: lines) =
      scanAt (p.after (ofChars ('/' :: '/' :: body))) none ("" :: lines) := by
  have hstep : step p.line none p.column '/' ('/' :: body) = .ok ⟨body.length + 2, none, none⟩ := by
    simp only [step, longest?_lineComment]
  have hdrop : ('/' :: '/' :: body).drop (body.length + 2) = [] := by
    rw [List.drop_eq_nil_iff]
    simp
  rw [scanAt_of_step hstep, Position.after_ofChars]
  simp only [Option.toList_none, map_nil_append, hdrop, String.ofList_nil, List.length_cons]

theorem scanAt_commentStart (p : Position) (rest : List Char) (lines : List String) :
    scanAt p none (String.ofList ('/' :: '*' :: rest) :: lines) =
      scanAt (p.after (ofChars ['/', '*'])) (some p.line) (String.ofList rest :: lines) := by
  have hstep : step p.line none p.column '/' ('*' :: rest) = .ok ⟨2, none, some p.line⟩ := by
    simp only [step, longest?_commentStart]
  rw [scanAt_of_step hstep, Position.after_ofChars]
  simp only [Option.toList_none, map_nil_append]
  rfl

theorem scanAt_lexeme {kind : Kind} {text : List Char} (h : IsLexeme text kind) (p : Position)
    {rest : List Char} (hrest : MayPrecede rest.head? kind) (lines : List String) :
    scanAt p none (String.ofList (text ++ rest) :: lines) =
      (scanAt (p.after (ofChars text)) none (String.ofList rest :: lines)).map
        (((Segment.lexeme kind text).token? p).toList ++ ·) := by
  obtain ⟨k, hlongest, htoken⟩ := longest?_lexeme h hrest
  have hpos := longest?_pos hlongest
  cases text with
  | nil => cases hpos
  | cons c text =>
    rw [List.cons_append] at hlongest ⊢
    have hstep : step p.line none p.column c (text ++ rest) =
        .ok ⟨(c :: text).length, (Segment.lexeme kind (c :: text)).token? p, none⟩ := by
      simp only [step, hlongest, Segment.token?, ← htoken]
      rw [← List.cons_append, List.take_left' rfl]
    rw [scanAt_of_step hstep, Position.after_ofChars, ← List.cons_append, List.drop_left' rfl]

theorem closing_prefix_iff {c d : Char} {rest : List Char} :
    closing <+: ofChars (c :: d :: rest) ↔ c = '*' ∧ d = '/' := by
  simp [closing, eq_comm]

theorem commentLength?_cons {c : Char} {rest : List Char} (h : ¬ closing <+: ofChars (c :: rest)) :
    commentLength? (c :: rest) = (commentLength? rest).map (· + 1) := by
  rw [commentLength?]
  rintro rest' rfl rfl
  exact h (closing_prefix_iff.mpr ⟨rfl, rfl⟩)

theorem commentLength?_unclosed {text : List Char} (h : ¬ closing <:+: ofChars text) :
    commentLength? text = none := by
  induction text with
  | nil => rfl
  | cons c rest ih =>
    rw [commentLength?_cons fun hp => h hp.isInfix, ih (not_closing_tail h), Option.map_none]

theorem commentLength?_closed {body : List Char} (h : ¬ closing <:+: ofChars body)
    (rest : List Char) : commentLength? (body ++ '*' :: '/' :: rest) = some (body.length + 2) := by
  induction body with
  | nil => rfl
  | cons c body ih =>
    have hhead : ¬ closing <+: ofChars (c :: (body ++ '*' :: '/' :: rest)) := by
      cases body with
      | nil => exact fun hp => by cases (closing_prefix_iff.mp hp).2
      | cons d body =>
        intro hp
        have hcd : closing <+: ofChars (c :: d :: body) :=
          closing_prefix_iff.mpr (closing_prefix_iff.mp hp)
        exact h hcd.isInfix
    rw [List.cons_append, commentLength?_cons hhead, ih (not_closing_tail h), Option.map_some,
      List.length_cons]

/-- A comment that is closed on the line where scanning is. -/
theorem scanAt_closed {body : List Char} (h : ¬ closing <:+: ofChars body) (p : Position)
    (start : Nat) (rest : List Char) (lines : List String) :
    scanAt p (some start) (String.ofList (body ++ '*' :: '/' :: rest) :: lines) =
      scanAt (p.after (ofChars body ++ closing)) none (String.ofList rest :: lines) := by
  have hlength := commentLength?_closed h rest
  have hdrop : (body ++ '*' :: '/' :: rest).drop (body.length + 2) = rest := by
    rw [List.drop_append]
    simp
  have hafter : p.after (ofChars body ++ closing) =
      { p with column := p.column + (body.length + 2) } := by
    rw [closing, ← ofChars_append, Position.after_ofChars, List.length_append]
    rfl
  rw [hafter]
  generalize body ++ '*' :: '/' :: rest = text at hlength hdrop
  cases text with
  | nil => cases hlength
  | cons c text =>
    have hstep : step p.line (some start) p.column c text = .ok ⟨body.length + 2, none, none⟩ := by
      simp only [step, hlength]
    rw [scanAt_of_step hstep, hdrop]
    exact map_nil_append _

/-- A comment that goes on at the end of the line. -/
theorem scanAt_unclosed {text : List Char} (h : ¬ closing <:+: ofChars text) (p : Position)
    (start : Nat) (lines : List String) :
    scanAt p (some start) (String.ofList text :: lines) =
      scanAt (p.after (ofChars text ++ [.lineEnd])) (some start) lines := by
  cases text with
  | nil => exact scanAt_lineEnd p (some start) lines
  | cons c text =>
    have hstep : step p.line (some start) p.column c text =
        .ok ⟨(c :: text).length, none, some start⟩ := by
      simp only [step, commentLength?_unclosed h]
    rw [scanAt_of_step hstep, List.drop_length, Position.after_append, Position.after_ofChars]
    rw [Option.toList_none, map_nil_append]
    exact scanAt_lineEnd _ _ _

/-- Inside a comment scanning passes over everything up to the first place where it is closed, over
as many lines as that takes. -/
theorem scanAt_comment {rest : List Symbol} (lines : List String) :
    ∀ {body : List Symbol}, ¬ closing <:+: body → ofLines lines = body ++ closing ++ rest →
      ∀ p start, ∃ lines', rest = ofLines lines' ∧
        scanAt p (some start) lines = scanAt (p.after (body ++ closing)) none lines' := by
  induction lines with
  | nil =>
    intro body _ h
    simp [closing] at h
  | cons line lines ih =>
    intro body hbody h p start
    rw [ofLines_cons] at h
    rcases split_lineEnd body with ⟨chars, rfl⟩ | ⟨chars, body, rfl⟩
    · rw [closing, ← ofChars_append] at h
      obtain ⟨text, hline, rfl⟩ := ofChars_append_eq h.symm
      refine ⟨String.ofList text :: lines, (ofLines_ofList text lines).symm, ?_⟩
      rw [List.append_assoc] at hline
      rw [← String.ofList_toList (s := line), hline]
      exact scanAt_closed hbody p start text lines
    · rw [List.append_assoc, List.append_assoc, List.cons_append] at h
      obtain ⟨hline, hlines⟩ := ofChars_lineEnd_inj h
      rw [← List.append_assoc] at hlines
      have hchars : ¬ closing <:+: ofChars chars := fun hi =>
        hbody (List.infix_append_of_infix_left hi)
      have hbody' : ¬ closing <:+: body := fun hi =>
        hbody (List.infix_append_of_infix_right (List.infix_cons hi))
      obtain ⟨lines', hrest, hscan⟩ :=
        ih hbody' hlines (p.after (ofChars chars ++ [.lineEnd])) start
      refine ⟨lines', hrest, ?_⟩
      rw [← String.ofList_toList (s := line), hline, scanAt_unclosed hchars, hscan,
        ← Position.after_append]
      simp only [List.append_assoc, List.cons_append, List.nil_append]

theorem scanAt_unterminated (lines : List String) :
    ¬ closing <:+: ofLines lines → ∀ p start,
      scanAt p (some start) lines = .error (.unterminatedComment start) := by
  induction lines with
  | nil => exact fun _ p start => rfl
  | cons line lines ih =>
    intro h p start
    rw [ofLines_cons] at h
    have hline : ¬ closing <:+: ofChars line.toList := fun hi =>
      h (List.infix_append_of_infix_left hi)
    have hlines : ¬ closing <:+: ofLines lines := fun hi =>
      h (List.infix_append_of_infix_right (List.infix_cons hi))
    rw [← String.ofList_toList (s := line), scanAt_unclosed hline]
    exact ih hlines _ start

theorem nextChar?_append (text : List Char) (rest : List Symbol) :
    nextChar? (ofChars text ++ .lineEnd :: rest) = text.head? := by
  cases text <;> rfl

/-- A block comment, from the signs that open it to the first that close it. -/
theorem scanAt_blockComment {body rest : List Symbol} {text : List Char} {lines : List String}
    (hbody : ¬ closing <:+: body)
    (h : ofLines (String.ofList text :: lines) = (Segment.blockComment body).symbols ++ rest)
    (p : Position) :
    ∃ lines', rest = ofLines lines' ∧ scanAt p none (String.ofList text :: lines) =
      scanAt (p.after (Segment.blockComment body).symbols) none lines' := by
  rw [ofLines_ofList, Segment.symbols, List.append_assoc, List.append_assoc] at h
  obtain ⟨text, rfl, hrest⟩ := ofChars_append_eq h.symm
  rw [← ofLines_ofList, ← List.append_assoc] at hrest
  obtain ⟨lines', hrest', hscan⟩ :=
    scanAt_comment _ hbody hrest.symm (p.after (ofChars ['/', '*'])) p.line
  refine ⟨lines', hrest', ?_⟩
  change scanAt p none (String.ofList ('/' :: '*' :: text) :: lines) = _
  rw [scanAt_commentStart, hscan, ← Position.after_append, ← List.append_assoc]
  rfl

/-- One segment: scanning goes on behind it, and has made its token. -/
theorem scanAt_segment {segment : Segment} {rest : List Symbol} {lines : List String}
    (hfits : segment.Fits rest) (h : ofLines lines = segment.symbols ++ rest) (p : Position) :
    ∃ lines', rest = ofLines lines' ∧ scanAt p none lines =
      (scanAt (p.after segment.symbols) none lines').map ((segment.token? p).toList ++ ·) := by
  cases lines with
  | nil =>
    have hnil := (List.append_eq_nil_iff.mp h.symm).1
    exact absurd hnil hfits.symbols_ne_nil
  | cons line lines =>
    rw [← String.ofList_toList (s := line)] at h ⊢
    have hsplit := h
    rw [ofLines_ofList] at hsplit
    cases segment with
    | blanks chars =>
      obtain ⟨text, hline, rfl⟩ := ofChars_append_eq hsplit.symm
      refine ⟨_, (ofLines_ofList text lines).symm, ?_⟩
      rw [hline, scanAt_blanks hfits.2]
      exact (map_nil_append _).symm
    | lineEnd =>
      obtain ⟨hline, hrest⟩ := ofChars_lineEnd_inj (a := line.toList) (b := []) hsplit
      refine ⟨lines, hrest.symm, ?_⟩
      rw [hline]
      exact (scanAt_lineEnd p none lines).trans (map_nil_append _).symm
    | lineComment body =>
      obtain ⟨text, hline, rfl⟩ := ofChars_append_eq hsplit.symm
      have htext : text = [] := by
        cases text with
        | nil => rfl
        | cons c text => cases hfits
      subst htext
      refine ⟨_, (ofLines_ofList [] lines).symm, ?_⟩
      rw [hline, List.append_nil, scanAt_lineComment]
      exact (map_nil_append _).symm
    | blockComment body =>
      obtain ⟨lines', hrest, hscan⟩ := scanAt_blockComment hfits h p
      exact ⟨lines', hrest, hscan.trans (map_nil_append _).symm⟩
    | lexeme kind text =>
      obtain ⟨text', hline, rfl⟩ := ofChars_append_eq hsplit.symm
      refine ⟨_, (ofLines_ofList text' lines).symm, ?_⟩
      rw [hline]
      refine scanAt_lexeme hfits.1 p ?_ lines
      rw [← nextChar?_append text' (ofLines lines)]
      exact hfits.2

/-- A run of segments. -/
theorem scanAt_spell {rest : List Symbol} (segments : List Segment) :
    Fitting rest segments → ∀ lines, ofLines lines = spell segments ++ rest →
      ∀ p, ∃ lines', rest = ofLines lines' ∧ scanAt p none lines =
        (scanAt (p.after (spell segments)) none lines').map (tokensFrom p segments ++ ·) := by
  induction segments with
  | nil => exact fun _ lines h p => ⟨lines, h.symm, (map_nil_append _).symm⟩
  | cons segment segments ih =>
    intro hfit lines h p
    rw [spell_cons, List.append_assoc] at h
    obtain ⟨lines₁, h₁, hscan₁⟩ := scanAt_segment hfit.1 h p
    obtain ⟨lines₂, h₂, hscan₂⟩ := ih hfit.2 lines₁ h₁.symm (p.after segment.symbols)
    refine ⟨lines₂, h₂, ?_⟩
    rw [hscan₁, hscan₂, spell_cons, Position.after_append]
    cases scanAt ((p.after segment.symbols).after (spell segments)) none lines₂ with
    | error e => rfl
    | ok tokens => simp [Except.map, tokensFrom]

/-- The same with the text behind the segments given by its lines. -/
theorem scanAt_fitting {segments : List Segment} {lines lines' : List String}
    (hfit : Fitting (ofLines lines') segments)
    (h : ofLines lines = spell segments ++ ofLines lines') (p : Position) :
    scanAt p none lines =
      (scanAt (p.after (spell segments)) none lines').map (tokensFrom p segments ++ ·) := by
  obtain ⟨lines'', hrest, hscan⟩ := scanAt_spell segments hfit lines h p
  rwa [← ofLines_injective hrest] at hscan

/-- Where the grammar gets no further: at the end of the text, at a character with which no segment
starts, or at a comment that is never closed. -/
inductive Stop : List String → Prop
  | ended : Stop []
  | unreadable {text : List Char} (h : Unreadable text) (lines : List String) :
      Stop (String.ofList text :: lines)
  | unclosed {text : List Char} {lines : List String}
      (h : ¬ closing <:+: ofLines (String.ofList text :: lines)) :
      Stop (String.ofList ('/' :: '*' :: text) :: lines)

theorem stop_or_segment (lines : List String) :
    Stop lines ∨ ∃ segment rest, Segment.Fits rest segment ∧
      ofLines lines = segment.symbols ++ rest := by
  cases lines with
  | nil => exact .inl .ended
  | cons line lines =>
    rw [← String.ofList_toList (s := line), ofLines_ofList]
    generalize line.toList = text
    cases text with
    | nil => exact .inr ⟨.lineEnd, ofLines lines, trivial, rfl⟩
    | cons c rest =>
      have hhead := head_cons c rest
      generalize c :: rest = text at hhead ⊢
      cases hhead with
      | @blanks chars rest hne hblank =>
        refine .inr ⟨.blanks chars, ofChars rest ++ .lineEnd :: ofLines lines, ⟨hne, hblank⟩, ?_⟩
        rw [ofChars_append, List.append_assoc]
        rfl
      | lineComment body => exact .inr ⟨.lineComment body, .lineEnd :: ofLines lines, rfl, rfl⟩
      | commentStart rest =>
        rcases split_closing (ofLines (String.ofList rest :: lines)) with
          hopen | ⟨body, rest', hbody, hclosed⟩
        · exact .inl (.unclosed hopen)
        · refine .inr ⟨.blockComment body, rest', hclosed, ?_⟩
          rw [ofLines_ofList] at hbody
          change ofChars ['/', '*'] ++ (ofChars rest ++ .lineEnd :: ofLines lines) = _
          rw [hbody, Segment.symbols]
          simp only [List.append_assoc]
      | @lexeme kind text rest hlexeme hrest =>
        refine .inr ⟨.lexeme kind text, ofChars rest ++ .lineEnd :: ofLines lines,
          ⟨hlexeme, ?_⟩, ?_⟩
        · rw [nextChar?_append]
          exact hrest
        · rw [ofChars_append, List.append_assoc]
          rfl
      | unreadable h => exact .inl (.unreadable h lines)

/-- Every text can be cut into segments up to a place where the grammar gets no further. -/
theorem exists_stop (lines : List String) :
    ∃ segments lines', Fitting (ofLines lines') segments ∧
      ofLines lines = spell segments ++ ofLines lines' ∧ Stop lines' := by
  -- The induction is on the symbols left; each segment takes at least one of them.
  induction hn : (ofLines lines).length using Nat.strongRecOn generalizing lines with
  | ind n ih =>
    rcases stop_or_segment lines with hstop | ⟨segment, rest, hfits, hsplit⟩
    · exact ⟨[], lines, trivial, rfl, hstop⟩
    · obtain ⟨lines₁, rfl, -⟩ := scanAt_segment hfits hsplit { line := 1, column := 1 }
      have hlt : (ofLines lines₁).length < n := by
        have hpos := List.length_pos_iff.mpr hfits.symbols_ne_nil
        rw [← hn, hsplit, List.length_append]
        omega
      obtain ⟨segments, lines₂, hfit, hrest, hstop⟩ := ih _ hlt lines₁ rfl
      refine ⟨segment :: segments, lines₂, ⟨hrest ▸ hfits, hfit⟩, ?_, hstop⟩
      rw [hsplit, hrest, spell_cons, List.append_assoc]

theorem scanAt_unreadable {text : List Char} (h : Unreadable text) (p : Position)
    (lines : List String) :
    ∃ c ∈ text.head?, scanAt p none (String.ofList text :: lines) =
      .error (.unexpectedChar c p.line p.column) := by
  cases text with
  | nil => cases h
  | cons c rest => exact ⟨c, rfl, scanAt_of_unmatched (longest?_unreadable h) lines⟩

/-- A text that is scanned without a failure has a cut. -/
theorem exists_cuts {p : Position} {lines : List String} {tokens : List Token}
    (h : scanAt p none lines = .ok tokens) : ∃ segments, Cuts segments lines := by
  obtain ⟨segments, lines', hfit, hsplit, hstop⟩ := exists_stop lines
  rw [scanAt_fitting hfit hsplit] at h
  cases hstop with
  | ended => exact ⟨segments, by rw [hsplit, ofLines_nil, List.append_nil], hfit⟩
  | unreadable hnone later =>
    obtain ⟨c, -, hscan⟩ := scanAt_unreadable hnone (p.after (spell segments)) later
    rw [hscan] at h
    cases h
  | unclosed hopen =>
    rw [scanAt_commentStart, scanAt_unterminated _ hopen] at h
    cases h

/-- What scanning makes of a text that has a cut. -/
theorem scan_of_cuts {lines : List String} {segments : List Segment} (h : Cuts segments lines) :
    scan lines = .ok (tokensFrom { line := 1, column := 1 } segments ++
      [endOfInput (lines.length + 1)]) := by
  have hfit : Fitting (ofLines []) segments := h.fitting
  have hspells : ofLines lines = spell segments ++ ofLines [] := by
    rw [ofLines_nil, List.append_nil, h.spells]
  rw [scan_eq_scanAt, scanAt_fitting hfit hspells, h.spells, Position.after_ofLines,
    Nat.add_comm 1]
  rfl

/-- What is scanned without a failure are the tokens of a cut, and the end of the input. -/
theorem exists_cuts_of_scan {lines : List String} {tokens : List Token}
    (h : scan lines = .ok tokens) :
    ∃ segments, Cuts segments lines ∧ tokens = tokensFrom { line := 1, column := 1 } segments ++
      [endOfInput (lines.length + 1)] := by
  have hscan := h
  rw [scan_eq_scanAt] at hscan
  obtain ⟨segments, hcuts⟩ := exists_cuts hscan
  rw [scan_of_cuts hcuts] at h
  exact ⟨segments, hcuts, (Except.ok.inj h).symm⟩

end UnaryC.Token
