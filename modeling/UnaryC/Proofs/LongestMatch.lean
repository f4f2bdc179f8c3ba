import UnaryC.Proofs.LexicalGrammar

/-!
# What the lexical rules match

The first character of a text decides which rules can match it. Blanks, letters, digits and the
marks share no character, so at most two rules are left; where there are two, the second character
decides. The longest match is then the segment that the lexical grammar has at the head of the text.
-/
namespace UnaryC.Token

open Text (isBlank)
open Lexical (IsLetter IsDigit IsWordChar IsWord IsNumber IsLexeme MayPrecede Unreadable)

theorem isWordStart_iff {c : Char} : isWordStart c = true ↔ IsLetter c := by
  have halpha : c.isAlpha = (c.isUpper || c.isLower) := rfl
  have hupper : c.isUpper = decide (c.val ≥ 'A'.val ∧ c.val ≤ 'Z'.val) := rfl
  have hlower : c.isLower = (decide (c.val ≥ 'a'.val) && decide (c.val ≤ 'z'.val)) := rfl
  simp [isWordStart, IsLetter, halpha, hupper, hlower, Char.le_def, or_assoc]

theorem isDigit_iff {c : Char} : c.isDigit = true ↔ IsDigit c := by
  simp [IsDigit, Char.isDigit, Char.le_def]

theorem isWordChar_iff {c : Char} : isWordChar c = true ↔ IsWordChar c := by
  rw [IsWordChar, ← isWordStart_iff, ← isDigit_iff]
  simp only [isWordChar, isWordStart, Char.isAlphanum, Bool.or_eq_true]
  exact or_right_comm

theorem isWordStart_eq_false {c : Char} (h : ¬ IsLetter c) : isWordStart c = false := by
  rw [← Bool.not_eq_true, isWordStart_iff]
  exact h

theorem isDigit_eq_false {c : Char} (h : ¬ IsDigit c) : c.isDigit = false := by
  rw [← Bool.not_eq_true, isDigit_iff]
  exact h

/-- The characters at the head of comments and of all lexemes that are not words or numbers. -/
def marks : List Char :=
  ['/', '(', ')', '\x7b', '\x7d', ';', '~', '-']

theorem not_mark_of {p : Char → Bool} (hp : marks.any p = false) {c : Char} (h : p c = true) :
    c ∉ marks :=
  fun hc => List.any_eq_false.mp hp c hc h

theorem any_isBlank_marks : marks.any isBlank = false := by decide

theorem any_isWordStart_marks : marks.any isWordStart = false := by decide

theorem any_isDigit_marks : marks.any Char.isDigit = false := by decide

theorem not_isWordChar_of_isBlank {c : Char} (h : isBlank c = true) : ¬ IsWordChar c := by
  obtain ⟨r, hr, hle, hge⟩ := Text.CharRange.anyContains_iff.mp h
  rw [IsWordChar, IsLetter, IsDigit]
  simp only [Char.le_def, UInt32.le_iff_toNat_le, ← Char.toNat_inj]
  change ¬ (((65 ≤ c.toNat ∧ c.toNat ≤ 90) ∨ (97 ≤ c.toNat ∧ c.toNat ≤ 122) ∨ c.toNat = 95) ∨
    (48 ≤ c.toNat ∧ c.toNat ≤ 57))
  simp only [Text.blankRanges, List.mem_cons, List.not_mem_nil, or_false] at hr
  rcases hr with rfl | rfl | rfl | rfl | rfl | rfl | rfl | rfl | rfl | rfl <;>
    simp only at hle hge <;> omega

theorem not_isDigit_of_isLetter {c : Char} (h : IsLetter c) : ¬ IsDigit c := by
  rw [IsLetter] at h
  rw [IsDigit]
  simp only [Char.le_def, UInt32.le_iff_toNat_le, ← Char.toNat_inj] at h ⊢
  change (65 ≤ c.toNat ∧ c.toNat ≤ 90) ∨ (97 ≤ c.toNat ∧ c.toNat ≤ 122) ∨ c.toNat = 95 at h
  change ¬ (48 ≤ c.toNat ∧ c.toNat ≤ 57)
  omega

/-- Whether the pattern can match a text that starts with `c`. -/
def Pattern.starts (c : Char) : Pattern → Bool
  | blanks => isBlank c
  | lineComment => c = '/'
  | commentStart => c = '/'
  | word => isWordStart c
  | number => c.isDigit
  | symbol chars => some c = chars.head?

theorem Pattern.length_eq_zero {pattern : Pattern} {c : Char} (h : pattern.starts c = false)
    (rest : List Char) : pattern.length (c :: rest) = 0 := by
  cases pattern with
  | blanks =>
    have hc : ¬ isBlank c = true := by rw [← starts, h]; decide
    rw [length, List.takeWhile_cons_of_neg hc, List.length_nil]
  | lineComment =>
    have hc : '/' ≠ c := fun hc => by simp [starts, ← hc] at h
    simp [length, List.isPrefixOf_cons_cons, hc]
  | commentStart =>
    have hc : '/' ≠ c := fun hc => by simp [starts, ← hc] at h
    simp [length, List.isPrefixOf_cons_cons, hc]
  | word =>
    have hc : isWordStart c = false := h
    simp [length, hc]
  | number =>
    have hc : ¬ c.isDigit = true := by rw [show c.isDigit = false from h]; decide
    rw [length, List.takeWhile_cons_of_neg hc, List.length_nil, ite_self]
  | symbol chars =>
    cases chars with
    | nil => simp [length]
    | cons d chars =>
      have hd : d ≠ c := fun hd => by simp [starts, hd] at h
      simp [length, List.isPrefixOf_cons_cons, hd]

theorem foldl_better_filter {text : List Char} {keep : Rule → Bool} (table : List Rule)
    (h : ∀ r ∈ table, keep r = false → r.pattern.length text = 0) (best : Option Match) :
    table.foldl (Match.better text) best = (table.filter keep).foldl (Match.better text) best := by
  induction table generalizing best with
  | nil => rfl
  | cons r table ih =>
    replace ih := ih fun r' hr' => h r' (List.mem_cons_of_mem r hr')
    cases hk : keep r with
    | true =>
      rw [List.filter_cons_of_pos hk]
      exact ih _
    | false =>
      rw [List.filter_cons_of_neg (by simp [hk]), List.foldl_cons, ih]
      simp [Match.better, h r List.mem_cons_self hk]

/-- Only the rules that start with the first character matter. -/
theorem longest?_cons (c : Char) (rest : List Char) :
    longest? (c :: rest) =
      (rules.filter fun r => r.pattern.starts c).foldl (Match.better (c :: rest)) none :=
  foldl_better_filter rules (fun _ _ hr => Pattern.length_eq_zero hr rest) none

theorem rules_starting_blank {c : Char} (h : isBlank c = true) :
    (rules.filter fun r => r.pattern.starts c) = [⟨.blanks, .skip⟩] := by
  have hmark := not_mark_of any_isBlank_marks h
  have hletter := isWordStart_eq_false fun hc => not_isWordChar_of_isBlank h (.inl hc)
  have hdigit := isDigit_eq_false fun hc => not_isWordChar_of_isBlank h (.inr hc)
  simp only [marks, List.mem_cons, List.not_mem_nil, or_false, not_or] at hmark
  simp [rules, Pattern.starts, h, hletter, hdigit, hmark]

theorem rules_starting_letter {c : Char} (h : IsLetter c) :
    (rules.filter fun r => r.pattern.starts c) = [⟨.word, .emit .identifier⟩] := by
  have hletter := isWordStart_iff.mpr h
  have hmark := not_mark_of any_isWordStart_marks hletter
  have hblank : ¬ isBlank c = true := fun hc => not_isWordChar_of_isBlank hc (.inl h)
  have hdigit := isDigit_eq_false (not_isDigit_of_isLetter h)
  simp only [marks, List.mem_cons, List.not_mem_nil, or_false, not_or] at hmark
  simp [rules, Pattern.starts, hblank, hletter, hdigit, hmark]

theorem rules_starting_digit {c : Char} (h : IsDigit c) :
    (rules.filter fun r => r.pattern.starts c) = [⟨.number, .emit .constant⟩] := by
  have hdigit := isDigit_iff.mpr h
  have hmark := not_mark_of any_isDigit_marks hdigit
  have hblank : ¬ isBlank c = true := fun hc => not_isWordChar_of_isBlank hc (.inr h)
  have hletter := isWordStart_eq_false fun hc => not_isDigit_of_isLetter hc h
  simp only [marks, List.mem_cons, List.not_mem_nil, or_false, not_or] at hmark
  simp [rules, Pattern.starts, hblank, hletter, hdigit, hmark]

theorem rules_starting_other {c : Char} (hblank : ¬ isBlank c = true) (hword : ¬ IsWordChar c)
    (hmark : c ∉ marks) : (rules.filter fun r => r.pattern.starts c) = [] := by
  have hletter := isWordStart_eq_false fun hc => hword (.inl hc)
  have hdigit := isDigit_eq_false fun hc => hword (.inr hc)
  simp only [marks, List.mem_cons, List.not_mem_nil, or_false, not_or] at hmark
  simp [rules, Pattern.starts, hblank, hletter, hdigit, hmark]

theorem rules_starting_slash :
    (rules.filter fun r => r.pattern.starts '/') =
      [⟨.lineComment, .skip⟩, ⟨.commentStart, .openComment⟩] := by
  decide

theorem rules_starting_minus :
    (rules.filter fun r => r.pattern.starts '-') =
      [⟨.symbol ['-', '-'], .emit .minusMinus⟩, ⟨.symbol ['-'], .emit .minus⟩] := by
  decide

theorem longest?_blank {c : Char} (h : isBlank c = true) (rest : List Char) :
    longest? (c :: rest) = some ⟨((c :: rest).takeWhile isBlank).length, .skip⟩ := by
  rw [longest?_cons, rules_starting_blank h]
  simp [Match.better, Pattern.length, h]

theorem longest?_lineComment (body : List Char) :
    longest? ('/' :: '/' :: body) = some ⟨body.length + 2, .skip⟩ := by
  rw [longest?_cons, rules_starting_slash]
  simp [Match.better, Pattern.length]

theorem longest?_commentStart (rest : List Char) :
    longest? ('/' :: '*' :: rest) = some ⟨2, .openComment⟩ := by
  rw [longest?_cons, rules_starting_slash]
  simp [Match.better, Pattern.length, List.isPrefixOf_cons_cons]

theorem longest?_slash {rest : List Char} (h : rest.head? ≠ some '/') (h' : rest.head? ≠ some '*') :
    longest? ('/' :: rest) = none := by
  rw [longest?_cons, rules_starting_slash]
  cases rest with
  | nil => rfl
  | cons d rest =>
    simp only [List.head?_cons, ne_eq, Option.some.injEq] at h h'
    simp [Match.better, Pattern.length, List.isPrefixOf_cons_cons, Ne.symm h, Ne.symm h']

/-- A run of characters with a property ends where the property does. -/
theorem takeWhile_append_of_head? {p : Char → Bool} {text rest : List Char}
    (htext : ∀ c ∈ text, p c = true) (hrest : ∀ c ∈ rest.head?, p c = false) :
    (text ++ rest).takeWhile p = text ∧ (text ++ rest).dropWhile p = rest := by
  rw [List.takeWhile_append_of_pos htext, List.dropWhile_append_of_pos htext]
  cases rest with
  | nil => simp
  | cons d rest =>
    have hd : ¬ p d = true := by rw [hrest d rfl]; decide
    rw [List.takeWhile_cons_of_neg hd, List.dropWhile_cons_of_neg hd, List.append_nil]
    exact ⟨rfl, rfl⟩

theorem isWordChar_eq_false {next : Option Char} (h : ∀ c ∈ next, ¬ IsWordChar c) :
    ∀ c ∈ next, isWordChar c = false := by
  intro c hc
  rw [← Bool.not_eq_true, isWordChar_iff]
  exact h c hc

theorem longest?_word {text rest : List Char} (h : IsWord text)
    (hrest : ∀ c ∈ rest.head?, ¬ IsWordChar c) :
    longest? (text ++ rest) = some ⟨text.length, .emit .identifier⟩ := by
  cases text with
  | nil => cases h
  | cons c text =>
    obtain ⟨hc, htext⟩ := h
    have hall : ∀ d ∈ c :: text, isWordChar d = true := by
      intro d hd
      rw [isWordChar_iff]
      rcases List.mem_cons.mp hd with rfl | hd
      · exact .inl hc
      · exact htext d hd
    have htake := (takeWhile_append_of_head? hall (isWordChar_eq_false hrest)).1
    rw [List.cons_append] at htake ⊢
    rw [longest?_cons, rules_starting_letter hc]
    simp [Match.better, Pattern.length, isWordStart_iff.mpr hc, htake]

theorem longest?_number {text rest : List Char} (h : IsNumber text)
    (hrest : ∀ c ∈ rest.head?, ¬ IsWordChar c) :
    longest? (text ++ rest) = some ⟨text.length, .emit .constant⟩ := by
  obtain ⟨hne, htext⟩ := h
  have hdigits : ∀ c ∈ text, c.isDigit = true := fun c hc => isDigit_iff.mpr (htext c hc)
  have hnext : ∀ c ∈ rest.head?, c.isDigit = false := fun c hc =>
    isDigit_eq_false fun hd => hrest c hc (.inr hd)
  obtain ⟨htake, hdrop⟩ := takeWhile_append_of_head? hdigits hnext
  have hany : rest.head?.any isWordChar = false := by
    cases hr : rest.head? with
    | none => rfl
    | some d => exact isWordChar_eq_false hrest d hr
  cases text with
  | nil => exact absurd rfl hne
  | cons c text =>
    rw [List.cons_append] at htake hdrop ⊢
    rw [longest?_cons, rules_starting_digit (htext c List.mem_cons_self)]
    simp [Match.better, Pattern.length, htake, hdrop, hany]

/-- Digits that run into a letter are not a number, and no other rule matches them. -/
theorem longest?_digits_letter {text rest : List Char} (h : IsNumber text)
    (hrest : ∃ c ∈ rest.head?, IsLetter c) : longest? (text ++ rest) = none := by
  obtain ⟨hne, htext⟩ := h
  obtain ⟨d, hd, hletter⟩ := hrest
  have hdigits : ∀ c ∈ text, c.isDigit = true := fun c hc => isDigit_iff.mpr (htext c hc)
  have hnext : ∀ c ∈ rest.head?, c.isDigit = false := by
    intro c hc
    obtain rfl : d = c := Option.mem_unique hd hc
    exact isDigit_eq_false (not_isDigit_of_isLetter hletter)
  obtain ⟨-, hdrop⟩ := takeWhile_append_of_head? hdigits hnext
  have hany : rest.head?.any isWordChar = true := by
    rw [Option.mem_def.mp hd, Option.any_some, isWordChar_iff]
    exact .inl hletter
  cases text with
  | nil => exact absurd rfl hne
  | cons c text =>
    rw [List.cons_append] at hdrop ⊢
    rw [longest?_cons, rules_starting_digit (htext c List.mem_cons_self)]
    simp [Match.better, Pattern.length, hdrop, hany]

theorem longest?_minus {rest : List Char} (h : rest.head? ≠ some '-') :
    longest? ('-' :: rest) = some ⟨1, .emit .minus⟩ := by
  rw [longest?_cons, rules_starting_minus]
  cases rest with
  | nil => rfl
  | cons d rest =>
    simp only [List.head?_cons, ne_eq, Option.some.injEq] at h
    simp [Match.better, Pattern.length, List.isPrefixOf_cons_cons, Ne.symm h]

theorem longest?_minusMinus (rest : List Char) :
    longest? ('-' :: '-' :: rest) = some ⟨2, .emit .minusMinus⟩ := by
  rw [longest?_cons, rules_starting_minus]
  simp [Match.better, Pattern.length]

/-- A mark that no other rule starts with. -/
theorem longest?_mark {c : Char} {kind : Kind}
    (h : (rules.filter fun r => r.pattern.starts c) = [⟨.symbol [c], .emit kind⟩])
    (rest : List Char) : longest? (c :: rest) = some ⟨1, .emit kind⟩ := by
  rw [longest?_cons, h]
  simp [Match.better, Pattern.length]

theorem isWord_keyword : ∀ text ∈ Lexical.keywords, IsWord text := by
  decide

theorem ofWord_of_not_keyword {text : List Char} (h : text ∉ Lexical.keywords) :
    Kind.ofWord (String.ofList text) = .identifier := by
  simp only [Lexical.keywords, List.mem_cons, List.not_mem_nil, or_false, not_or] at h
  have hne : ∀ {keyword : List Char}, text ≠ keyword → String.ofList text ≠ String.ofList keyword :=
    fun hne he => hne (String.ofList_injective he)
  unfold Kind.ofWord
  rw [if_neg (hne h.1), if_neg (hne h.2.1), if_neg (hne h.2.2)]

/-- The longest match at the head of a lexeme is the lexeme, and its token has the lexeme's kind. -/
theorem longest?_lexeme {text rest : List Char} {kind : Kind} (h : IsLexeme text kind)
    (hrest : MayPrecede rest.head? kind) :
    ∃ k, longest? (text ++ rest) = some ⟨text.length, .emit k⟩ ∧ ∀ line column,
      ofLexeme k text line column =
        { kind := kind, text := some (String.ofList text), line := line, column := column } := by
  cases kind with
  | identifier =>
    refine ⟨_, longest?_word h.1 hrest, fun line column => ?_⟩
    simp [ofLexeme, ofWord_of_not_keyword h.2]
  | constant => exact ⟨_, longest?_number h hrest, fun _ _ => rfl⟩
  | intKeyword =>
    cases h
    exact ⟨_, longest?_word (isWord_keyword _ (by decide)) hrest, fun _ _ => rfl⟩
  | voidKeyword =>
    cases h
    exact ⟨_, longest?_word (isWord_keyword _ (by decide)) hrest, fun _ _ => rfl⟩
  | returnKeyword =>
    cases h
    exact ⟨_, longest?_word (isWord_keyword _ (by decide)) hrest, fun _ _ => rfl⟩
  | openParen => cases h; exact ⟨.openParen, longest?_mark (by decide) rest, fun _ _ => rfl⟩
  | closeParen => cases h; exact ⟨.closeParen, longest?_mark (by decide) rest, fun _ _ => rfl⟩
  | openBrace => cases h; exact ⟨.openBrace, longest?_mark (by decide) rest, fun _ _ => rfl⟩
  | closeBrace => cases h; exact ⟨.closeBrace, longest?_mark (by decide) rest, fun _ _ => rfl⟩
  | semicolon => cases h; exact ⟨.semicolon, longest?_mark (by decide) rest, fun _ _ => rfl⟩
  | tilde => cases h; exact ⟨.tilde, longest?_mark (by decide) rest, fun _ _ => rfl⟩
  | minus => cases h; exact ⟨_, longest?_minus hrest, fun _ _ => rfl⟩
  | minusMinus => cases h; exact ⟨_, longest?_minusMinus rest, fun _ _ => rfl⟩
  | eof => cases h

/-- No rule matches where the grammar has no segment. -/
theorem longest?_unreadable {text : List Char} (h : Unreadable text) : longest? text = none := by
  cases text with
  | nil => cases h
  | cons c rest =>
    obtain ⟨hblank, hletter, hmark, hslash, hdigit⟩ := h
    by_cases hc : c = '/'
    · subst hc
      exact longest?_slash (hslash rfl).1 (hslash rfl).2
    by_cases hd : IsDigit c
    · obtain ⟨digits, d, more, hrun, hdigits, hd⟩ := hdigit hd
      rw [hrun]
      exact longest?_digits_letter hdigits ⟨d, rfl, hd⟩
    · have hmarks : c ∉ marks := fun h => (List.mem_cons.mp h).elim hc hmark
      rw [longest?_cons, rules_starting_other hblank (not_or.mpr ⟨hletter, hd⟩) hmarks]
      rfl

/-- What a text can have at its head. -/
inductive Head : List Char → Prop
  | blanks {chars rest : List Char} (hne : chars ≠ []) (h : ∀ c ∈ chars, isBlank c = true) :
      Head (chars ++ rest)
  | lineComment (body : List Char) : Head ('/' :: '/' :: body)
  | commentStart (rest : List Char) : Head ('/' :: '*' :: rest)
  | lexeme (kind : Kind) (text : List Char) {rest : List Char} (h : IsLexeme text kind)
      (hrest : MayPrecede rest.head? kind) : Head (text ++ rest)
  | unreadable {text : List Char} (h : Unreadable text) : Head text

theorem head?_dropWhile {p : Char → Bool} (text : List Char) :
    ∀ c ∈ (text.dropWhile p).head?, p c = false := by
  intro c hc
  have hnot := List.head?_dropWhile_not p text
  rw [Option.mem_def.mp hc] at hnot
  exact hnot

theorem isLexeme_of_isWord {text : List Char} (h : IsWord text) :
    ∃ kind, IsLexeme text kind ∧ ∀ next, (∀ c ∈ next, ¬ IsWordChar c) → MayPrecede next kind := by
  by_cases hk : text ∈ Lexical.keywords
  · simp only [Lexical.keywords, List.mem_cons, List.not_mem_nil, or_false] at hk
    rcases hk with rfl | rfl | rfl
    · exact ⟨.intKeyword, rfl, fun _ hnext => hnext⟩
    · exact ⟨.voidKeyword, rfl, fun _ hnext => hnext⟩
    · exact ⟨.returnKeyword, rfl, fun _ hnext => hnext⟩
  · exact ⟨.identifier, ⟨h, hk⟩, fun _ hnext => hnext⟩

theorem head_blank {c : Char} (h : isBlank c = true) (rest : List Char) : Head (c :: rest) := by
  rw [← List.takeWhile_append_dropWhile (p := isBlank) (l := c :: rest)]
  refine .blanks ?_ fun d hd => ?_
  · rw [List.takeWhile_cons_of_pos h]
    exact List.cons_ne_nil _ _
  · exact List.all_eq_true.mp List.all_takeWhile d hd

theorem head_letter {c : Char} (h : IsLetter c) (rest : List Char) : Head (c :: rest) := by
  have hc : isWordChar c = true := isWordChar_iff.mpr (.inl h)
  have hword : IsWord ((c :: rest).takeWhile isWordChar) := by
    rw [List.takeWhile_cons_of_pos hc]
    exact ⟨h, fun d hd => isWordChar_iff.mp (List.all_eq_true.mp List.all_takeWhile d hd)⟩
  obtain ⟨kind, hlexeme, hprecede⟩ := isLexeme_of_isWord hword
  rw [← List.takeWhile_append_dropWhile (p := isWordChar) (l := c :: rest)]
  refine .lexeme kind _ hlexeme (hprecede _ fun d hd hd' => ?_)
  have hnot := head?_dropWhile _ d hd
  rw [isWordChar_iff.mpr hd'] at hnot
  cases hnot

theorem head_digit {c : Char} (h : IsDigit c) (rest : List Char) : Head (c :: rest) := by
  have hnumber : IsNumber ((c :: rest).takeWhile Char.isDigit) := by
    rw [List.takeWhile_cons_of_pos (isDigit_iff.mpr h)]
    refine ⟨List.cons_ne_nil _ _, fun d hd => ?_⟩
    rcases List.mem_cons.mp hd with rfl | hd
    · exact h
    · exact isDigit_iff.mp (List.all_eq_true.mp List.all_takeWhile d hd)
  have hsplit := List.takeWhile_append_dropWhile (p := Char.isDigit) (l := c :: rest)
  have hnext := head?_dropWhile (p := Char.isDigit) (c :: rest)
  by_cases hletter : ∃ d ∈ ((c :: rest).dropWhile Char.isDigit).head?, IsLetter d
  · obtain ⟨d, hd, hd'⟩ := hletter
    obtain ⟨more, hmore⟩ := List.head?_eq_some_iff.mp (Option.mem_def.mp hd)
    have hmark := not_mark_of any_isDigit_marks (isDigit_iff.mpr h)
    refine .unreadable ⟨fun hb => not_isWordChar_of_isBlank hb (.inr h),
      fun hl => not_isDigit_of_isLetter hl h, fun hm => hmark (List.mem_cons_of_mem _ hm),
      fun hc => absurd (List.mem_cons.mpr (.inl hc)) hmark, fun _ => ?_⟩
    exact ⟨_, d, more, by rw [← hmore, hsplit], hnumber, hd'⟩
  · rw [← hsplit]
    refine .lexeme .constant _ hnumber fun d hd hword => ?_
    rcases hword with hd' | hd'
    · exact hletter ⟨d, hd, hd'⟩
    · have hnot := hnext d hd
      rw [isDigit_iff.mpr hd'] at hnot
      cases hnot

theorem head_mark {c : Char} (h : c ∈ marks) (rest : List Char) : Head (c :: rest) := by
  simp only [marks, List.mem_cons, List.not_mem_nil, or_false] at h
  rcases h with rfl | rfl | rfl | rfl | rfl | rfl | rfl | rfl
  · by_cases h₁ : rest.head? = some '/'
    · obtain ⟨body, rfl⟩ := List.head?_eq_some_iff.mp h₁
      exact .lineComment body
    · by_cases h₂ : rest.head? = some '*'
      · obtain ⟨body, rfl⟩ := List.head?_eq_some_iff.mp h₂
        exact .commentStart body
      · exact .unreadable ⟨by decide, by decide, by decide, fun _ => ⟨h₁, h₂⟩,
          fun hd => absurd hd (by decide)⟩
  · exact .lexeme .openParen ['('] rfl trivial
  · exact .lexeme .closeParen [')'] rfl trivial
  · exact .lexeme .openBrace ['\x7b'] rfl trivial
  · exact .lexeme .closeBrace ['\x7d'] rfl trivial
  · exact .lexeme .semicolon [';'] rfl trivial
  · exact .lexeme .tilde ['~'] rfl trivial
  · by_cases h₁ : rest.head? = some '-'
    · obtain ⟨rest', rfl⟩ := List.head?_eq_some_iff.mp h₁
      exact .lexeme .minusMinus ['-', '-'] rfl trivial
    · exact .lexeme .minus ['-'] rfl h₁

/-- Every text that is not empty has a segment at its head, or starts one that does not end on the
line, or is unreadable there. -/
theorem head_cons (c : Char) (rest : List Char) : Head (c :: rest) := by
  by_cases hblank : isBlank c = true
  · exact head_blank hblank rest
  by_cases hletter : IsLetter c
  · exact head_letter hletter rest
  by_cases hdigit : IsDigit c
  · exact head_digit hdigit rest
  by_cases hmark : c ∈ marks
  · exact head_mark hmark rest
  · refine .unreadable ⟨hblank, hletter, fun hm => hmark (List.mem_cons_of_mem _ hm),
      fun hc => absurd (List.mem_cons.mpr (.inl hc)) hmark, fun hd => absurd hd hdigit⟩

end UnaryC.Token
