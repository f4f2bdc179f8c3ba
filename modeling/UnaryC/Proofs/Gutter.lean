import Mathlib.Data.List.Chain
import Mathlib.Data.List.SplitBy
import UnaryC.Proofs.LineEndings
import UnaryC.Proofs.Positions
import UnaryC.Proofs.Rows

/-!
# Two listings with one gutter

The rows of a token listing are the longest runs of neighbouring tokens on one line. The lines of
scanned tokens do not decrease, so a line has one row or none, and since the end of the input stands
below all lines of the source, it has a row of its own. The source listing has a row for each line,
and what a token says of its place can be seen there.
-/
namespace UnaryC.Listing

open Text

/-- What stands before the text of a row. -/
def gutter (number : Nat) : String :=
  String.ofList ((Decimal.ofNat number).toList.leftpad 4 ' ') ++ " | "

theorem newline_not_mem_gutter (number : Nat) : '\n' ∉ (gutter number).toList := by
  have hnumber : '\n' ∉ (Decimal.ofNat number).toList := Decimal.not_mem_ofNat (by decide) number
  simp [gutter, List.leftpad, hnumber]

/-- The source listing has a row for each line. -/
theorem rows_ofSource (source : String) :
    rows (ofSource source) = (lines source).mapIdx fun i line => gutter (i + 1) ++ line := by
  have hrows : ofSource source =
      ofRows ((lines source).mapIdx fun i line => gutter (i + 1) ++ line) := by
    rw [ofSource, ofRows]
    congr 1
    refine List.mapIdx_eq_iff.mpr fun i => ?_
    rw [List.getElem?_map, List.getElem?_mapIdx, Option.map_map]
    rfl
  rw [hrows, rows_ofRows]
  intro row hrow
  obtain ⟨i, hi, rfl⟩ := List.mem_mapIdx.mp hrow
  have hline := newline_not_mem_lines source _ (List.getElem_mem hi)
  simp [newline_not_mem_gutter, hline]

/-- A row of a token listing. -/
structure TokenRow where
  number : Nat
  tokens : List Token
deriving DecidableEq, Repr

def TokenRow.text (r : TokenRow) : String :=
  gutter r.number ++ runText r.tokens

def tokenRows (tokens : List Token) : List TokenRow :=
  (runs tokens).map fun run => { number := run.head?.elim 0 Token.line, tokens := run }

theorem ofTokens_eq_ofRows (tokens : List Token) :
    ofTokens tokens = ofRows ((tokenRows tokens).map TokenRow.text) := by
  rw [ofTokens, ofRows, tokenRows, List.map_map, List.map_map]
  rfl

/-- The rows are the longest runs of neighbouring tokens on one line, in order. -/
structure MaximalRuns (tokens : List Token) (rows : List TokenRow) : Prop where
  whole : rows.flatMap TokenRow.tokens = tokens
  nonempty : ∀ r ∈ rows, r.tokens ≠ []
  numbered : ∀ r ∈ rows, ∀ t ∈ r.tokens, t.line = r.number
  maximal : rows.IsChain fun a b => a.number ≠ b.number

theorem line_eq_of_mem_run {tokens run : List Token} (hrun : run ∈ runs tokens) {t u : Token}
    (ht : t ∈ run) (hu : u ∈ run) : t.line = u.line := by
  have hchain : (run.map Token.line).IsChain (· = ·) := by
    rw [List.isChain_map]
    exact (List.isChain_of_mem_splitBy hrun).imp fun a b h => beq_iff_eq.mp h
  exact List.Pairwise.forall_of_forall (fun _ _ => rfl) hchain.pairwise
    (List.mem_map_of_mem ht) (List.mem_map_of_mem hu)

theorem maximalRuns_tokenRows (tokens : List Token) : MaximalRuns tokens (tokenRows tokens) := by
  have hnumber : ∀ run ∈ runs tokens, ∀ t ∈ run, t.line = run.head?.elim 0 Token.line := by
    intro run hrun t ht
    cases run with
    | nil => cases ht
    | cons u rest => exact line_eq_of_mem_run hrun ht List.mem_cons_self
  refine ⟨?_, List.forall_mem_map.mpr fun run => List.ne_nil_of_mem_splitBy,
    List.forall_mem_map.mpr hnumber, ?_⟩
  · rw [tokenRows, List.flatMap_map, List.flatMap_id']
    exact List.flatten_splitBy _ tokens
  · rw [tokenRows, List.isChain_map]
    refine (List.isChain_getLast_head_splitBy _ tokens).imp_of_mem_imp fun a b ha hb hab => ?_
    obtain ⟨hane, hbne, hlines⟩ := hab
    rw [← hnumber a ha _ (List.getLast_mem hane), ← hnumber b hb _ (List.head_mem hbne)]
    exact beq_eq_false_iff_ne.mp hlines

/-- Nothing else is cut as these runs are. -/
theorem MaximalRuns.eq_tokenRows {tokens : List Token} {rows : List TokenRow}
    (h : MaximalRuns tokens rows) : rows = tokenRows tokens := by
  have hruns : runs tokens = rows.map TokenRow.tokens := by
    refine List.splitBy_eq_iff.mpr ⟨?_, ?_, ?_, ?_⟩
    · rw [← List.flatMap_def, h.whole]
    · intro hnil
      obtain ⟨r, hr, hempty⟩ := List.mem_map.mp hnil
      exact h.nonempty r hr hempty
    · refine List.forall_mem_map.mpr fun r hr => List.Pairwise.isChain ?_
      refine List.pairwise_of_forall_mem_list fun t ht u hu => beq_iff_eq.mpr ?_
      rw [h.numbered r hr t ht, h.numbered r hr u hu]
    · rw [List.isChain_map]
      refine h.maximal.imp_of_mem_imp fun a b ha hb hab => ?_
      refine ⟨h.nonempty a ha, h.nonempty b hb, beq_eq_false_iff_ne.mpr ?_⟩
      rwa [h.numbered a ha _ (List.getLast_mem _), h.numbered b hb _ (List.head_mem _)]
  have hrow : ∀ r ∈ rows, TokenRow.mk (r.tokens.head?.elim 0 Token.line) r.tokens = r := by
    intro r hr
    rw [List.head?_eq_some_head (h.nonempty r hr), Option.elim_some,
      h.numbered r hr _ (List.head_mem _)]
  rw [tokenRows, hruns, List.map_map]
  exact ((List.map_congr_left hrow).trans (List.map_id' rows)).symm

theorem maximalRuns_iff {tokens : List Token} {rows : List TokenRow} :
    MaximalRuns tokens rows ↔ rows = tokenRows tokens :=
  ⟨MaximalRuns.eq_tokenRows, fun h => h ▸ maximalRuns_tokenRows tokens⟩

namespace MaximalRuns

variable {tokens : List Token} {rows : List TokenRow} (h : MaximalRuns tokens rows)

include h

theorem mem_tokens {r : TokenRow} (hr : r ∈ rows) {t : Token} (ht : t ∈ r.tokens) : t ∈ tokens :=
  h.whole ▸ List.mem_flatMap.mpr ⟨r, hr, ht⟩

/-- A number is that of a row exactly if a token has it as its line. -/
theorem exists_row_iff {n : Nat} : (∃ r ∈ rows, r.number = n) ↔ ∃ t ∈ tokens, t.line = n := by
  constructor
  · rintro ⟨r, hr, rfl⟩
    obtain ⟨t, ht⟩ := List.exists_mem_of_ne_nil _ (h.nonempty r hr)
    exact ⟨t, h.mem_tokens hr ht, h.numbered r hr t ht⟩
  · rintro ⟨t, ht, rfl⟩
    rw [← h.whole] at ht
    obtain ⟨r, hr, htr⟩ := List.mem_flatMap.mp ht
    exact ⟨r, hr, (h.numbered r hr t htr).symm⟩

/-- Behind tokens on other lines, a token has a row of its own. -/
theorem concat {t : Token} (ht : ∀ u ∈ tokens, u.line ≠ t.line) :
    MaximalRuns (tokens ++ [t]) (rows ++ [{ number := t.line, tokens := [t] }]) := by
  refine ⟨?_, ?_, ?_, List.isChain_append.mpr ⟨h.maximal, .singleton _, ?_⟩⟩
  · rw [List.flatMap_append, h.whole]
    rfl
  · exact List.forall_mem_append.mpr ⟨h.nonempty, List.forall_mem_singleton.mpr (by simp)⟩
  · exact List.forall_mem_append.mpr ⟨h.numbered, List.forall_mem_singleton.mpr (by simp)⟩
  · intro r hr r' hr'
    cases hr'
    obtain ⟨u, hu, hline⟩ := h.exists_row_iff.mp ⟨r, List.mem_of_mem_getLast? hr, rfl⟩
    rw [← hline]
    exact ht u hu

/-- The numbers increase if the lines of the tokens do not decrease. -/
theorem pairwise_number (hlines : tokens.Pairwise fun t u => t.line ≤ u.line) :
    (rows.map TokenRow.number).Pairwise (· < ·) := by
  rw [← h.whole] at hlines
  have hle : rows.Pairwise fun a b => a.number ≤ b.number := by
    refine (List.pairwise_flatMap.mp hlines).2.imp_of_mem fun ha hb hab => ?_
    obtain ⟨t, ht⟩ := List.exists_mem_of_ne_nil _ (h.nonempty _ ha)
    obtain ⟨u, hu⟩ := List.exists_mem_of_ne_nil _ (h.nonempty _ hb)
    rw [← h.numbered _ ha t ht, ← h.numbered _ hb u hu]
    exact hab t ht u hu
  have hlt : rows.IsChain fun a b => a.number < b.number :=
    List.isChain_iff_getElem.mpr fun i hi =>
      lt_of_le_of_ne (hle.isChain.getElem i hi) (h.maximal.getElem i hi)
  exact ((List.isChain_map TokenRow.number).mpr hlt).pairwise

/-- Then a line on which there is a token has exactly one row, and no other line has one. -/
theorem existsUnique_row_iff (hlines : tokens.Pairwise fun t u => t.line ≤ u.line) {n : Nat} :
    (∃! r, r ∈ rows ∧ r.number = n) ↔ ∃ t ∈ tokens, t.line = n := by
  have hnodup : (rows.map TokenRow.number).Nodup := (h.pairwise_number hlines).imp ne_of_lt
  rw [← h.exists_row_iff]
  constructor
  · exact ExistsUnique.exists
  · rintro ⟨r, hr, rfl⟩
    exact ⟨r, ⟨hr, rfl⟩, fun r' hr' => List.inj_on_of_nodup_map hnodup hr'.1 hr hr'.2⟩

end MaximalRuns

/-- The tokens of a text: those that stand in it, and the end of the input below all of them. -/
theorem exists_lexemes_of_scan {lines : List String} {tokens : List Token}
    (h : Token.scan lines = .ok tokens) :
    ∃ lexemes, tokens = lexemes ++ [Token.endOfInput (lines.length + 1)] ∧
      (∀ t ∈ lexemes, t.StandsIn lines) ∧ ∀ t ∈ lexemes, t.line ≠ lines.length + 1 := by
  obtain ⟨segments, hcuts, rfl⟩ := Token.exists_cuts_of_scan h
  refine ⟨_, rfl, fun t => Token.standsIn_of_cuts hcuts, fun t ht => ?_⟩
  obtain ⟨text, -, -, honLine⟩ := (Token.standsIn_of_cuts hcuts ht).exists_text
  have hle := honLine.bounds.2
  omega

theorem kind_ne_eof_of_standsIn {lines : List String} {t : Token} (h : t.StandsIn lines) :
    t.kind ≠ .eof := by
  obtain ⟨text, -, hlexeme, -⟩ := h.exists_text
  intro hkind
  rw [hkind] at hlexeme
  exact hlexeme

theorem newline_not_mem_describe {t : Token} (h : ∀ text ∈ t.text, '\n' ∉ text.toList) :
    '\n' ∉ t.describe.toList := by
  obtain ⟨kind, text, line, column⟩ := t
  cases text with
  | none => cases kind <;> simp [Token.describe, Token.Kind.name]
  | some text =>
    have htext := h text rfl
    cases kind <;> simp [Token.describe, htext]

theorem newline_not_mem_runText {run : List Token}
    (h : ∀ t ∈ run, ∀ text ∈ t.text, '\n' ∉ text.toList) : '\n' ∉ (runText run).toList := by
  rw [runText]
  induction run with
  | nil => simp
  | cons t run ih =>
    obtain ⟨ht, hrun⟩ := List.forall_mem_cons.mp h
    have hhead := newline_not_mem_describe ht
    cases run with
    | nil => simpa using hhead
    | cons u run =>
      rw [List.map_cons, List.map_cons, String.intercalate_cons_cons, ← List.map_cons]
      simp only [String.toList_append, List.mem_append, not_or]
      exact ⟨⟨hhead, by decide⟩, ih hrun⟩

/-- The rows of a token listing can be told apart if no token has a line feed in it. -/
theorem rows_ofTokens {tokens : List Token}
    (h : ∀ t ∈ tokens, ∀ text ∈ t.text, '\n' ∉ text.toList) :
    rows (ofTokens tokens) = (tokenRows tokens).map TokenRow.text := by
  rw [ofTokens_eq_ofRows, rows_ofRows]
  refine List.forall_mem_map.mpr fun r hr => ?_
  have hrun : '\n' ∉ (runText r.tokens).toList :=
    newline_not_mem_runText fun t ht => h t ((maximalRuns_tokenRows tokens).mem_tokens hr ht)
  simp [TokenRow.text, newline_not_mem_gutter, hrun]

theorem newline_not_mem_of_standsIn {source : String} {t : Token} (h : t.StandsIn (lines source)) :
    ∀ text ∈ t.text, '\n' ∉ text.toList := by
  intro text htext hmem
  obtain ⟨text', htext', -, i, line, -, hline, hpart⟩ := h.exists_text
  obtain rfl : text = text' := Option.mem_unique htext htext'
  exact newline_not_mem_lines source line (List.mem_of_getElem? hline) (hpart.subset hmem)

/-- In the row of the token's line, from the token's column on, the rows show its text. -/
def Shows (rows : List String) (t : Token) : Prop :=
  ∃ i left text right, t.line = i + 1 ∧ t.column = left.length + 1 ∧ t.text = some text ∧
    rows[i]? = some (gutter t.line ++ (left ++ text ++ right))

/-- The source listing shows every token that stands in the source. -/
theorem shows_of_standsIn {source : String} {t : Token} (h : t.StandsIn (lines source)) :
    Shows (rows (ofSource source)) t := by
  obtain ⟨text, s, htext, -, hlines, hposition, right, hright⟩ := h
  have hline : s.earlier.length + 1 = t.line := congrArg Lexical.Position.line hposition
  have hcolumn : s.left.length + 1 = t.column := congrArg Lexical.Position.column hposition
  refine ⟨s.earlier.length, String.ofList s.left, text, String.ofList right, hline.symm, ?_, htext,
    ?_⟩
  · rw [String.length_ofList, hcolumn]
  · have hrow : (lines source)[s.earlier.length]? = some (String.ofList (s.left ++ s.right)) := by
      rw [← hlines, Lexical.Spot.lines]
      simp
    rw [rows_ofSource, List.getElem?_mapIdx, hrow, ← hline, ← hright]
    simp [String.append_assoc]

/-- What a token listing and a source listing say of each other. The rows of a token listing are the
longest runs of neighbouring tokens on one line, and no others are. If the tokens are those of a
source, the numbers of the rows increase, and there is one row for each line on which a token
stands; the last row has the end of the input alone, and its number is one more than there are rows
in the source listing. That listing shows, behind the same gutter, every token at its column. -/
theorem listings_share_gutter :
    (∀ tokens : List Token,
      ofTokens tokens = ofRows ((tokenRows tokens).map TokenRow.text) ∧
      ∀ rows, MaximalRuns tokens rows ↔ rows = tokenRows tokens) ∧
    ∀ (source : String) (tokens : List Token), Token.scan (lines source) = .ok tokens →
      rows (ofTokens tokens) = (tokenRows tokens).map TokenRow.text ∧
      ((tokenRows tokens).map TokenRow.number).Pairwise (· < ·) ∧
      (tokenRows tokens).flatMap TokenRow.tokens = tokens ∧
      (∃ before eof, eof.kind = .eof ∧
        tokenRows tokens =
          before ++ [{ number := (rows (ofSource source)).length + 1, tokens := [eof] }] ∧
        ∀ n, (∃ t ∈ tokens, t.kind ≠ .eof ∧ t.line = n) ↔ ∃! r, r ∈ before ∧ r.number = n) ∧
      ∀ r ∈ tokenRows tokens, ∀ t ∈ r.tokens, t.line = r.number ∧
        (t.kind ≠ .eof → Shows (rows (ofSource source)) t) := by
  refine ⟨fun tokens => ⟨ofTokens_eq_ofRows tokens, fun rows => maximalRuns_iff⟩,
    fun source tokens h => ?_⟩
  have hruns := maximalRuns_tokenRows tokens
  have hordered := Token.pairwise_line_of_scan h
  have hshown : ∀ t ∈ tokens, t.kind ≠ .eof → Shows (rows (ofSource source)) t :=
    fun t ht hkind => shows_of_standsIn (Token.standsIn_of_scan h ht hkind)
  obtain ⟨lexemes, rfl, hstands, hlines⟩ := exists_lexemes_of_scan h
  have hlexemes := maximalRuns_tokenRows lexemes
  have hcount : (rows (ofSource source)).length = (lines source).length := by
    rw [rows_ofSource, List.length_mapIdx]
  refine ⟨rows_ofTokens ?_, hruns.pairwise_number hordered, hruns.whole,
    ⟨tokenRows lexemes, Token.endOfInput ((lines source).length + 1), rfl, ?_, fun n => ?_⟩,
    fun r hr t ht => ⟨hruns.numbered r hr t ht, hshown t (hruns.mem_tokens hr ht)⟩⟩
  · refine List.forall_mem_append.mpr ⟨fun t ht => newline_not_mem_of_standsIn (hstands t ht), ?_⟩
    exact List.forall_mem_singleton.mpr (by simp [Token.endOfInput])
  · rw [hcount]
    exact (hlexemes.concat hlines).eq_tokenRows.symm
  · rw [hlexemes.existsUnique_row_iff (List.pairwise_append.mp hordered).1]
    constructor
    · rintro ⟨t, ht, hkind, hline⟩
      rcases List.mem_append.mp ht with ht | ht
      · exact ⟨t, ht, hline⟩
      · rw [List.mem_singleton.mp ht] at hkind
        exact absurd rfl hkind
    · rintro ⟨t, ht, hline⟩
      exact ⟨t, List.mem_append_left _ ht, kind_ne_eof_of_standsIn (hstands t ht), hline⟩

/-- Line feeds with and without carriage returns, a comment over two lines, an empty line, and
characters of more than one byte before tokens. -/
def ragged : String :=
  "int /* é */ f\r\n/* (\n(*/ (\n\n\t/* é */void\r"

def raggedTokens : List Token :=
  [{ kind := .intKeyword, text := "int", line := 1, column := 1 },
   { kind := .identifier, text := "f", line := 1, column := 13 },
   { kind := .openParen, text := "(", line := 3, column := 5 },
   { kind := .voidKeyword, text := "void", line := 5, column := 9 },
   { kind := .eof, text := none, line := 6, column := 1 }]

theorem listings_share_gutter_ragged :
    Token.scan (lines ragged) = .ok raggedTokens ∧
    rows (ofTokens raggedTokens) =
      ["   1 | 'int' identifier 'f'", "   3 | '('", "   5 | 'void'", "   6 | end of input"] ∧
    [1, 3, 5, 6].Pairwise (· < ·) ∧
    ∀ t ∈ raggedTokens, t.kind ≠ .eof → Shows (rows (ofSource ragged)) t := by
  have hscan : Token.scan (lines ragged) = .ok raggedTokens := by decide +kernel
  obtain ⟨hrows, hnumbers, hwhole, -, hshows⟩ := listings_share_gutter.2 ragged raggedTokens hscan
  have htexts : (tokenRows raggedTokens).map TokenRow.text = ["   1 | 'int' identifier 'f'",
      "   3 | '('", "   5 | 'void'", "   6 | end of input"] := by decide +kernel
  have hlines : (tokenRows raggedTokens).map TokenRow.number = [1, 3, 5, 6] := by decide +kernel
  rw [hlines] at hnumbers
  refine ⟨hscan, hrows.trans htexts, hnumbers, fun t ht => ?_⟩
  rw [← hwhole] at ht
  obtain ⟨r, hr, htr⟩ := List.mem_flatMap.mp ht
  exact (hshows r hr t htr).2

end UnaryC.Listing
