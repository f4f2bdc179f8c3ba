import UnaryC.Token.Rule

/-!
# Matches counted in bytes

How many bytes a pattern covers is counted on its own account: as far as a cursor has come, as the
size of a fixed text, or as the size of all that is left. These are always the bytes of the
characters that the pattern covers. So the longest match in bytes is the longest one in characters,
and it is that of the first rule that covers as much as any.
-/
namespace UnaryC.Token

open Text (isBlank)

/-- The number of bytes that characters take in UTF-8. -/
def byteLength (chars : List Char) : Nat :=
  (String.ofList chars).utf8ByteSize

@[simp]
theorem byteLength_nil : byteLength [] = 0 :=
  rfl

@[simp]
theorem byteLength_append (front back : List Char) :
    byteLength (front ++ back) = byteLength front + byteLength back := by
  rw [byteLength, String.ofList_append, String.utf8ByteSize_append]
  rfl

theorem byteLength_cons (c : Char) (rest : List Char) :
    byteLength (c :: rest) = c.utf8Size + byteLength rest := by
  have hone : byteLength [c] = c.utf8Size := String.utf8ByteSize_singleton
  rw [← List.singleton_append, byteLength_append, hone]

theorem byteLength_pos {chars : List Char} (h : chars ≠ []) : 0 < byteLength chars := by
  cases chars with
  | nil => exact absurd rfl h
  | cons c rest =>
    have hc := c.utf8Size_pos
    rw [byteLength_cons]
    omega

theorem byteLength_take_pos {n : Nat} (h : 0 < n) (c : Char) (rest : List Char) :
    0 < byteLength ((c :: rest).take n) := by
  refine byteLength_pos fun hnil => ?_
  rcases List.take_eq_nil_iff.mp hnil with rfl | hnil
  · exact absurd h (Nat.lt_irrefl 0)
  · cases hnil

/-- More characters of a text take more bytes. -/
theorem byteLength_take_lt_iff {text : List Char} {a b : Nat} (hb : b ≤ text.length) :
    byteLength (text.take a) < byteLength (text.take b) ↔ a < b := by
  constructor
  · intro h
    refine Nat.lt_of_not_le fun hle => ?_
    have hsplit := List.take_add (l := text) (i := b) (j := a - b)
    rw [Nat.add_sub_cancel' hle] at hsplit
    rw [hsplit, byteLength_append] at h
    omega
  · intro h
    have hsplit := List.take_add (l := text) (i := a) (j := b - a)
    rw [Nat.add_sub_cancel' (Nat.le_of_lt h)] at hsplit
    have hmore : (text.drop a).take (b - a) ≠ [] := by
      rw [ne_eq, List.take_eq_nil_iff, List.drop_eq_nil_iff]
      omega
    have hpos := byteLength_pos hmore
    rw [hsplit, byteLength_append]
    omega

/-- The bytes that a cursor has behind it when it stops at `rest`. -/
def consumed (text rest : List Char) : Nat :=
  byteLength text - byteLength rest

/-- The number of bytes at the head of `text` that the pattern covers; `0` when it does not
match. -/
def Pattern.bytes (text : List Char) : Pattern → Nat
  | blanks => consumed text (text.dropWhile isBlank)
  | lineComment => if ['/', '/'].isPrefixOf text then byteLength text else 0
  | commentStart => if ['/', '*'].isPrefixOf text then byteLength ['/', '*'] else 0
  | word => if text.head?.any isWordStart then consumed text (text.dropWhile isWordChar) else 0
  | number =>
    if (text.dropWhile Char.isDigit).head?.any isWordChar then 0
    else consumed text (text.dropWhile Char.isDigit)
  | symbol chars => if chars.isPrefixOf text then byteLength chars else 0

theorem consumed_dropWhile (p : Char → Bool) (text : List Char) :
    consumed text (text.dropWhile p) = byteLength (text.take (text.takeWhile p).length) := by
  have hsplit := congrArg byteLength (List.takeWhile_append_dropWhile (p := p) (l := text))
  rw [byteLength_append] at hsplit
  rw [← List.prefix_iff_eq_take.mp (List.takeWhile_prefix p), consumed]
  omega

theorem take_length_of_isPrefixOf {chars text : List Char} (h : chars.isPrefixOf text = true) :
    text.take chars.length = chars :=
  (List.prefix_iff_eq_take.mp (List.isPrefixOf_iff_prefix.mp h)).symm

theorem Pattern.length_le (text : List Char) (pattern : Pattern) :
    pattern.length text ≤ text.length := by
  have hwhile : ∀ p : Char → Bool, (text.takeWhile p).length ≤ text.length := fun p =>
    (List.takeWhile_prefix p).length_le
  have hbegins : ∀ chars : List Char, chars.isPrefixOf text = true →
      chars.length ≤ text.length := fun chars h => (List.isPrefixOf_iff_prefix.mp h).length_le
  cases pattern with
  | blanks => exact hwhile _
  | lineComment =>
    rw [length]
    split <;> omega
  | commentStart =>
    rw [length]
    split
    · next h => exact hbegins _ h
    · exact Nat.zero_le _
  | word =>
    rw [length]
    split
    · exact hwhile _
    · exact Nat.zero_le _
  | number =>
    rw [length]
    split
    · exact Nat.zero_le _
    · exact hwhile _
  | symbol chars =>
    rw [length]
    split
    · next h => exact hbegins _ h
    · exact Nat.zero_le _

theorem longest?_le {text : List Char} {m : Match} (h : longest? text = some m) :
    m.length ≤ text.length := by
  have hfold : ∀ (table : List Rule) (best : Option Match),
      (∀ m ∈ best, m.length ≤ text.length) →
        ∀ m ∈ table.foldl (Match.better text) best, m.length ≤ text.length := by
    intro table
    induction table with
    | nil => exact fun _ hbest => hbest
    | cons rule table ih =>
      intro best hbest
      refine ih _ fun m hm => ?_
      unfold Match.better at hm
      dsimp only at hm
      split at hm
      · cases hm
        exact rule.pattern.length_le text
      · exact hbest m hm
  exact hfold rules none (by simp) m h

/-- A match is made of whole characters: those that the scanner counts. -/
theorem Pattern.bytes_eq (text : List Char) (pattern : Pattern) :
    pattern.bytes text = byteLength (text.take (pattern.length text)) := by
  cases pattern with
  | blanks => exact consumed_dropWhile _ text
  | lineComment =>
    rw [bytes, length]
    split
    · rw [List.take_length]
    · rfl
  | commentStart =>
    rw [bytes, length]
    split
    · next h => exact congrArg byteLength (take_length_of_isPrefixOf h).symm
    · rfl
  | word =>
    rw [bytes, length]
    split
    · exact consumed_dropWhile _ text
    · rfl
  | number =>
    rw [bytes, length]
    split
    · rfl
    · exact consumed_dropWhile _ text
  | symbol chars =>
    rw [bytes, length]
    split
    · next h => exact congrArg byteLength (take_length_of_isPrefixOf h).symm
    · rfl

/-- Keeps the better of the best match so far and what `rule` covers: the new one only if longer. -/
def keepLonger (text : List Char) (best : Option (Nat × Effect)) (rule : Rule) :
    Option (Nat × Effect) :=
  let n := rule.pattern.bytes text
  if 0 < n ∧ best.all (fun found => found.1 < n) then some (n, rule.effect) else best

/-- The longest match at the head of `text`, in bytes. -/
def longestBytes? (text : List Char) : Option (Nat × Effect) :=
  rules.foldl (keepLonger text) none

/-- The match is the first among the longest of the table; or there is none at all. -/
def Best (text : List Char) (table : List Rule) : Option (Nat × Effect) → Prop
  | none => ∀ r ∈ table, r.pattern.bytes text = 0
  | some (n, effect) => 0 < n ∧ (∀ r ∈ table, r.pattern.bytes text ≤ n) ∧
      ∃ rule, table.find? (fun r => r.pattern.bytes text = n) = some rule ∧ rule.effect = effect

theorem Best.concat {text : List Char} {table : List Rule} {best : Option (Nat × Effect)}
    (h : Best text table best) (rule : Rule) :
    Best text (table ++ [rule]) (keepLonger text best rule) := by
  unfold keepLonger
  dsimp only
  have hall : ∀ {n}, (∀ r ∈ table, r.pattern.bytes text ≤ n) → rule.pattern.bytes text ≤ n →
      ∀ r ∈ table ++ [rule], r.pattern.bytes text ≤ n := by
    intro n htable hrule r hr
    rcases List.mem_append.mp hr with hr | hr
    · exact htable r hr
    · rw [List.mem_singleton.mp hr]
      exact hrule
  split
  next hlonger =>
    -- Every rule before covers less, so this one is the first of its length.
    have hless : ∀ r ∈ table, r.pattern.bytes text < rule.pattern.bytes text := by
      intro r hr
      cases best with
      | none => rw [h r hr]; exact hlonger.1
      | some found =>
        have hfound := of_decide_eq_true hlonger.2
        exact Nat.lt_of_le_of_lt (h.2.1 r hr) hfound
    refine ⟨hlonger.1, hall (fun r hr => Nat.le_of_lt (hless r hr)) (Nat.le_refl _), rule, ?_, rfl⟩
    rw [List.find?_append, List.find?_eq_none.mpr fun r hr => ?_]
    · simp
    · simpa using Nat.ne_of_lt (hless r hr)
  next hshort =>
    cases best with
    | none =>
      have hzero : rule.pattern.bytes text = 0 := by simpa using hshort
      intro r hr
      have hle := hall (n := 0) (fun r hr => Nat.le_of_eq (h r hr)) (Nat.le_of_eq hzero) r hr
      omega
    | some found =>
      obtain ⟨hpos, htable, first, hfirst, heffect⟩ := h
      have hrule : rule.pattern.bytes text ≤ found.1 := by
        refine Nat.le_of_not_lt fun hlt => hshort ⟨Nat.lt_of_le_of_lt (Nat.zero_le _) hlt, ?_⟩
        exact decide_eq_true hlt
      refine ⟨hpos, hall htable hrule, first, ?_, heffect⟩
      rw [List.find?_append, hfirst]
      rfl

theorem best_foldl {text : List Char} (table : List Rule) :
    ∀ {before : List Rule} {best : Option (Nat × Effect)}, Best text before best →
      Best text (before ++ table) (table.foldl (keepLonger text) best) := by
  induction table with
  | nil =>
    intro before best h
    rwa [List.append_nil]
  | cons rule table ih =>
    intro before best h
    rw [List.append_cons]
    exact ih (h.concat rule)

theorem best_longestBytes? (text : List Char) : Best text rules (longestBytes? text) := by
  have hnone : Best text [] none := fun _ hr => absurd hr List.not_mem_nil
  exact best_foldl rules hnone

theorem mem_of_find?_bytes {text : List Char} {table : List Rule} {n : Nat} {rule : Rule}
    (h : table.find? (fun r => r.pattern.bytes text = n) = some rule) :
    rule ∈ table ∧ rule.pattern.bytes text = n :=
  ⟨List.mem_of_find?_eq_some h, by simpa using List.find?_some h⟩

theorem longestBytes?_eq_some_iff {text : List Char} {n : Nat} {effect : Effect} :
    longestBytes? text = some (n, effect) ↔ Best text rules (some (n, effect)) := by
  constructor
  · intro h
    rw [← h]
    exact best_longestBytes? text
  · rintro ⟨hpos, hall, rule, hfirst, heffect⟩
    obtain ⟨hmem, hrule⟩ := mem_of_find?_bytes hfirst
    have hbest := best_longestBytes? text
    cases hlongest : longestBytes? text with
    | none =>
      rw [hlongest] at hbest
      have hzero := hbest rule hmem
      omega
    | some found =>
      -- Two longest matches are equally long, and then the first rule is the same.
      rw [hlongest] at hbest
      obtain ⟨-, hall', rule', hfirst', heffect'⟩ := hbest
      obtain ⟨hmem', hrule'⟩ := mem_of_find?_bytes hfirst'
      have hle := hall' rule hmem
      have hge := hall rule' hmem'
      have hsame : found.1 = n := by omega
      rw [hsame, hfirst] at hfirst'
      cases hfirst'
      rw [← hsame, ← heffect, heffect']

theorem Best.exists_covering {text : List Char} {table : List Rule} {n : Nat} {effect : Effect}
    (h : Best text table (some (n, effect))) : ∃ r ∈ table, r.pattern.bytes text = n := by
  obtain ⟨-, -, rule, hfirst, -⟩ := h
  exact ⟨rule, mem_of_find?_bytes hfirst⟩

theorem isSome_longestBytes?_iff {text : List Char} :
    (longestBytes? text).isSome ↔ ∃ r ∈ rules, 0 < r.pattern.bytes text := by
  have hbest := best_longestBytes? text
  cases hlongest : longestBytes? text with
  | none =>
    rw [hlongest] at hbest
    refine iff_of_false (by simp) fun ⟨r, hr, hpos⟩ => ?_
    have hzero := hbest r hr
    omega
  | some found =>
    rw [hlongest] at hbest
    obtain ⟨r, hr, hbytes⟩ := hbest.exists_covering
    exact iff_of_true rfl ⟨r, hr, hbytes ▸ hbest.1⟩

/-- A match of the scanner, with its length in bytes. -/
def Match.inBytes (text : List Char) (m : Match) : Nat × Effect :=
  (byteLength (text.take m.length), m.effect)

theorem keepLonger_map (text : List Char) (best : Option Match) (rule : Rule) :
    keepLonger text (best.map (Match.inBytes text)) rule =
      (Match.better text best rule).map (Match.inBytes text) := by
  have hlt : ∀ k, byteLength (text.take k) < rule.pattern.bytes text ↔
      k < rule.pattern.length text := by
    intro k
    rw [Pattern.bytes_eq]
    exact byteLength_take_lt_iff (rule.pattern.length_le text)
  have hlonger : (0 < rule.pattern.bytes text ∧
      (best.map (Match.inBytes text)).all (fun found => found.1 < rule.pattern.bytes text)) ↔
        best.elim 0 Match.length < rule.pattern.length text := by
    cases best with
    | none => simpa using hlt 0
    | some m =>
      have hm := hlt m.length
      simp only [Option.map_some, Option.all_some, decide_eq_true_eq, Option.elim_some,
        Match.inBytes]
      omega
  unfold keepLonger Match.better
  dsimp only
  by_cases hnew : best.elim 0 Match.length < rule.pattern.length text
  · rw [if_pos (hlonger.mpr hnew), if_pos hnew, Option.map_some, Match.inBytes, Pattern.bytes_eq]
  · rw [if_neg (mt hlonger.mp hnew), if_neg hnew]

/-- Counted in bytes, the longest match is the one that the scanner finds. -/
theorem longestBytes?_eq (text : List Char) :
    longestBytes? text = (longest? text).map (Match.inBytes text) := by
  have hfold : ∀ (table : List Rule) (best : Option Match),
      table.foldl (keepLonger text) (best.map (Match.inBytes text)) =
        (table.foldl (Match.better text) best).map (Match.inBytes text) := by
    intro table
    induction table with
    | nil => exact fun _ => rfl
    | cons rule table ih =>
      intro best
      rw [List.foldl_cons, List.foldl_cons, keepLonger_map, ih]
  exact hfold rules none

-- The first of the two blanks takes two bytes.
example : longestBytes? ['\u00A0', ' ', 'x'] = some (3, .skip) := by decide

end UnaryC.Token
