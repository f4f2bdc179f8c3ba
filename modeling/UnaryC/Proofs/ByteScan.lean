import UnaryC.Proofs.MatchBytes
import UnaryC.Proofs.Scanning

/-!
# Scanning by bytes

The scanner counts characters. Here the same scan is done with positions that count bytes, where a
position may lie within a character or behind the end, and a text cut there is a fault. No cut is
ever at fault, each turn of the loop gets on, and the scan comes to what the scanner makes of the
line.
-/
namespace UnaryC.Token

/-- The byte lies on a character boundary of the text, or right behind the text. -/
def IsBoundary (text : String) (n : Nat) : Prop :=
  (⟨n⟩ : String.Pos.Raw).IsValid text

instance (text : String) (n : Nat) : Decidable (IsBoundary text n) :=
  inferInstanceAs (Decidable (String.Pos.Raw.IsValid text ⟨n⟩))

/-- The text from byte `n` on, which has to be a boundary. -/
def sliceFrom? (text : String) (n : Nat) : Option String :=
  if h : IsBoundary text n then some (text.sliceFrom (text.pos ⟨n⟩ h)).copy else none

/-- The text up to byte `n`, which has to be a boundary. -/
def sliceTo? (text : String) (n : Nat) : Option String :=
  if h : IsBoundary text n then some (text.sliceTo (text.pos ⟨n⟩ h)).copy else none

theorem isBoundary_iff {text : String} {n : Nat} :
    IsBoundary text n ↔
      ∃ left right, text = String.ofList (left ++ right) ∧ n = byteLength left := by
  rw [IsBoundary, String.Pos.Raw.isValid_iff_exists_append]
  constructor
  · rintro ⟨s, t, rfl, h⟩
    refine ⟨s.toList, t.toList, ?_, ?_⟩
    · rw [String.ofList_append, String.ofList_toList, String.ofList_toList]
    · rw [byteLength, String.ofList_toList]
      exact congrArg String.Pos.Raw.byteIdx h
  · rintro ⟨left, right, rfl, rfl⟩
    exact ⟨String.ofList left, String.ofList right, String.ofList_append, rfl⟩

theorem isBoundary_ofList (left right : List Char) :
    IsBoundary (String.ofList (left ++ right)) (byteLength left) :=
  isBoundary_iff.mpr ⟨left, right, rfl, rfl⟩

/-- A match ends between two characters of the text, or behind it. -/
theorem isBoundary_bytes (text : String) (pattern : Pattern) :
    IsBoundary text (pattern.bytes text.toList) := by
  have hcut := isBoundary_ofList (text.toList.take (pattern.length text.toList))
    (text.toList.drop (pattern.length text.toList))
  rwa [List.take_append_drop, String.ofList_toList, ← Pattern.bytes_eq] at hcut

theorem IsBoundary.le_byteLength {text : String} {n : Nat} (h : IsBoundary text n) :
    n ≤ text.utf8ByteSize :=
  h.le_utf8ByteSize

theorem splits_ofList (left right : List Char) :
    ((String.ofList (left ++ right)).pos ⟨byteLength left⟩ (isBoundary_ofList left right)).Splits
      (String.ofList left) (String.ofList right) :=
  ⟨String.ofList_append, rfl⟩

theorem sliceFrom?_ofList (left right : List Char) :
    sliceFrom? (String.ofList (left ++ right)) (byteLength left) = some (String.ofList right) := by
  rw [sliceFrom?, dif_pos (isBoundary_ofList left right), (splits_ofList _ _).copy_sliceFrom_eq]

theorem sliceTo?_ofList (left right : List Char) :
    sliceTo? (String.ofList (left ++ right)) (byteLength left) = some (String.ofList left) := by
  rw [sliceTo?, dif_pos (isBoundary_ofList left right), (splits_ofList _ _).copy_sliceTo_eq]

/-- The byte at which the first `*/` of the text starts. -/
def closeOffset? : List Char → Option Nat
  | '*' :: '/' :: _ => some 0
  | c :: rest => (closeOffset? rest).map (c.utf8Size + ·)
  | [] => none

theorem closeOffset?_eq (text : List Char) :
    (closeOffset? text).map (· + byteLength ['*', '/']) =
      (commentLength? text).map fun n => byteLength (text.take n) := by
  induction text with
  | nil => rfl
  | cons c rest ih =>
    by_cases hclose : ∃ more, c :: rest = '*' :: '/' :: more
    · obtain ⟨more, hmore⟩ := hclose
      rw [hmore]
      rfl
    · have hopen : ∀ more, c = '*' → rest = '/' :: more → False := fun more hc hrest =>
        hclose ⟨more, by rw [hc, hrest]⟩
      have htake : ∀ n, byteLength ((c :: rest).take (n + 1)) =
          c.utf8Size + byteLength (rest.take n) := fun n => by
        rw [List.take_succ_cons, byteLength_cons]
      rw [closeOffset?, commentLength?]
      · have hrest := congrArg (Option.map (c.utf8Size + ·)) ih
        simp only [Option.map_map, Function.comp_def, htake, Nat.add_assoc] at hrest ⊢
        exact hrest
      · exact hopen
      · exact hopen

/-- Where the scan of a line stands, in bytes, and what it has found. -/
structure Place where
  pos : Nat
  /-- The line where the comment around the place was opened, if there is one. -/
  opened : Option Nat
  tokens : List Token
deriving DecidableEq, Repr

/-- What a turn of the loop does. -/
inductive Turn where
  /-- Leaves the loop. -/
  | ends
  | fails (error : LexError)
  | moves (next : Place)
deriving DecidableEq, Repr

/-- One turn of the loop over a line. There is no result if a text is cut out of range or within a
character. -/
def turn (line : Nat) (text : String) (p : Place) : Option Turn := do
  let rest ← sliceFrom? text p.pos
  match rest.toList with
  | [] => return .ends
  | c :: _ =>
    match p.opened with
    | some _ =>
      match closeOffset? rest.toList with
      | none => return .ends
      | some n =>
        return .moves { p with pos := p.pos + (n + byteLength ['*', '/']), opened := none }
    | none =>
      match longestBytes? rest.toList with
      | none => do
        let before ← sliceTo? text p.pos
        return .fails (.unexpectedChar c line (before.length + 1))
      | some (n, .skip) => return .moves { p with pos := p.pos + n }
      | some (n, .openComment) => return .moves { p with pos := p.pos + n, opened := some line }
      | some (n, .emit kind) => do
        let lexeme ← sliceTo? rest n
        let before ← sliceTo? text p.pos
        let token := ofLexeme kind lexeme.toList line (before.length + 1)
        return .moves { p with pos := p.pos + n, tokens := p.tokens ++ [token] }

/-- The loop, from a place on, makes that many moves and comes to the result. -/
inductive Scans (line : Nat) (text : String) :
    Nat → Place → Except LexError (List Token × Option Nat) → Prop
  | ends {p : Place} (h : turn line text p = some .ends) :
      Scans line text 0 p (.ok (p.tokens, p.opened))
  | fails {p : Place} {e : LexError} (h : turn line text p = some (.fails e)) :
      Scans line text 0 p (.error e)
  | moves {p q : Place} {n : Nat} {result : Except LexError (List Token × Option Nat)}
      (h : turn line text p = some (.moves q)) (hnext : Scans line text n q result) :
      Scans line text (n + 1) p result

section

variable (line : Nat) (left : List Char) (tokens : List Token)

theorem turn_end (opened : Option Nat) :
    turn line (String.ofList left) ⟨byteLength left, opened, tokens⟩ = some .ends := by
  have hrest := sliceFrom?_ofList left []
  rw [List.append_nil] at hrest
  simp [turn, hrest]

theorem turn_commented (c : Char) (rest : List Char) (start : Nat) :
    turn line (String.ofList (left ++ c :: rest)) ⟨byteLength left, some start, tokens⟩ =
      some ((commentLength? (c :: rest)).elim .ends fun n =>
        .moves ⟨byteLength left + byteLength ((c :: rest).take n), none, tokens⟩) := by
  have hclose := closeOffset?_eq (c :: rest)
  simp only [turn, sliceFrom?_ofList, String.toList_ofList, Option.bind_eq_bind, Option.bind_some]
  cases hlength : commentLength? (c :: rest) with
  | none =>
    rw [hlength, Option.map_none, Option.map_eq_none_iff] at hclose
    rw [hclose]
    rfl
  | some n =>
    rw [hlength, Option.map_some, Option.map_eq_some_iff] at hclose
    obtain ⟨offset, hoffset, hn⟩ := hclose
    rw [hoffset, Option.elim_some, ← hn]
    rfl

theorem turn_unmatched {c : Char} {rest : List Char} (h : longest? (c :: rest) = none) :
    turn line (String.ofList (left ++ c :: rest)) ⟨byteLength left, none, tokens⟩ =
      some (.fails (.unexpectedChar c line (left.length + 1))) := by
  have hbytes : longestBytes? (c :: rest) = none := by rw [longestBytes?_eq, h, Option.map_none]
  simp only [turn, sliceFrom?_ofList, sliceTo?_ofList, String.toList_ofList, hbytes,
    Option.bind_eq_bind, Option.bind_some, String.length_ofList]
  rfl

theorem turn_matched {c : Char} {rest : List Char} {m : Match}
    (h : longest? (c :: rest) = some m) :
    ∃ s, step line none (left.length + 1) c rest = .ok s ∧
      turn line (String.ofList (left ++ c :: rest)) ⟨byteLength left, none, tokens⟩ =
        some (.moves ⟨byteLength left + byteLength ((c :: rest).take s.length), s.opened,
          tokens ++ s.token.toList⟩) := by
  have hbytes : longestBytes? (c :: rest) = some (m.inBytes (c :: rest)) := by
    rw [longestBytes?_eq, h, Option.map_some]
  have hlexeme : sliceTo? (String.ofList (c :: rest)) (byteLength ((c :: rest).take m.length)) =
      some (String.ofList ((c :: rest).take m.length)) := by
    have hcut := sliceTo?_ofList ((c :: rest).take m.length) ((c :: rest).drop m.length)
    rwa [List.take_append_drop] at hcut
  obtain ⟨length, effect⟩ := m
  simp only [step, h, turn, sliceFrom?_ofList, String.toList_ofList, hbytes, Match.inBytes,
    Option.bind_eq_bind, Option.bind_some]
  cases effect with
  | skip => exact ⟨_, rfl, by simp⟩
  | openComment => exact ⟨_, rfl, by simp⟩
  | emit kind =>
    refine ⟨_, rfl, ?_⟩
    simp only [hlexeme, sliceTo?_ofList, String.toList_ofList, Option.bind_some,
      String.length_ofList]
    rfl

/-- A turn does what a step of the scanner does. It leaves the loop where the step goes over all
that is left of a line within a comment. -/
theorem turn_cases (opened : Option Nat) (c : Char) (rest : List Char) :
    (∃ e, step line opened (left.length + 1) c rest = .error e ∧
      turn line (String.ofList (left ++ c :: rest)) ⟨byteLength left, opened, tokens⟩ =
        some (.fails e)) ∨
    (∃ s, step line opened (left.length + 1) c rest = .ok s ∧
      turn line (String.ofList (left ++ c :: rest)) ⟨byteLength left, opened, tokens⟩ =
        some (.moves ⟨byteLength left + byteLength ((c :: rest).take s.length), s.opened,
          tokens ++ s.token.toList⟩)) ∨
    (step line opened (left.length + 1) c rest = .ok ⟨(c :: rest).length, none, opened⟩ ∧
      turn line (String.ofList (left ++ c :: rest)) ⟨byteLength left, opened, tokens⟩ =
        some .ends) := by
  cases opened with
  | none =>
    cases h : longest? (c :: rest) with
    | none => exact .inl ⟨_, by simp only [step, h], turn_unmatched line left tokens h⟩
    | some m => exact .inr (.inl (turn_matched line left tokens h))
  | some start =>
    rw [turn_commented]
    cases h : commentLength? (c :: rest) with
    | none => exact .inr (.inr ⟨by simp only [step, h], rfl⟩)
    | some n => exact .inr (.inl ⟨⟨n, none, none⟩, by simp only [step, h], by simp⟩)

end

theorem commentLength?_le {text : List Char} {n : Nat} (h : commentLength? text = some n) :
    n ≤ text.length := by
  induction text generalizing n with
  | nil => cases h
  | cons c rest ih =>
    unfold commentLength? at h
    split at h
    · next heq =>
      cases h
      cases heq
      simp
    · next heq =>
      cases heq
      obtain ⟨k, hk, rfl⟩ := Option.map_eq_some_iff.mp h
      exact Nat.succ_le_succ (ih hk)
    · next heq => cases heq

/-- A step stays on its line. -/
theorem step_le {line : Nat} {opened : Option Nat} {column : Nat} {c : Char} {rest : List Char}
    {s : Step} (h : step line opened column c rest = .ok s) : s.length ≤ (c :: rest).length := by
  unfold step at h
  dsimp only at h
  split at h
  next =>
    split at h
    next => cases h; exact Nat.le_refl _
    next hn => cases h; exact commentLength?_le hn
  next =>
    split at h
    next => cases h
    next hm =>
      have := longest?_le hm
      split at h <;> cases h <;> exact this

/-- From any place between two characters the loop comes to what the scanner makes of the rest of
the line, and it moves at most once for each byte of the rest. -/
theorem exists_scans (line : Nat) (left right : List Char) (opened : Option Nat)
    (tokens : List Token) :
    ∃ n, n ≤ byteLength right ∧
      Scans line (String.ofList (left ++ right)) n ⟨byteLength left, opened, tokens⟩
        ((scanLine line opened (left.length + 1) right).map fun r => (tokens ++ r.1, r.2)) := by
  match right with
  | [] =>
    refine ⟨0, Nat.le_refl _, ?_⟩
    rw [List.append_nil, scanLine]
    change Scans _ _ _ _ (.ok (tokens ++ [], opened))
    rw [List.append_nil tokens]
    exact .ends (turn_end line left tokens opened)
  | c :: rest =>
    rcases turn_cases line left tokens opened c rest with
      ⟨e, hstep, hturn⟩ | ⟨s, hstep, hturn⟩ | ⟨hstep, hturn⟩
    · rw [scanLine_of_error hstep]
      exact ⟨0, Nat.zero_le _, .fails hturn⟩
    · have hpos := step_pos hstep
      have hle := step_le hstep
      have hcut : (c :: rest).take s.length ++ (c :: rest).drop s.length = c :: rest :=
        List.take_append_drop _ _
      have hcovered := byteLength_take_pos hpos c rest
      have hbytes := congrArg byteLength hcut
      rw [byteLength_append] at hbytes
      obtain ⟨n, hn, hscans⟩ := exists_scans line (left ++ (c :: rest).take s.length)
        ((c :: rest).drop s.length) s.opened (tokens ++ s.token.toList)
      rw [List.append_assoc, hcut, byteLength_append, List.length_append,
        List.length_take_of_le hle] at hscans
      refine ⟨n + 1, by omega, .moves hturn ?_⟩
      rw [scanLine_of_step hstep, Nat.add_right_comm]
      cases hrest : scanLine line s.opened (left.length + s.length + 1)
          ((c :: rest).drop s.length) with
      | error e =>
        rw [hrest] at hscans
        exact hscans
      | ok r =>
        rw [hrest] at hscans
        change Scans _ _ _ _ (.ok (tokens ++ (s.token.toList ++ r.1), r.2))
        rw [← List.append_assoc]
        exact hscans
    · rw [scanLine_of_step hstep, List.drop_length, scanLine]
      change ∃ n, _ ∧ Scans _ _ _ _ (.ok (tokens ++ [], opened))
      rw [List.append_nil tokens]
      exact ⟨0, Nat.zero_le _, .ends hturn⟩
termination_by right.length
decreasing_by simp only [List.length_drop, List.length_cons] at hle ⊢; omega

theorem exists_scans_line (line : Nat) (text : String) (opened : Option Nat) :
    ∃ n, n ≤ text.utf8ByteSize ∧
      Scans line text n ⟨0, opened, []⟩ (scanLine line opened 1 text.toList) := by
  obtain ⟨n, hn, hscans⟩ := exists_scans line [] text.toList opened []
  rw [byteLength, String.ofList_toList] at hn
  rw [List.nil_append, String.ofList_toList, List.length_nil, Nat.zero_add] at hscans
  refine ⟨n, hn, ?_⟩
  cases hline : scanLine line opened 1 text.toList with
  | error e => rwa [hline] at hscans
  | ok r => rwa [hline] at hscans

/-- Between two characters a turn cuts no character, and it ends the loop or gets on to a place
between two characters. -/
theorem IsBoundary.exists_turn {line : Nat} {text : String} {p : Place}
    (h : IsBoundary text p.pos) :
    ∃ t, turn line text p = some t ∧
      ∀ q, t = .moves q → p.pos < q.pos ∧ q.pos ≤ text.utf8ByteSize ∧ IsBoundary text q.pos := by
  obtain ⟨pos, opened, tokens⟩ := p
  obtain ⟨left, right, rfl, hleft⟩ := isBoundary_iff.mp h
  obtain rfl : pos = byteLength left := hleft
  cases right with
  | nil =>
    rw [List.append_nil]
    exact ⟨_, turn_end line left tokens opened, fun q hq => by cases hq⟩
  | cons c rest =>
    rcases turn_cases line left tokens opened c rest with
      ⟨e, -, hturn⟩ | ⟨s, hstep, hturn⟩ | ⟨-, hturn⟩
    · exact ⟨_, hturn, fun q hq => by cases hq⟩
    · refine ⟨_, hturn, fun q hq => ?_⟩
      cases hq
      have hcovered := byteLength_take_pos (step_pos hstep) c rest
      have hnext := isBoundary_ofList (left ++ (c :: rest).take s.length)
        ((c :: rest).drop s.length)
      rw [List.append_assoc, List.take_append_drop, byteLength_append] at hnext
      exact ⟨Nat.lt_add_of_pos_right hcovered, hnext.le_byteLength, hnext⟩
    · exact ⟨_, hturn, fun q hq => by cases hq⟩

/-- Counted in bytes, there is a longest match if some rule covers something. No rule covers more,
and its effect is that of the first rule that covers as much; it ends behind a character of the
text, and is the match that the scanner finds. A turn of the loop at a place between two characters
never cuts a text out of range or within a character, and it fails, leaves the loop or moves on to a
later place between two characters of the line. So the loop ends after at most one move for each
byte, with what the scanner makes of the line. -/
theorem scanLine_by_bytes (text : String) :
    (∀ n effect, longestBytes? text.toList = some (n, effect) ↔
      (∃ r ∈ rules, 0 < r.pattern.bytes text.toList) ∧
      (∀ r ∈ rules, r.pattern.bytes text.toList ≤ n) ∧
      (0 < n ∧ n ≤ text.utf8ByteSize ∧ IsBoundary text n) ∧
      ∃ rule, rules.find? (fun r => r.pattern.bytes text.toList = n) = some rule ∧
        rule.effect = effect) ∧
    ((longestBytes? text.toList).isSome ↔ ∃ r ∈ rules, 0 < r.pattern.bytes text.toList) ∧
    longestBytes? text.toList =
      (longest? text.toList).map (fun m => (byteLength (text.toList.take m.length), m.effect)) ∧
    (∀ line p, IsBoundary text p.pos → ∃ t, turn line text p = some t ∧
      ∀ q, t = .moves q → p.pos < q.pos ∧ q.pos ≤ text.utf8ByteSize ∧ IsBoundary text q.pos) ∧
    ∀ line opened, ∃ n, n ≤ text.utf8ByteSize ∧
      Scans line text n ⟨0, opened, []⟩ (scanLine line opened 1 text.toList) := by
  refine ⟨fun n effect => ⟨fun h => ?_, fun ⟨_, hall, ⟨hpos, _⟩, hfirst⟩ => ?_⟩,
    isSome_longestBytes?_iff, longestBytes?_eq text.toList, fun line p h => h.exists_turn,
    fun line opened => exists_scans_line line text opened⟩
  · have hbest := longestBytes?_eq_some_iff.mp h
    obtain ⟨r, hr, hbytes⟩ := hbest.exists_covering
    obtain ⟨hpos, hall, hfirst⟩ := hbest
    have hboundary : IsBoundary text n := hbytes ▸ isBoundary_bytes text r.pattern
    exact ⟨⟨r, hr, hbytes ▸ hpos⟩, hall, ⟨hpos, hboundary.le_byteLength, hboundary⟩, hfirst⟩
  · exact longestBytes?_eq_some_iff.mpr ⟨hpos, hall, hfirst⟩

end UnaryC.Token
