import Mathlib.Algebra.Group.Nat.Defs
import UnaryC.Proofs.LongestMatch

/-!
# What a numeral denotes

A digit counts as many times as its place says. A numeral is digits with at most one sign in front,
and the reader gives the number that it denotes, or nothing if that does not fit.
-/
namespace UnaryC.Text.Decimal

open Lexical (IsDigit IsNumber)

/-- The value of digits by their places, the last of which counts ones. -/
def placeValue : List Char → Nat
  | [] => 0
  | c :: rest => (c.toNat - '0'.toNat) * 10 ^ rest.length + placeValue rest

inductive Denotes : List Char → Int → Prop
  | unsigned {digits : List Char} (h : IsNumber digits) : Denotes digits (placeValue digits)
  | plus {digits : List Char} (h : IsNumber digits) : Denotes ('+' :: digits) (placeValue digits)
  | minus {digits : List Char} (h : IsNumber digits) :
      Denotes ('-' :: digits) (-(placeValue digits : Int))

/-- Reading from the left multiplies what was read before by ten at each digit. -/
theorem ofDigitChars_eq_placeValue (digits : List Char) (init : Nat) :
    Nat.ofDigitChars 10 digits init = init * 10 ^ digits.length + placeValue digits := by
  induction digits generalizing init with
  | nil => simp [placeValue]
  | cons c digits ih =>
    rw [Nat.ofDigitChars_cons, ih, placeValue, List.length_cons, Nat.pow_succ, Nat.add_mul,
      Nat.mul_comm 10 init, Nat.mul_assoc, Nat.mul_comm 10, Nat.add_assoc]

theorem isNumber_iff {s : List Char} : IsNumber s ↔ s ≠ [] ∧ s.all Char.isDigit = true := by
  simp only [IsNumber, List.all_eq_true, Token.isDigit_iff]

theorem readNat?_eq_some_iff {s : List Char} {n : Nat} :
    readNat? s = some n ↔ IsNumber s ∧ n = placeValue s := by
  rw [readNat?, isNumber_iff, Option.ite_none_right_eq_some, Option.some.injEq,
    ofDigitChars_eq_placeValue, Nat.zero_mul, Nat.zero_add, @eq_comm _ n]

theorem sign_not_number {c : Char} (hc : ¬ IsDigit c) (s : List Char) : ¬ IsNumber (c :: s) :=
  fun h => hc (h.2 c List.mem_cons_self)

theorem denotes_plus_iff {s : List Char} {n : Int} :
    Denotes ('+' :: s) n ↔ IsNumber s ∧ n = placeValue s := by
  constructor
  · intro h
    cases h with
    | unsigned h => exact absurd h (sign_not_number (by decide) s)
    | plus h => exact ⟨h, rfl⟩
  · rintro ⟨h, rfl⟩
    exact .plus h

theorem denotes_minus_iff {s : List Char} {n : Int} :
    Denotes ('-' :: s) n ↔ IsNumber s ∧ n = -(placeValue s : Int) := by
  constructor
  · intro h
    cases h with
    | unsigned h => exact absurd h (sign_not_number (by decide) s)
    | minus h => exact ⟨h, rfl⟩
  · rintro ⟨h, rfl⟩
    exact .minus h

theorem denotes_unsigned_iff {s : List Char} {n : Int} (hplus : s.head? ≠ some '+')
    (hminus : s.head? ≠ some '-') : Denotes s n ↔ IsNumber s ∧ n = placeValue s := by
  constructor
  · intro h
    cases h with
    | unsigned h => exact ⟨h, rfl⟩
    | plus h => exact absurd rfl hplus
    | minus h => exact absurd rfl hminus
  · rintro ⟨h, rfl⟩
    exact .unsigned h

/-- Digits without a sign denote their value by places. -/
theorem denotes_iff_of_isNumber {s : List Char} {n : Int} (h : IsNumber s) :
    Denotes s n ↔ n = placeValue s := by
  have hhead : ∀ c : Char, ¬ IsDigit c → s.head? ≠ some c := by
    intro c hc hs
    obtain ⟨s', rfl⟩ := List.head?_eq_some_iff.mp hs
    exact sign_not_number hc s' h
  rw [denotes_unsigned_iff (hhead '+' (by decide)) (hhead '-' (by decide)), and_iff_right h]

theorem map_readNat?_eq_some_iff {s : List Char} {f : Int → Int} {n : Int} :
    (do let a ← readNat? s; pure (a : Int) : Option Int).map f = some n ↔
      IsNumber s ∧ n = f (placeValue s) := by
  simp only [Option.map_eq_some_iff, Option.bind_eq_bind, Option.bind_eq_some_iff,
    readNat?_eq_some_iff, Option.pure_def, Option.some.injEq]
  constructor
  · rintro ⟨_, ⟨_, ⟨h, rfl⟩, rfl⟩, rfl⟩
    exact ⟨h, rfl⟩
  · rintro ⟨h, rfl⟩
    exact ⟨_, ⟨_, ⟨h, rfl⟩, rfl⟩, rfl⟩

theorem readInt?_eq_some_iff {s : List Char} {n : Int} : readInt? s = some n ↔ Denotes s n := by
  unfold readInt?
  split
  next s => rw [map_readNat?_eq_some_iff, denotes_plus_iff]
  next s => rw [map_readNat?_eq_some_iff, denotes_minus_iff]
  next s hplus hminus =>
    rw [map_readNat?_eq_some_iff, denotes_unsigned_iff]
    · intro h
      obtain ⟨s', rfl⟩ := List.head?_eq_some_iff.mp h
      exact hplus s' rfl
    · intro h
      obtain ⟨s', rfl⟩ := List.head?_eq_some_iff.mp h
      exact hminus s' rfl

/-- A numeral is read when what it denotes is the value of a 32-bit word. -/
theorem readInt32?_eq_some_iff {s : List Char} {v : Int32} :
    readInt32? s = some v ↔ Denotes s v.toInt := by
  simp only [readInt32?, Option.bind_eq_some_iff, readInt?_eq_some_iff,
    Option.ite_none_right_eq_some, Option.some.injEq]
  constructor
  · rintro ⟨n, hn, ⟨hlow, hhigh⟩, rfl⟩
    change -2147483648 ≤ n at hlow
    change n ≤ 2147483647 at hhigh
    rwa [Int32.toInt_ofInt_of_le (by omega) (by omega)]
  · intro h
    have hlow := v.le_toInt
    have hhigh := v.toInt_lt
    refine ⟨v.toInt, h, ⟨?_, ?_⟩, v.ofInt_toInt⟩
    · change -2147483648 ≤ v.toInt
      omega
    · change v.toInt ≤ 2147483647
      omega

theorem isNumber_ofNat (n : Nat) : IsNumber (ofNat n).toList := by
  rw [ofNat, Nat.toList_repr]
  refine ⟨Nat.toDigits_ne_nil, fun c hc => Token.isDigit_iff.mp ?_⟩
  exact Nat.isDigit_of_mem_toDigits (by decide) (by decide) hc

/-- What is written as a numeral is read as the same number. -/
theorem placeValue_ofNat (n : Nat) : placeValue (ofNat n).toList = n := by
  have hread := ofDigitChars_eq_placeValue (ofNat n).toList 0
  rw [Nat.zero_mul, Nat.zero_add] at hread
  rw [← hread, ofNat, Nat.toList_repr, Nat.ofDigitChars_ten_toDigits]

theorem ofNat_injective {m n : Nat} (h : ofNat m = ofNat n) : m = n := by
  rw [← placeValue_ofNat m, h, placeValue_ofNat]

theorem not_mem_ofNat {c : Char} (h : ¬ IsDigit c) (n : Nat) : c ∉ (ofNat n).toList :=
  fun hc => h ((isNumber_ofNat n).2 c hc)

/-- A written number has no characters but digits and a sign. -/
theorem mem_ofInt32 {v : Int32} {c : Char} (hc : c ∈ (ofInt32 v).toList) : c = '-' ∨ IsDigit c := by
  have hdigits : ∀ n : Nat, c ∈ n.repr.toList → IsDigit c := fun n => (isNumber_ofNat n).2 c
  rw [ofInt32, Int.repr_eq_if] at hc
  split at hc
  · exact .inr (hdigits _ hc)
  · rw [String.toList_append, List.mem_append] at hc
    rcases hc with hsign | hc
    · exact .inl (List.mem_singleton.mp hsign)
    · exact .inr (hdigits _ hc)

theorem not_mem_ofInt32 {c : Char} (hsign : c ≠ '-') (hdigit : ¬ IsDigit c) (v : Int32) :
    c ∉ (ofInt32 v).toList :=
  fun hc => (mem_ofInt32 hc).elim hsign hdigit

/-- What is written is read back. -/
theorem denotes_ofInt32 (v : Int32) : Denotes (ofInt32 v).toList v.toInt := by
  rw [ofInt32, Int.repr_eq_if]
  split
  next hv =>
    have h := Denotes.unsigned (isNumber_ofNat v.toInt.toNat)
    rwa [placeValue_ofNat, Int.toNat_of_nonneg hv] at h
  next hv =>
    have h := Denotes.minus (isNumber_ofNat (-v.toInt).toNat)
    have hvalue : -((-v.toInt).toNat : Int) = v.toInt := by omega
    rw [placeValue_ofNat, hvalue] at h
    rw [String.toList_append]
    exact h

theorem readInt32?_ofInt32 (v : Int32) : readInt32? (ofInt32 v).toList = some v :=
  readInt32?_eq_some_iff.mpr (denotes_ofInt32 v)

theorem ofInt32_injective {v w : Int32} (h : ofInt32 v = ofInt32 w) : v = w := by
  have hv := readInt32?_ofInt32 v
  rw [h, readInt32?_ofInt32] at hv
  exact (Option.some.inj hv).symm

end UnaryC.Text.Decimal
