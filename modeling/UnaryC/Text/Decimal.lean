/-!
Decimal numerals. A numeral is read with an optional sign in front of one or more digits, so it may
have leading zeros; it is written with a minus sign where needed and no leading zeros.
-/
namespace UnaryC.Text.Decimal

def readNat? (s : List Char) : Option Nat :=
  if s ≠ [] ∧ s.all Char.isDigit then some (Nat.ofDigitChars 10 s 0) else none

/-- At most one sign may stand in front of the digits. -/
def readInt? : List Char → Option Int
  | '+' :: s => (readNat? s).map fun n => (n : Int)
  | '-' :: s => (readNat? s).map fun n => -(n : Int)
  | s => (readNat? s).map fun n => (n : Int)

/-- Refuses a numeral whose value does not fit 32 bits. -/
def readInt32? (s : List Char) : Option Int32 :=
  (readInt? s).bind fun n =>
    if Int32.minValue.toInt ≤ n ∧ n ≤ Int32.maxValue.toInt then some (Int32.ofInt n) else none

def ofNat (n : Nat) : String :=
  n.repr

def ofInt32 (v : Int32) : String :=
  v.toInt.repr

end UnaryC.Text.Decimal
