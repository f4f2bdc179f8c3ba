/-!
UTF-8 text from bytes that may be damaged. Every longest run of bytes that begins a character and
breaks off, and every byte that can begin none, is read as the replacement character.
-/
namespace UnaryC.Text.Utf8

/-- What the first byte of a character says about the others: how many follow, and the range of the
one directly after it. The range keeps out overlong forms, surrogates and numbers past U+10FFFF. -/
structure Lead where
  /-- The bits of the code point that the first byte carries. -/
  bits : Nat
  following : Nat
  low : UInt8 := 0x80
  high : UInt8 := 0xBF

def lead? (b : UInt8) : Option Lead :=
  if b < 0x80 then some { bits := b.toNat, following := 0 }
  else if b < 0xC2 then none
  else if b < 0xE0 then some { bits := b.toNat - 0xC0, following := 1 }
  else if b = 0xE0 then some { bits := 0, following := 2, low := 0xA0 }
  else if b = 0xED then some { bits := 0xD, following := 2, high := 0x9F }
  else if b < 0xF0 then some { bits := b.toNat - 0xE0, following := 2 }
  else if b = 0xF0 then some { bits := 0, following := 3, low := 0x90 }
  else if b = 0xF4 then some { bits := 4, following := 3, high := 0x8F }
  else if b < 0xF4 then some { bits := b.toNat - 0xF0, following := 3 }
  else none

def isContinuation (b : UInt8) : Bool :=
  0x80 ≤ b && b ≤ 0xBF

/-- The bytes at the head of `bytes` that can go with the first byte. -/
def Lead.rest (l : Lead) (bytes : List UInt8) : List UInt8 :=
  match bytes.take l.following with
  | [] => []
  | b :: bs => if l.low ≤ b && b ≤ l.high then b :: bs.takeWhile isContinuation else []

def Lead.codePoint (l : Lead) (rest : List UInt8) : Nat :=
  rest.foldl (fun n b => n * 64 + (b.toNat - 0x80)) l.bits

/-- The first character of `b :: bytes`, and how many of `bytes` it takes. -/
def first (b : UInt8) (bytes : List UInt8) : Char × Nat :=
  match lead? b with
  | none => ('\uFFFD', 0)
  | some l =>
    let rest := l.rest bytes
    (if rest.length = l.following then Char.ofNat (l.codePoint rest) else '\uFFFD', rest.length)

def decode : List UInt8 → List Char
  | [] => []
  | b :: bytes =>
    let (c, taken) := first b bytes
    c :: decode (bytes.drop taken)
termination_by bytes => bytes.length
decreasing_by simp only [List.length_drop, List.length_cons]; omega

/-- The text of the bytes, with replacement characters where they are damaged. -/
def text (bytes : ByteArray) : String :=
  String.ofList (decode bytes.toList)

end UnaryC.Text.Utf8
