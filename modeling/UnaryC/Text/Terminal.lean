/-!
Terminal text without what steers the terminal. Control characters go, except for the blank ones,
and so do whole control sequences: those that an escape character introduces, the longer ones behind
`ESC [`, and the strings behind `ESC ]`, `ESC P`, `ESC X`, `ESC ^` and `ESC _`.
-/
namespace UnaryC.Text.Terminal

/-- Where in a control sequence a character stands. -/
inductive Mode where
  /-- In no sequence. -/
  | ground
  /-- Behind the escape character. -/
  | escape
  /-- Behind an intermediate character of a short sequence. -/
  | shortTail
  /-- Behind `ESC [`, up to a final letter. -/
  | control
  /-- In an operating system command, which a bell ends. -/
  | command
  /-- At the start of the head of a device string. -/
  | deviceEntry
  /-- In the parameters of a device string. -/
  | deviceParam
  /-- In the intermediate characters of a device string. -/
  | deviceTail
  /-- In a string that the byte 9C ends. -/
  | string
deriving DecidableEq, Repr

/-- The control characters that are blank: tab, line feed, form feed, carriage return. -/
def isBlankControl (c : Char) : Bool :=
  c == '\t' || c == '\n' || c == '\x0c' || c == '\r'

/-- The characters that show where there is no sequence. -/
def isShown (c : Char) : Bool :=
  isBlankControl c || (0x20 ≤ c.toNat && c.toNat != 0x7F)

/-- Whether the number lies between the bounds, both included. -/
def within (low high n : Nat) : Bool :=
  low ≤ n && n ≤ high

namespace Mode

/-- Blank controls take effect, and so show, in the middle of a sequence, but not of a string. -/
def shows (m : Mode) (c : Char) : Bool :=
  match m with
  | ground => isShown c
  | escape | shortTail | control => isBlankControl c
  | command | deviceEntry | deviceParam | deviceTail | string => false

def afterEscape (c : Char) : Mode :=
  if c = '[' then control
  else if c = ']' then command
  else if c = 'P' then deviceEntry
  else if c = 'X' ∨ c = '^' ∨ c = '_' then string
  else if within 0x20 0x2F c.toNat then shortTail
  else if within 0x30 0x7E c.toNat then ground
  else escape

/-- The mode behind a character of the head of a device string; `stay` is the one it was read in. -/
def inDeviceHead (stay : Mode) (c : Char) : Mode :=
  if within 0x20 0x2F c.toNat then deviceTail
  else if within 0x30 0x3F c.toNat then
    match stay with
    | deviceTail => string
    | deviceParam => if within 0x3C 0x3F c.toNat then string else deviceParam
    | _ => deviceParam
  else if within 0x40 0x7E c.toNat then string
  else stay

/-- The mode behind a character. An escape character starts a sequence anew, and the characters
cancel (18) and substitute (1A) break one off. -/
def next (m : Mode) (c : Char) : Mode :=
  if c = '\x1b' then escape
  else if c = '\x18' ∨ c = '\x1a' then ground
  else
    match m with
    | ground => ground
    | escape => afterEscape c
    | shortTail => if within 0x30 0x7E c.toNat then ground else shortTail
    | control => if within 0x40 0x7E c.toNat then ground else control
    | command => if c = '\x07' then ground else command
    | deviceEntry => inDeviceHead deviceEntry c
    | deviceParam => inDeviceHead deviceParam c
    | deviceTail => inDeviceHead deviceTail c
    | string => if (String.utf8EncodeChar c).contains 0x9C then ground else string

end Mode

/-- Strips the text behind which the mode is `m`. A blank control inside a sequence suspends it:
then all shows up to the next control character, which takes the sequence up again, or up to the
next character beyond ASCII, after which the sequence is forgotten. -/
def stripFrom (m : Mode) (suspended : Bool) : List Char → List Char
  | [] => []
  | c :: rest =>
    if suspended && isShown c then
      c :: stripFrom (if c.toNat < 0x80 then m else .ground) true rest
    else if m.shows c then c :: stripFrom (m.next c) true rest
    else stripFrom (m.next c) false rest

/-- The text without control characters and control sequences. -/
def strip (s : String) : String :=
  String.ofList (stripFrom .ground false s.toList)

end UnaryC.Text.Terminal
