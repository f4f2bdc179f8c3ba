/-!
Terms: constructors applied to arguments, written on one line or laid out over several.

On one line a term reads `Move(1, Slot)` or `Pair { left: 1, right: 2 }`. Laid out, each argument,
field and list item stands on a line of its own, four spaces deeper and followed by a comma.
-/
namespace UnaryC.Text

inductive Term where
  /-- A bare word, number or quoted text. -/
  | atom (text : String)
  /-- A constructor with unnamed arguments. -/
  | apply (name : String) (args : List Term)
  /-- A constructor with named fields. -/
  | record (name : String) (fields : List (String × Term))
  | list (items : List Term)

namespace Term

def indent (depth : Nat) : String :=
  String.ofList (List.replicate (4 * depth) ' ')

mutual

/-- The term on one line. -/
def inline : Term → String
  | .atom text => text
  | .apply name args => name ++ "(" ++ ", ".intercalate (inlineAll args) ++ ")"
  | .record name fields => name ++ " \x7b " ++ ", ".intercalate (inlineFields fields) ++ " \x7d"
  | .list items => "[" ++ ", ".intercalate (inlineAll items) ++ "]"

def inlineAll : List Term → List String
  | [] => []
  | t :: ts => inline t :: inlineAll ts

def inlineFields : List (String × Term) → List String
  | [] => []
  | (name, t) :: fields => (name ++ ": " ++ inline t) :: inlineFields fields

end

mutual

/-- The term laid out over several lines; `depth` is the level of the line that it starts on. -/
def layout (depth : Nat) : Term → String
  | .atom text => text
  | .apply name args => name ++ "(\n" ++ layoutAll (depth + 1) args ++ indent depth ++ ")"
  | .record name fields =>
    name ++ " \x7b\n" ++ layoutFields (depth + 1) fields ++ indent depth ++ "\x7d"
  | .list [] => "[]"
  | .list (t :: ts) => "[\n" ++ layoutAll (depth + 1) (t :: ts) ++ indent depth ++ "]"

def layoutAll (depth : Nat) : List Term → String
  | [] => ""
  | t :: ts => indent depth ++ layout depth t ++ ",\n" ++ layoutAll depth ts

def layoutFields (depth : Nat) : List (String × Term) → String
  | [] => ""
  | (name, t) :: fields =>
    indent depth ++ name ++ ": " ++ layout depth t ++ ",\n" ++ layoutFields depth fields

end

end Term

end UnaryC.Text
