/-!
The lines of a text. A line ends at a line feed, and a carriage return directly before that line
feed belongs to the line's end. What follows the last line feed is a line when it is not empty.
-/
namespace UnaryC.Text

def splitLines : List Char → List (List Char)
  | [] => []
  | '\n' :: rest => [] :: splitLines rest
  | '\r' :: '\n' :: rest => [] :: splitLines rest
  | c :: rest =>
    match splitLines rest with
    | [] => [[c]]
    | line :: lines => (c :: line) :: lines

def lines (text : String) : List String :=
  (splitLines text.toList).map String.ofList

end UnaryC.Text
