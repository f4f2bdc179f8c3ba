import UnaryC.Text.Decimal
import UnaryC.Text.Lines
import UnaryC.Token.Basic

/-!
Listings with a gutter: the rows of a source text, and the rows of its tokens, each behind the
number of its line. The gutter is four characters wide and grows where a number needs more.
-/
namespace UnaryC.Listing

def row (number : Nat) (text : String) : String :=
  String.ofList ((Text.Decimal.ofNat number).toList.leftpad 4 ' ') ++ " | " ++ text ++ "\n"

/-- The lines of a source text. -/
def ofSource (source : String) : String :=
  String.join ((Text.lines source).mapIdx fun i line => row (i + 1) line)

/-- The runs of neighbouring tokens on one line. -/
def runs (tokens : List Token) : List (List Token) :=
  tokens.splitBy fun a b => a.line == b.line

def runText (tokens : List Token) : String :=
  " ".intercalate (tokens.map Token.describe)

/-- One row for each run; a line that is left and entered again has several. -/
def ofTokens (tokens : List Token) : String :=
  String.join ((runs tokens).map fun run => row (run.head?.elim 0 Token.line) (runText run))

end UnaryC.Listing
