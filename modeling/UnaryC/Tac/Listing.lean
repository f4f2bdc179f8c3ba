import UnaryC.Tac.Basic

/-! The listing of three-address code: the function's name, then an instruction on each line. -/
namespace UnaryC.Tac

open Text

def Value.text : Value → String
  | constant value => Decimal.ofInt32 value
  | var name => name

def opSign : UnaryOp → String
  | .negate => "-"
  | .complement => "~"

def Instr.listing : Instr → String
  | ret value => "\tReturn(" ++ value.text ++ ")\n"
  | unary op src dest => "\t" ++ dest.text ++ " = " ++ opSign op ++ src.text ++ "\n"

def Program.listing (p : Program) : String :=
  p.name ++ ":\n" ++ String.join (p.code.map Instr.listing)

end UnaryC.Tac
