import UnaryC.Tac.Basic
import UnaryC.Tree.Eval

/-! Running three-address code on a valuation of the variables. -/
namespace UnaryC.Tac

/-- The contents of all variables. -/
abbrev Valuation := String → Int32

def Valuation.set (vars : Valuation) (name : String) (v : Int32) : Valuation :=
  fun x => if x = name then v else vars x

@[simp] theorem Valuation.set_same (vars : Valuation) (name : String) (v : Int32) :
    vars.set name v name = v := by
  simp [set]

@[simp] theorem Valuation.set_of_ne (vars : Valuation) {name x : String} (v : Int32)
    (h : x ≠ name) : vars.set name v x = vars x := by
  simp [set, h]

def Value.read (vars : Valuation) : Value → Int32
  | constant value => value
  | var name => vars name

/-- How a run ends, with the variables at that point. A constant cannot be written, so an
instruction that tries gets stuck. -/
inductive Ending where
  | returned (value : Int32) (vars : Valuation)
  | ranOff (vars : Valuation)
  | stuck (vars : Valuation)

def run (vars : Valuation) : List Instr → Ending
  | [] => .ranOff vars
  | .ret value :: _ => .returned (value.read vars) vars
  | .unary op src (.var dest) :: code => run (vars.set dest (op.apply (src.read vars))) code
  | .unary _ _ (.constant _) :: _ => .stuck vars

end UnaryC.Tac
