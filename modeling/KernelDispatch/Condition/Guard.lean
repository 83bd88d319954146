import KernelDispatch.Condition.Basic
import KernelDispatch.Text.Number

/-! Conditions as text between the parentheses of a conditional statement. -/
namespace KernelDispatch

/-- Operands of one kind stay on one line of a broken guard. -/
inductive OperandKind where
  | stride
  | kernel
  | channels
  | padding
  deriving DecidableEq, Repr

def Operand.kind : Operand → OperandKind
  | .field .strideW | .field .strideH => .stride
  | .field .kernelW | .field .kernelH => .kernel
  | .field .channels => .channels
  | .padding _ => .padding

def Comparison.text (c : Comparison) : String :=
  "(" ++ c.operand.word ++ " " ++ c.relation.word ++ " " ++ Text.decimal c.limit ++ ")"

namespace Condition

/-- The comparisons of a condition on one line, `(1)` if there are none. -/
def text (c : Condition) : String :=
  match c.comparisons with
  | [] => "(1)"
  | cs => " && ".intercalate (cs.map Comparison.text)

/-- The condition as it follows `if`: several comparisons have parentheses around them. -/
def guardText (c : Condition) : String :=
  if c.comparisons.length > 1 then "(" ++ c.text ++ ")" else c.text

/-- What follows a comparison in a guard that is broken between operands of different kinds. -/
def brokenAfter (indent : String) : Comparison → List Comparison → String
  | _, [] => ""
  | last, c :: cs =>
    (if last.operand.kind = c.operand.kind then " && " else " &&\n" ++ indent) ++ c.text
      ++ brokenAfter indent c cs

/-- The guard with a line break before each new kind of operand. -/
def brokenGuardText (indent : String) (c : Condition) : String :=
  match c.comparisons with
  | first :: second :: rest =>
    "(" ++ first.text ++ brokenAfter indent first (second :: rest) ++ ")"
  | _ => c.guardText

end Condition
end KernelDispatch
