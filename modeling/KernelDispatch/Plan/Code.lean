import KernelDispatch.Condition.Guard
import KernelDispatch.Plan.Node
import KernelDispatch.Text.Lines
import KernelDispatch.Variant.Prototype

/-! The statements that a plan becomes in the body of a wrapper. -/
namespace KernelDispatch

/-- The head of an arm, with the guard broken if the line would be too long. -/
def armHead (indent keyword : String) (c : Condition) : String :=
  let before := indent ++ keyword
  let guard :=
    if before.utf8ByteSize + c.guardText.utf8ByteSize + 2 > maxLineBytes then
      c.brokenGuardText (indent ++ Text.step ++ Text.step)
    else c.guardText
  before ++ guard ++ " \x7b\n"

mutual
/-- The statements of a plan. The diagnostic form returns the name of the chosen variant instead of
the result of its call. -/
def Node.code (diagnostic : Bool) (indent : String) : Node → String
  | .call v => indent ++ "return " ++ Text.hang indent (v.answer diagnostic) ++ "\n"
  | .chain arms => arms.code diagnostic indent

def Arms.code (diagnostic : Bool) (indent : String) : Arms → String
  | .otherwise n => n.code diagnostic indent
  | .arm c n rest =>
    armHead indent "if " c ++ n.code diagnostic (indent ++ Text.step)
      ++ rest.elseCode diagnostic indent

/-- The statements of the arms that follow another one. -/
def Arms.elseCode (diagnostic : Bool) (indent : String) : Arms → String
  | .otherwise n =>
    indent ++ "\x7d else \x7b\n" ++ n.code diagnostic (indent ++ Text.step) ++ indent ++ "\x7d\n"
  | .arm c n rest =>
    armHead indent "\x7d else if " c ++ n.code diagnostic (indent ++ Text.step)
      ++ rest.elseCode diagnostic indent
end

def Plan.code (p : Plan) (diagnostic : Bool) : String := p.root.code diagnostic Text.step

end KernelDispatch
