import KernelDispatch.Condition.Basic
import KernelDispatch.Error
import KernelDispatch.Variant.Basic

/-! Dispatch plans: trees of conditional chains that end in calls. -/
namespace KernelDispatch

mutual
/-- A plan is the call of a variant or a chain of arms. -/
inductive Node where
  | call (v : Variant)
  | chain (arms : Arms)
  deriving Repr

/-- The arms of a chain, tested in order, and what is left to do when none of them applies. -/
inductive Arms where
  | otherwise (node : Node)
  | arm (condition : Condition) (node : Node) (rest : Arms)
  deriving Repr
end

namespace Arms

def ofList (arms : List (Condition × Node)) (last : Node) : Arms :=
  arms.foldr (fun a rest => .arm a.1 a.2 rest) (.otherwise last)

def toList : Arms → List (Condition × Node)
  | .otherwise _ => []
  | .arm c n rest => (c, n) :: rest.toList

def last : Arms → Node
  | .otherwise n => n
  | .arm _ _ rest => rest.last

@[simp] theorem toList_ofList (arms : List (Condition × Node)) (n : Node) :
    (ofList arms n).toList = arms := by
  induction arms with
  | nil => rfl
  | cons a rest ih => exact congrArg (a :: ·) ih

theorem ofList_toList (a : Arms) : ofList a.toList a.last = a :=
  match a with
  | .otherwise _ => rfl
  | .arm c n rest => congrArg (Arms.arm c n) (ofList_toList rest)

end Arms

mutual
/-- The variant that a plan calls for some runtime parameters. -/
def Node.select (r : Runtime) : Node → Variant
  | .call v => v
  | .chain arms => arms.select r

/-- The variant called by the first arm whose condition holds. -/
def Arms.select (r : Runtime) : Arms → Variant
  | .otherwise n => n.select r
  | .arm c n rest => if c.eval r then n.select r else rest.select r
end

mutual
/-- The variants that a plan can call, in the order in which they are written. -/
def Node.targets : Node → List Variant
  | .call v => [v]
  | .chain arms => arms.targets

def Arms.targets : Arms → List Variant
  | .otherwise n => n.targets
  | .arm _ n rest => n.targets ++ rest.targets
end

mutual
/-- The values that the conditions of a plan read, as often as they are read. -/
def Node.reads : Node → List Operand
  | .call _ => []
  | .chain arms => arms.reads

/-- The values that the conditions of a chain and of the plans in it read. -/
def Arms.reads : Arms → List Operand
  | .otherwise n => n.reads
  | .arm c n rest => c.operands ++ n.reads ++ rest.reads
end

/-- The values that the conditions of a plan read, in the order of their first use. -/
def Node.operands (n : Node) : List Operand := n.reads.eraseDups

/-- A plan and what was found while it was built. -/
structure Plan where
  root : Node
  findings : List Finding
  deriving Repr

/-- The variant that the generated code calls for some runtime parameters. -/
def Plan.select (p : Plan) (r : Runtime) : Variant := p.root.select r

end KernelDispatch
