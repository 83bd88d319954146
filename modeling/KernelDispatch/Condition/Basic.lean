import KernelDispatch.Tag

/-! Conditions on the runtime parameters, as trees of comparisons. -/
namespace KernelDispatch

/-- The padding of the four sides of a feature map. -/
structure Margins where
  top : UInt32
  bottom : UInt32
  left : UInt32
  right : UInt32
  deriving DecidableEq, Repr

def Margins.get (m : Margins) : Side → UInt32
  | .top => m.top
  | .bottom => m.bottom
  | .left => m.left
  | .right => m.right

def Margins.zero : Margins := ⟨0, 0, 0, 0⟩

structure Runtime where
  strideW : UInt32
  strideH : UInt32
  kernelW : UInt32
  kernelH : UInt32
  channels : UInt32
  padding : Margins
  deriving DecidableEq, Repr

def Runtime.value (r : Runtime) : Field → UInt32
  | .strideW => r.strideW
  | .strideH => r.strideH
  | .kernelW => r.kernelW
  | .kernelH => r.kernelH
  | .channels => r.channels

/-- A runtime value that a wrapper reads. -/
inductive Operand where
  | field (f : Field)
  | padding (s : Side)
  deriving DecidableEq, Repr

namespace Operand

def all : List Operand := Field.all.map .field ++ Side.all.map .padding

/-- The wrapper variable that holds the value. -/
def word : Operand → String
  | .field f => f.word
  | .padding s => s.word

def value (r : Runtime) : Operand → UInt32
  | .field f => r.value f
  | .padding s => r.padding.get s

end Operand

inductive Relation where
  | eq
  | le
  deriving DecidableEq, Repr

namespace Relation

def word : Relation → String
  | .eq => "=="
  | .le => "<="

def holds : Relation → UInt32 → UInt32 → Bool
  | .eq, a, b => a == b
  | .le, a, b => a ≤ b

end Relation

structure Comparison where
  operand : Operand
  relation : Relation
  limit : UInt32
  deriving DecidableEq, Repr

def Comparison.eval (c : Comparison) (r : Runtime) : Bool :=
  c.relation.holds (c.operand.value r) c.limit

inductive Condition where
  | always
  | compare (c : Comparison)
  | all (terms : List Condition)
  deriving Repr

namespace Condition

def eq (o : Operand) (n : UInt32) : Condition := .compare ⟨o, .eq, n⟩

def le (o : Operand) (n : UInt32) : Condition := .compare ⟨o, .le, n⟩

mutual
def eval (r : Runtime) : Condition → Bool
  | .always => true
  | .compare c => c.eval r
  | .all terms => evalAll r terms

def evalAll (r : Runtime) : List Condition → Bool
  | [] => true
  | t :: ts => eval r t && evalAll r ts
end

mutual
/-- A condition is a tautology by its form if no comparison occurs in it. -/
def isAlways : Condition → Bool
  | .always => true
  | .compare _ => false
  | .all terms => areAlways terms

def areAlways : List Condition → Bool
  | [] => true
  | t :: ts => isAlways t && areAlways ts
end

mutual
/-- The comparisons of a condition in the order in which they are written. -/
def comparisons : Condition → List Comparison
  | .always => []
  | .compare c => [c]
  | .all terms => comparisonsAll terms

def comparisonsAll : List Condition → List Comparison
  | [] => []
  | t :: ts => comparisons t ++ comparisonsAll ts
end

@[simp] theorem evalAll_eq (r : Runtime) (ts : List Condition) :
    evalAll r ts = ts.all (eval r) := by
  induction ts with
  | nil => rfl
  | cons t ts ih => rw [evalAll, ih, List.all_cons]

@[simp] theorem areAlways_eq (ts : List Condition) : areAlways ts = ts.all isAlways := by
  induction ts with
  | nil => rfl
  | cons t ts ih => rw [areAlways, ih, List.all_cons]

/-- The conjunction of some conditions without the tautologies among them. A single term that is
left stands alone. -/
def conj (parts : List Condition) : Condition :=
  match parts.filter fun c => !c.isAlways with
  | [] => .always
  | [c] => c
  | terms => .all terms

/-- The relation and the limit of every comparison, in order. -/
def bounds (c : Condition) : List (Relation × UInt32) :=
  c.comparisons.map fun cmp => (cmp.relation, cmp.limit)

/-- The values that a condition reads, in the order of their first use. -/
def operands (c : Condition) : List Operand := (c.comparisons.map Comparison.operand).eraseDups

end Condition
end KernelDispatch
