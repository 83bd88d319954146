import KernelDispatch.Decimal.Binary64

/-! Json values, as far as their text could be read. -/
namespace KernelDispatch
open Decimal (Binary64)

/-- A value, or the part of one that stands before an error in its text. An array or an object that
is not `closed` breaks off after its last item, and nothing of a `broken` value could be read. -/
inductive Json where
  | null
  | bool (b : Bool)
  | integer (n : Int)
  | decimal (negative : Bool) (magnitude : Binary64)
  | string (s : String)
  | array (items : List Json) (closed : Bool)
  | object (members : List (String × Json)) (closed : Bool)
  | broken
  deriving Repr

namespace Json

mutual
/-- Whether a value was read to its end. -/
def isComplete : Json → Bool
  | .null | .bool _ | .integer _ | .decimal _ _ | .string _ => true
  | .array items closed => closed && areComplete items
  | .object members closed => closed && membersComplete members
  | .broken => false

def areComplete : List Json → Bool
  | [] => true
  | j :: rest => j.isComplete && areComplete rest

def membersComplete : List (String × Json) → Bool
  | [] => true
  | (_, j) :: rest => j.isComplete && membersComplete rest
end

end Json
end KernelDispatch
