import KernelDispatch.Condition.Guard
import KernelDispatch.Journal
import KernelDispatch.Plan.Node
import KernelDispatch.Plan.Partition
import KernelDispatch.Variant.Symbol

/-! Flat chains: the first variant whose full condition holds is called. -/
namespace KernelDispatch.Flat

/-- Variants in the order in which the branches of a tree meet them. -/
def order : List Param → List Variant → List Variant
  | [], vs => vs
  | p :: rest, vs => (partition p vs).flatMap fun g => order rest g.members

/-- The candidates of a chain: every variant but the generic ones, in order. -/
def candidates (hierarchy : List Param) (variants : List Variant) : List Variant :=
  (order hierarchy variants).filter fun v => !v.generic

/-- Whether a variant fits some calls only, and so becomes an arm. -/
def isConditional (v : Variant) : Bool := !v.condition.isAlways

/-- What ends a chain: the first candidate that fits every call, or else the default. -/
def ending (default : Variant) (candidates : List Variant) : Variant :=
  (candidates.find? fun v => !isConditional v).getD default

/-- The candidates after the first that fits every call, reported with that one. -/
def finding (candidates : List Variant) : Option Finding :=
  match candidates.dropWhile isConditional with
  | v :: hidden :: others => some (.unreachable v.symbol ((hidden :: others).map Variant.symbol))
  | _ => none

def node (default : Variant) (candidates : List Variant) : Node :=
  .chain (.ofList
    ((candidates.takeWhile isConditional).map fun v => (v.condition, .call v))
    (.call (ending default candidates)))

/-- What is reported on the arms and the end of a chain. -/
def entries (candidates : List Variant) : List Entry :=
  ((candidates.takeWhile isConditional).map fun v =>
    ⟨.detail, v.symbol ++ " <- " ++ v.condition.text⟩)
    ++ (finding candidates).toList.map fun f => ⟨.warning, f.message⟩

/-- A single chain over the full conditions of the variants, which ends in the default. -/
def plan (variants : List Variant) (hierarchy : List Param) (default : Variant) :
    Reported ConfigError Plan :=
  let chosen := candidates hierarchy variants
  ⟨entries chosen, .ok ⟨node default chosen, (finding chosen).toList⟩⟩

end KernelDispatch.Flat
