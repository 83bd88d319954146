import KernelDispatch.Journal
import KernelDispatch.Plan.Node
import KernelDispatch.Plan.Partition
import KernelDispatch.Variant.Symbol

/-! Decision trees: one level of conditions for each parameter of a hierarchy. -/
namespace KernelDispatch

/-- Whether a group puts no condition on the padding, so that only its first member is kept. -/
def Group.keepsFirst (p : Param) (g : Group) : Bool := p == .padding && g.key.isWildcard

/-- The members of a group that the levels below see. -/
def Group.kept (p : Param) (g : Group) : List Variant :=
  if g.keepsFirst p then g.members.take 1 else g.members

/-- The members of a group that no call reaches. -/
def Group.shadowed (p : Param) (g : Group) : List Variant :=
  if g.keepsFirst p then g.members.drop 1 else []

namespace Tree

/-- The plan for some variants under a hierarchy. The group of the wildcard becomes the last branch
of its level. A level without one, and a leaf without variants, end in the default. -/
def node (default : Variant) : List Param → List Variant → Node
  | [], vs => .call (vs.headD default)
  | p :: rest, vs =>
    let groups := partition p vs
    let arms := (groups.filter fun g => !g.key.isWildcard).map fun g =>
      (g.key.condition p, node default rest (g.kept p))
    let last := (groups.find? fun g => g.key.isWildcard).map fun g => node default rest (g.kept p)
    .chain (.ofList arms (last.getD (.call default)))

/-- What is met on a walk through a tree: the variants left at its leaves, and the variants that an
ambiguous group hides. -/
inductive Stop where
  | leaf (path : List String) (variants : List Variant)
  | ambiguous (path : List String) (kept : Variant) (shadowed : List Variant)

/-- The stops of the walk through the tree below `path`, in the order of the branches. -/
def stops : List String → List Param → List Variant → List Stop
  | path, [], vs => [.leaf path vs]
  | path, p :: rest, vs =>
    (partition p vs).flatMap fun g =>
      let here := path ++ [g.key.label p]
      (match g.kept p, g.shadowed p with
        | kept :: _, hidden :: others => [Stop.ambiguous here kept (hidden :: others)]
        | _, _ => [])
        ++ stops here rest (g.kept p)

def pathText : List String → String
  | [] => "<root>"
  | labels => "/".intercalate labels

/-- What a stop adds to the findings. Two variants that are left at one leaf are an error. -/
def Stop.inspect : Stop → Reported ConfigError (List Finding)
  | .leaf _ [] => pure []
  | .leaf path [v] => do
    Reported.report .detail (pathText path ++ " -> " ++ v.symbol)
    return []
  | .leaf path vs =>
    Reported.ofExcept (.error (.unresolvedPartition (pathText path) (vs.map Variant.symbol)))
  | .ambiguous path kept shadowed => do
    let finding := Finding.ambiguousPadding (pathText path) kept.symbol (shadowed.map Variant.symbol)
    Reported.report .warning finding.message
    return [finding]

/-- The findings of some stops, up to the first that is an error. -/
def inspectAll : List Stop → Reported ConfigError (List Finding)
  | [] => pure []
  | s :: rest => do return (← s.inspect) ++ (← inspectAll rest)

/-- Nests some variants into one level of conditions for each parameter of the hierarchy. -/
def plan (variants : List Variant) (hierarchy : List Param) (default : Variant) :
    Reported ConfigError Plan := do
  let findings ← inspectAll (stops [] hierarchy variants)
  return ⟨node default hierarchy variants, findings⟩

end Tree
end KernelDispatch
