import KernelDispatch.Manifest.Basic
import KernelDispatch.Manifest.Error

/-! Variant declarations expanded to variants. -/
namespace KernelDispatch

namespace ValueSet

def rangeValues (first limit step : UInt32) : List UInt32 :=
  let count := (limit.toNat - first.toNat + (step.toNat - 1)) / step.toNat
  (List.range count).map fun i => UInt32.ofNat (first.toNat + i * step.toNat)

/-- The values of a set, in order. A range has a step. -/
def expand : ValueSet → Except ManifestError (List UInt32)
  | .one n => .ok [n]
  | .list ns => .ok ns
  | .range first limit step =>
    if step = 0 then .error (.zeroStep first limit) else .ok (rangeValues first limit step)

def expandOrOpen : Option ValueSet → Except ManifestError (List UInt32)
  | some vs => vs.expand
  | none => .ok [0]

/-- The values of two parameters that are declared at once or each on its own. The first varies
slowest. -/
def expandPair (both first second : Option ValueSet) (mixed : ManifestError) :
    Except ManifestError (List (UInt32 × UInt32)) := do
  match both with
  | some vs =>
    if first.isSome || second.isSome then throw mixed
    return (← vs.expand).map fun n => (n, n)
  | none =>
    let seconds ← expandOrOpen second
    let firsts ← expandOrOpen first
    return firsts.flatMap fun a => seconds.map fun b => (a, b)

end ValueSet

namespace VariantDecl

/-- All combinations of the declared values: kernels vary slowest, then channels, then strides. -/
def expand (d : VariantDecl) (identity : Identity) : Except ManifestError (List Variant) := do
  let kernels ← ValueSet.expandPair d.kernel d.kernelW d.kernelH .mixedKernel
  let strides ← ValueSet.expandPair d.stride d.strideW d.strideH .mixedStride
  let channels ← ValueSet.expandOrOpen d.channels
  return kernels.flatMap fun (kernelW, kernelH) => channels.flatMap fun channels =>
    strides.map fun (strideW, strideH) =>
      { identity, kernelW, kernelH, channels, strideW, strideH, padding := d.padding,
        core := d.core.names }

end VariantDecl
end KernelDispatch
