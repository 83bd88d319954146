import KernelDispatch.Condition.Basic
import KernelDispatch.Variant.Basic

/-! Which calls a variant fits. -/
namespace KernelDispatch

/-- What a variant asks of the padding of a call. -/
inductive PaddingTest where
  | any
  | exact (m : Margins)
  | atMost (m : Margins)
  deriving DecidableEq, Repr

/-- The condition that states a padding test. -/
def PaddingTest.condition : PaddingTest → Condition
  | .any => .always
  | .exact m => .all (Side.all.map fun s => .eq (.padding s) (m.get s))
  | .atMost m => .all (Side.all.map fun s => .le (.padding s) (m.get s))

namespace Variant

/-- Whether both sides of the kernel are fixed. -/
def hasFixedKernel (v : Variant) : Bool := v.kernelW > 0 && v.kernelH > 0

def hasUnitStride (v : Variant) : Bool := v.strideW == 1 && v.strideH == 1

/-- The padding that keeps the size of a feature map under the kernel of a variant. The odd pixel
of an even kernel is at the bottom and at the right. -/
def kernelMargins (v : Variant) : Margins :=
  ⟨(v.kernelH - 1) / 2, v.kernelH / 2, (v.kernelW - 1) / 2, v.kernelW / 2⟩

/-- At unit stride the padding of a fixed kernel is exact. At other strides it is only an upper
bound, because the kernel size does not determine it. -/
def paddingTest (v : Variant) : PaddingTest :=
  match v.padding with
  | .any => .any
  | .noPad => .exact .zero
  | .krnPad =>
    if v.hasFixedKernel then
      if v.hasUnitStride then .exact v.kernelMargins else .atMost v.kernelMargins
    else .any

def paddingCondition (v : Variant) : Condition := v.paddingTest.condition

/-- Every parameter that a variant fixes: strides, kernel and channels, then the padding. -/
def condition (v : Variant) : Condition :=
  .conj (((Field.all.filter fun f => v.value f ≠ 0).map fun f => .eq (.field f) (v.value f))
    ++ [v.paddingCondition])

/-- The padding that is a constant in the body of a variant. -/
def fixedPadding (v : Variant) : Option Margins :=
  match v.padding with
  | .noPad => some .zero
  | .krnPad => if v.hasUnitStride && v.hasFixedKernel then some v.kernelMargins else none
  | .any => none

end Variant
end KernelDispatch
