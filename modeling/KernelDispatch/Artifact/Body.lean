import KernelDispatch.Text.Bindings
import KernelDispatch.Variant.Match
import KernelDispatch.Variant.Prototype

/-! The values that the body of a variant can refer to. -/
namespace KernelDispatch
open Text (decimal)

def coreSlots : List String :=
  ["core_name", "core_name1", "core_name2", "core_name3", "core_name4", "core_name5", "core_name6",
    "core_name7", "core_name8", "core_name9"]

namespace Variant

/-- The core routine at each place, and whether there is one. -/
def coreValues (v : Variant) : List (String × String) :=
  coreSlots.zipIdx.flatMap fun (slot, i) =>
    [(slot, (v.core[i]?).getD ""), ("has_" ++ slot, if (v.core[i]?).isSome then "1" else "0")]

/-- The names that a body can refer to with their values. Padding that is not fixed counts as zero,
and `kernelpadding` tells the two cases apart. -/
def bodyPairs (v : Variant) : List (String × String) :=
  let aliases := v.identity.dataType.aliases
  let margins := v.fixedPadding.getD .zero
  [("name", v.symbol), ("kernel_w", decimal v.kernelW), ("kernel_h", decimal v.kernelH),
    ("channels", decimal v.channels), ("stride_w", decimal v.strideW),
    ("stride_h", decimal v.strideH), ("datatype", v.identity.dataType.word),
    ("d_type", aliases.data), ("w_type", aliases.weights), ("b_type", aliases.bias),
    ("d_enum_type", aliases.element), ("el_params", aliases.params),
    ("kernelpadding", if v.fixedPadding.isSome then "1" else "0"),
    ("padding_top", decimal margins.top), ("padding_bot", decimal margins.bottom),
    ("padding_left", decimal margins.left), ("padding_right", decimal margins.right)]
    ++ v.coreValues

def bodyValues (v : Variant) : Bindings := .ofList v.bodyPairs

theorem nodup_bodyPairs (v : Variant) : (v.bodyPairs.map Prod.fst).Nodup := by
  simp [bodyPairs, coreValues, coreSlots]

theorem get?_bodyValues_field (v : Variant) (f : Field) :
    v.bodyValues.get? f.word = some (decimal (v.value f)) := by
  refine Bindings.get?_ofList v.nodup_bodyPairs ?_
  cases f <;> simp [bodyPairs, Field.word, value]

theorem get?_bodyValues_kernelpadding (v : Variant) :
    v.bodyValues.get? "kernelpadding" = some (if v.fixedPadding.isSome then "1" else "0") :=
  Bindings.get?_ofList v.nodup_bodyPairs (by simp [bodyPairs])

theorem get?_bodyValues_side (v : Variant) (s : Side) :
    v.bodyValues.get? s.word = some (decimal ((v.fixedPadding.getD .zero).get s)) := by
  refine Bindings.get?_ofList v.nodup_bodyPairs ?_
  cases s <;> simp [bodyPairs, Side.word, Margins.get]

end Variant
end KernelDispatch
