import KernelDispatch.Proofs.Matching
import Mathlib

/-! The padding that a kernel implies. It is a constant in the bodies of some variants and a limit in
the tests of wrappers, and both come from the same halves of the kernel. -/
namespace KernelDispatch

/-- The two halves of a side of a kernel make up all of it but the middle, and the odd pixel is in
the second. -/
theorem halves_of_pos {n : UInt32} (hn : 0 < n) :
    ((n - 1) / 2).toNat + (n / 2).toNat = n.toNat - 1 ∧
      ((n / 2).toNat = ((n - 1) / 2).toNat ∨ (n / 2).toNat = ((n - 1) / 2).toNat + 1) := by
  have hpos : 0 < n.toNat := hn
  have hpred : (n - 1).toNat = n.toNat - 1 := UInt32.toNat_sub_of_le n 1 hn
  rw [UInt32.toNat_div, UInt32.toNat_div, hpred]
  change (n.toNat - 1) / 2 + n.toNat / 2 = _ ∧
    (n.toNat / 2 = (n.toNat - 1) / 2 ∨ n.toNat / 2 = (n.toNat - 1) / 2 + 1)
  omega

theorem half_eq_zero_iff {n : UInt32} (hn : 0 < n) : n / 2 = 0 ↔ n = 1 := by
  have hpos : 0 < n.toNat := hn
  rw [← UInt32.toNat_inj, ← UInt32.toNat_inj, UInt32.toNat_div]
  change n.toNat / 2 = 0 ↔ n.toNat = 1
  omega

/-- The difference of two words, unless it is below zero. -/
def difference? (a b : UInt32) : Option UInt32 := if b ≤ a then some (a - b) else none

namespace Variant

theorem hasFixedKernel_iff (v : Variant) :
    v.hasFixedKernel = true ↔ 0 < v.kernelW ∧ 0 < v.kernelH := by
  simp [hasFixedKernel]

theorem hasUnitStride_iff (v : Variant) :
    v.hasUnitStride = true ↔ v.strideW = 1 ∧ v.strideH = 1 := by
  simp [hasUnitStride]

/-- A fixed kernel implies no padding exactly if it is a single pixel. -/
theorem kernelMargins_eq_zero_iff {v : Variant} (h : v.hasFixedKernel = true) :
    v.kernelMargins = .zero ↔ v.kernelW = 1 ∧ v.kernelH = 1 := by
  obtain ⟨hw, hh⟩ := v.hasFixedKernel_iff.mp h
  constructor
  · intro hmargins
    have hbottom : v.kernelH / 2 = 0 := congrArg Margins.bottom hmargins
    have hright : v.kernelW / 2 = 0 := congrArg Margins.right hmargins
    exact ⟨(half_eq_zero_iff hw).mp hright, (half_eq_zero_iff hh).mp hbottom⟩
  · rintro ⟨hkw, hkh⟩
    rw [kernelMargins, hkw, hkh]
    rfl

/-- A kernel of a single pixel is one that is fixed and implies no padding. -/
theorem singlePixel_iff (v : Variant) : v.kernelW = 1 ∧ v.kernelH = 1 ↔
    v.hasFixedKernel = true ∧ v.kernelMargins = .zero := by
  constructor
  · rintro ⟨hw, hh⟩
    have hfixed : v.hasFixedKernel = true := by simp [hasFixedKernel, hw, hh]
    exact ⟨hfixed, (kernelMargins_eq_zero_iff hfixed).mpr ⟨hw, hh⟩⟩
  · rintro ⟨hfixed, hmargins⟩
    exact (kernelMargins_eq_zero_iff hfixed).mp hmargins

theorem paddingTest_of_noPad {v : Variant} (h : v.padding = .noPad) :
    v.paddingTest = .exact .zero := by
  rw [paddingTest, h]

theorem paddingTest_of_any {v : Variant} (h : v.padding = .any) : v.paddingTest = .any := by
  rw [paddingTest, h]

/-- What a variant that is restricted to the padding of its kernel tests for. -/
theorem paddingTest_of_fixedKernel {v : Variant} (h : v.padding = .krnPad)
    (hkernel : v.hasFixedKernel = true) :
    v.paddingTest = if v.hasUnitStride then .exact v.kernelMargins else .atMost v.kernelMargins := by
  rw [paddingTest, h]
  simp [hkernel]

/-- A variant tests nothing if it asks for nothing, or for the padding of a kernel that is open. -/
theorem paddingTest_eq_any_iff_open {v : Variant} :
    v.paddingTest = .any ↔ v.padding = .any ∨ v.padding = .krnPad ∧ v.hasFixedKernel = false := by
  unfold paddingTest
  cases v.padding with
  | any => simp
  | noPad => simp
  | krnPad => cases v.hasFixedKernel <;> cases v.hasUnitStride <;> simp

theorem paddingTest_eq_exact_iff {v : Variant} {m : Margins} :
    v.paddingTest = .exact m ↔ v.padding = .noPad ∧ m = .zero ∨
      v.padding = .krnPad ∧ v.hasFixedKernel = true ∧ v.hasUnitStride = true ∧
        m = v.kernelMargins := by
  unfold paddingTest
  cases v.padding with
  | any => simp
  | noPad => simp [eq_comm (a := m)]
  | krnPad => cases v.hasFixedKernel <;> cases v.hasUnitStride <;> simp [eq_comm (a := m)]

theorem paddingTest_eq_atMost_iff {v : Variant} {m : Margins} :
    v.paddingTest = .atMost m ↔ v.padding = .krnPad ∧ v.hasFixedKernel = true ∧
      v.hasUnitStride = false ∧ m = v.kernelMargins := by
  unfold paddingTest
  cases v.padding with
  | any => simp
  | noPad => simp
  | krnPad => cases v.hasFixedKernel <;> cases v.hasUnitStride <;> simp [eq_comm (a := m)]

/-- The upper bounds that a variant puts on the padding come from its kernel. -/
theorem eq_kernelMargins_of_atMost {v : Variant} {m : Margins} (h : v.paddingTest = .atMost m) :
    m = v.kernelMargins :=
  (paddingTest_eq_atMost_iff.mp h).2.2.2

/-- A body has constant padding exactly where the wrapper tests for that padding. -/
theorem fixedPadding_eq_some_iff (v : Variant) (m : Margins) :
    v.fixedPadding = some m ↔ v.paddingTest = .exact m := by
  unfold fixedPadding paddingTest
  cases v.padding with
  | any => simp
  | noPad => simp
  | krnPad =>
    cases v.hasFixedKernel <;> cases v.hasUnitStride <;> simp

/-- Without constant padding a variant tests nothing, or for at most the padding of its kernel. -/
theorem fixedPadding_eq_none_iff (v : Variant) :
    v.fixedPadding = none ↔ v.paddingTest = .any ∨
      v.hasFixedKernel = true ∧ v.paddingTest = .atMost v.kernelMargins := by
  unfold fixedPadding paddingTest
  cases v.padding with
  | any => simp
  | noPad => simp
  | krnPad => cases v.hasFixedKernel <;> cases v.hasUnitStride <;> simp

section Congruence
variable {u v : Variant}

theorem kernelMargins_congr (hw : u.kernelW = v.kernelW) (hh : u.kernelH = v.kernelH) :
    u.kernelMargins = v.kernelMargins := by
  rw [kernelMargins, kernelMargins, hw, hh]

theorem hasFixedKernel_congr (hw : u.kernelW = v.kernelW) (hh : u.kernelH = v.kernelH) :
    u.hasFixedKernel = v.hasFixedKernel := by
  rw [hasFixedKernel, hasFixedKernel, hw, hh]

theorem hasUnitStride_congr (hw : u.strideW = v.strideW) (hh : u.strideH = v.strideH) :
    u.hasUnitStride = v.hasUnitStride := by
  rw [hasUnitStride, hasUnitStride, hw, hh]

theorem paddingTest_congr (h : ∀ f, u.value f = v.value f) (hpadding : u.padding = v.padding) :
    u.paddingTest = v.paddingTest := by
  rw [paddingTest, paddingTest, hpadding, hasFixedKernel_congr (h .kernelW) (h .kernelH),
    hasUnitStride_congr (h .strideW) (h .strideH), kernelMargins_congr (h .kernelW) (h .kernelH)]

end Congruence

/-- The padding that a kernel implies, unless a subtraction in it is below zero. -/
def kernelMargins? (v : Variant) : Option Margins := do
  let h ← difference? v.kernelH 1
  let w ← difference? v.kernelW 1
  return ⟨h / 2, v.kernelH / 2, w / 2, v.kernelW / 2⟩

/-- The padding test of a variant, unless a subtraction in it is below zero. -/
def paddingTest? (v : Variant) : Option PaddingTest :=
  match v.padding with
  | .any => some .any
  | .noPad => some (.exact .zero)
  | .krnPad =>
    if v.hasFixedKernel then
      v.kernelMargins?.map (if v.hasUnitStride then .exact else .atMost)
    else some .any

/-- The constant padding of a body, unless a subtraction in it is below zero. -/
def fixedPadding? (v : Variant) : Option (Option Margins) :=
  match v.padding with
  | .noPad => some (some .zero)
  | .krnPad =>
    if v.hasUnitStride && v.hasFixedKernel then v.kernelMargins?.map some else some none
  | .any => some none

/-- The guard on the kernel is what keeps the subtractions above zero. -/
theorem kernelMargins?_eq (v : Variant) :
    v.kernelMargins? = if v.hasFixedKernel then some v.kernelMargins else none := by
  have hone : ∀ n : UInt32, 1 ≤ n ↔ 0 < n := fun n => Iff.rfl
  unfold kernelMargins? difference? hasFixedKernel
  by_cases hh : 0 < v.kernelH <;> by_cases hw : 0 < v.kernelW <;> simp [hone, hh, hw, kernelMargins]

theorem paddingTest?_eq (v : Variant) : v.paddingTest? = some v.paddingTest := by
  unfold paddingTest? paddingTest
  rw [kernelMargins?_eq]
  cases v.padding with
  | any => rfl
  | noPad => rfl
  | krnPad => cases v.hasFixedKernel <;> cases v.hasUnitStride <;> rfl

theorem fixedPadding?_eq (v : Variant) : v.fixedPadding? = some v.fixedPadding := by
  unfold fixedPadding? fixedPadding
  rw [kernelMargins?_eq]
  cases v.padding with
  | any => rfl
  | noPad => rfl
  | krnPad => cases v.hasFixedKernel <;> cases v.hasUnitStride <;> rfl

/-- The values that the condition on the padding of a kernel compares with. -/
theorem bounds_paddingCondition {v : Variant} (h : v.padding = .krnPad)
    (hkernel : v.hasFixedKernel = true) :
    v.paddingCondition.bounds.map Prod.snd = Side.all.map v.kernelMargins.get := by
  rw [paddingCondition, paddingTest_of_fixedKernel h hkernel]
  cases v.hasUnitStride <;> rfl

theorem exists_padding_ne_iff {v : Variant} (hkernel : v.hasFixedKernel = true)
    (htest : v.paddingTest = .atMost v.kernelMargins) :
    (∃ r q : Runtime, r.padding ≠ q.padding ∧ v.paddingCondition.eval r = true ∧
      v.paddingCondition.eval q = true) ↔ ¬ (v.kernelW = 1 ∧ v.kernelH = 1) := by
  simp only [paddingCondition, PaddingTest.eval_condition, htest]
  rw [← kernelMargins_eq_zero_iff hkernel]
  constructor
  · rintro ⟨r, q, hne, hr, hq⟩ hzero
    rw [hzero, PaddingTest.holds_atMost_zero_iff] at hr hq
    exact hne (hr.trans hq.symm)
  · intro hne
    exact ⟨⟨0, 0, 0, 0, 0, v.kernelMargins⟩, ⟨0, 0, 0, 0, 0, .zero⟩, hne,
      fun s => UInt32.le_refl _, PaddingTest.holds_zero_atMost _⟩

/-- What a body has as constant padding is what the wrapper tests for. No subtraction for either goes
below zero. Without constant padding the wrapper tests nothing, or for at most the padding that the
kernel implies, which is the two halves of the kernel without its middle. -/
theorem fixedPadding_agrees (v : Variant) :
    (v.paddingTest?.map PaddingTest.condition = some v.paddingCondition ∧
      v.fixedPadding? = some v.fixedPadding) ∧
    (∀ m, v.fixedPadding = some m →
      ∀ r : Runtime, v.paddingCondition.eval r = true ↔ r.padding = m) ∧
    (v.fixedPadding = none → (∀ r, v.paddingCondition.eval r = true) ∨
      (∀ r : Runtime, v.paddingCondition.eval r = true ↔
        ∀ s, r.padding.get s ≤ v.kernelMargins.get s) ∧
      ((∃ r q : Runtime, r.padding ≠ q.padding ∧ v.paddingCondition.eval r = true ∧
        v.paddingCondition.eval q = true) ↔ ¬ (v.kernelW = 1 ∧ v.kernelH = 1))) ∧
    (v.padding = .krnPad → 0 < v.kernelW → 0 < v.kernelH →
      ∃ limits : Margins,
        v.paddingCondition.bounds.map Prod.snd = Side.all.map limits.get ∧
        limits.top.toNat + limits.bottom.toNat = v.kernelH.toNat - 1 ∧
        limits.left.toNat + limits.right.toNat = v.kernelW.toNat - 1 ∧
        (limits.bottom.toNat = limits.top.toNat ∨
          limits.bottom.toNat = limits.top.toNat + 1) ∧
        (limits.right.toNat = limits.left.toNat ∨
          limits.right.toNat = limits.left.toNat + 1)) := by
  refine ⟨⟨?_, v.fixedPadding?_eq⟩, fun m hm r => ?_, fun hnone => ?_, fun hpadding hw hh => ?_⟩
  · rw [paddingTest?_eq]
    rfl
  · rw [paddingCondition, PaddingTest.eval_condition, (v.fixedPadding_eq_some_iff m).mp hm]
    rfl
  · rcases v.fixedPadding_eq_none_iff.mp hnone with htest | ⟨hkernel, htest⟩
    · refine .inl fun r => ?_
      rw [paddingCondition, PaddingTest.eval_condition, htest]
      trivial
    · refine .inr ⟨fun r => ?_, exists_padding_ne_iff hkernel htest⟩
      rw [paddingCondition, PaddingTest.eval_condition, htest]
      rfl
  · have hkernel : v.hasFixedKernel = true := v.hasFixedKernel_iff.mpr ⟨hw, hh⟩
    obtain ⟨hheight, hbottom⟩ := halves_of_pos hh
    obtain ⟨hwidth, hright⟩ := halves_of_pos hw
    exact ⟨v.kernelMargins, bounds_paddingCondition hpadding hkernel, hheight, hwidth, hbottom,
      hright⟩

end Variant
end KernelDispatch
