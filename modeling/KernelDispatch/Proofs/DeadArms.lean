import KernelDispatch.Proofs.OwnCall
import Mathlib

/-! Which arms of a flat chain are ever taken. Earlier arms hide an arm only where one of them alone
has an equivalent condition. -/
namespace KernelDispatch

/-- Two conditions that hold for the same calls. -/
def Condition.Equivalent (c d : Condition) : Prop := ∀ r, c.eval r = d.eval r

namespace Arms

/-- The place of the arm that a chain takes for a call: the first whose condition holds. A call
without one gets to the end of the chain. -/
def taken (r : Runtime) (arms : Arms) : Option Nat := arms.toList.findIdx? fun a => a.1.eval r

theorem select_eq_taken (r : Runtime) (arms : Arms) :
    arms.select r =
      (((arms.taken r).bind fun i => arms.toList[i]?).elim arms.last Prod.snd).select r := by
  have hfirst := select_ofList arms.toList arms.last r
  rw [ofList_toList, List.find?_eq_bind_findIdx?_getElem?] at hfirst
  rw [hfirst, taken]
  cases (arms.toList.findIdx? fun a => a.1.eval r).bind fun i => arms.toList[i]? <;> rfl

end Arms

namespace Variant
variable {u v : Variant}

theorem equivalent_condition_iff :
    u.condition.Equivalent v.condition ↔ ∀ r, u.Fits r ↔ v.Fits r := by
  refine forall_congr' fun r => ?_
  rw [Bool.eq_iff_iff, eval_condition, eval_condition]

/-- A variant that is restricted to the padding of its kernel admits no padding but none exactly if
its kernel is a single pixel. -/
theorem holds_iff_eq_zero_iff (h : v.padding = .krnPad) :
    (∀ m, v.paddingTest.Holds m ↔ m = .zero) ↔ v.kernelW = 1 ∧ v.kernelH = 1 := by
  rw [singlePixel_iff]
  constructor
  · intro hzero
    cases hkernel : v.hasFixedKernel with
    | false =>
      have hany : v.paddingTest = .any := paddingTest_eq_any_iff_open.mpr (.inr ⟨h, hkernel⟩)
      rw [hany] at hzero
      exact absurd ((hzero .beyond).mp trivial) (by decide)
    | true =>
      refine ⟨rfl, (hzero _).mp ?_⟩
      rw [paddingTest_of_fixedKernel h hkernel]
      split_ifs
      · rfl
      · exact fun s => UInt32.le_refl _
  · rintro ⟨hkernel, hmargins⟩ m
    rw [paddingTest_of_fixedKernel h hkernel, hmargins]
    split_ifs
    · rfl
    · exact PaddingTest.holds_atMost_zero_iff

theorem holds_all_iff (h : v.padding = .krnPad) :
    (∀ m, v.paddingTest.Holds m) ↔ ¬ (0 < v.kernelW ∧ 0 < v.kernelH) := by
  rw [← paddingTest_eq_any_iff, paddingTest_eq_any_iff_open, h, ← hasFixedKernel_iff]
  simp

/-- Variants with the same values have equivalent conditions, apart from those with the same
restriction of the padding, where the kernel of the one restricted to its padding is a single pixel
and the other asks for none, and where that kernel is not fixed and the other asks for nothing. -/
theorem equivalent_condition_iff_padding (hvalue : ∀ f, u.value f = v.value f) :
    u.condition.Equivalent v.condition ↔ u.padding = v.padding ∨
      s(u.padding, v.padding) = s(.noPad, .krnPad) ∧ u.kernelW = 1 ∧ u.kernelH = 1 ∨
      s(u.padding, v.padding) = s(.any, .krnPad) ∧ ¬ (0 < u.kernelW ∧ 0 < u.kernelH) := by
  have hkernelW : u.kernelW = v.kernelW := hvalue .kernelW
  have hkernelH : u.kernelH = v.kernelH := hvalue .kernelH
  have hnone : ¬ ∀ m : Margins, m = .zero := fun h => absurd (h .beyond) (by decide)
  rw [equivalent_condition_iff, fits_iff_fits_iff hvalue]
  by_cases hsame : u.padding = v.padding
  · rw [paddingTest_congr hvalue hsame]
    exact iff_of_true (fun m => Iff.rfl) (.inl hsame)
  · cases hu : u.padding <;> cases hv : v.padding
    case any.any | noPad.noPad | krnPad.krnPad => exact absurd (hu.trans hv.symm) hsame
    case any.noPad => simp [paddingTest_of_any hu, paddingTest_of_noPad hv, hnone]
    case noPad.any => simp [paddingTest_of_noPad hu, paddingTest_of_any hv, hnone]
    case any.krnPad =>
      have hall := holds_all_iff hv
      simp [paddingTest_of_any hu, hkernelW, hkernelH, hall]
    case krnPad.any =>
      have hall := holds_all_iff hu
      simp [paddingTest_of_any hv, hall]
    case noPad.krnPad =>
      have hzero := holds_iff_eq_zero_iff hv
      simp [paddingTest_of_noPad hu, hkernelW, hkernelH, ← hzero, iff_comm]
    case krnPad.noPad =>
      have hzero := holds_iff_eq_zero_iff hu
      simp [paddingTest_of_noPad hv, hzero]

end Variant

namespace Flat

/-- Of variants listed in their order, one is the first that fits some call exactly if none before it
has an equivalent condition. Several of them together hide nothing that none of them hides alone. -/
theorem exists_findIdx?_iff {hierarchy : List Param} (hpadding : .padding ∉ hierarchy)
    (hall : ∀ f, .field f ∈ hierarchy) {vs : List Variant}
    (hsorted : vs.Pairwise fun u v => ¬ v.Precedes (hierarchy ++ [.padding]) u) {i : Nat}
    {v : Variant} (hi : vs[i]? = some v) :
    (∃ r, vs.findIdx? (fun u => u.condition.eval r) = some i) ↔
      ∀ j < i, ∀ u, vs[j]? = some u → ¬ u.condition.Equivalent v.condition := by
  obtain ⟨hlt, hv⟩ := List.getElem?_eq_some_iff.mp hi
  constructor
  · rintro ⟨r, hr⟩ j hj u hu heq
    obtain ⟨_, hfits, hearlier⟩ := List.findIdx?_eq_some_iff_getElem.mp hr
    obtain ⟨_, hu⟩ := List.getElem?_eq_some_iff.mp hu
    refine hearlier j hj ?_
    rw [hu, heq r, ← hv]
    exact hfits
  · intro hnot
    refine ⟨v.ownCall, List.findIdx?_eq_some_iff_getElem.mpr ⟨hlt, ?_, fun j hj hfits => ?_⟩⟩
    · rw [hv, Variant.eval_condition]
      exact v.fits_ownCall
    · have hjlt : j < vs.length := Nat.lt_trans hj hlt
      have horder := List.pairwise_iff_getElem.mp hsorted j i hjlt hlt hj
      rw [hv] at horder
      rw [Variant.eval_condition] at hfits
      exact hnot j hj _ (List.getElem?_eq_getElem hjlt) (Variant.equivalent_condition_iff.mpr
        (Variant.fits_iff_of_fits_ownCall hpadding hall horder hfits))

/-- The variants that become the arms of a chain. -/
def armVariants (hierarchy : List Param) (variants : List Variant) : List Variant :=
  (candidates hierarchy variants).takeWhile isConditional

theorem pairwise_armVariants (hierarchy : List Param) (variants : List Variant) :
    (armVariants hierarchy variants).Pairwise fun u v => ¬ v.Precedes hierarchy u :=
  ((pairwise_order hierarchy variants).filter _).sublist (List.takeWhile_sublist _)

/-- Under a hierarchy of all parameters an arm of a flat chain is taken for some call exactly if no
earlier arm has an equivalent condition. The same goes for the end of the chain where that is a
variant that fits every call. Variants with the same values have equivalent conditions only if they
ask for the same padding, if one asks for that of a single pixel and the other for none, or if one
asks for that of a kernel that is not fixed and the other for nothing. -/
theorem plan_takes_arm_iff {hierarchy : List Param} (hh : requireHierarchy hierarchy = .ok ())
    (hall : ∀ q, q ∈ hierarchy) (variants : List Variant) (default : Variant) :
    ∃ p arms, (plan variants hierarchy default).result = .ok p ∧ p.root = .chain arms ∧
      arms.toList = (armVariants hierarchy variants).map (fun v => (v.condition, .call v)) ∧
      (∀ r, p.select r =
        (((arms.taken r).bind fun i => arms.toList[i]?).elim arms.last Prod.snd).select r) ∧
      (∀ (i : Nat) (a : Condition × Node), arms.toList[i]? = some a →
        ((∃ r, arms.taken r = some i) ↔
          ∀ j < i, ∀ b, arms.toList[j]? = some b → ¬ b.1.Equivalent a.1)) ∧
      (∀ v, arms.last = .call v → (∀ r, v.condition.eval r = true) →
        ((∃ r, arms.taken r = none) ↔
          ∀ b ∈ arms.toList, ¬ b.1.Equivalent v.condition)) ∧
      ∀ u v : Variant, (∀ f, u.value f = v.value f) →
        (u.condition.Equivalent v.condition ↔ u.padding = v.padding ∨
          s(u.padding, v.padding) = s(.noPad, .krnPad) ∧ u.kernelW = 1 ∧ u.kernelH = 1 ∨
          s(u.padding, v.padding) = s(.any, .krnPad) ∧ ¬ (0 < u.kernelW ∧ 0 < u.kernelH)) := by
  obtain ⟨values, rfl, hvalues⟩ := exists_eq_concat_padding hh (hall .padding)
  have hfields : ∀ f, .field f ∈ values := fun f => by simpa using hall (.field f)
  let vs := armVariants (values ++ [.padding]) variants
  let last : Node := .call (ending default (candidates (values ++ [.padding]) variants))
  let arms : Arms := .ofList (vs.map fun v => (v.condition, .call v)) last
  have hlist : arms.toList = vs.map fun v => (v.condition, .call v) := Arms.toList_ofList _ _
  have htaken : ∀ r, arms.taken r = vs.findIdx? fun v => v.condition.eval r := by
    intro r
    rw [Arms.taken, hlist, List.findIdx?_map]
    rfl
  refine ⟨_, arms, rfl, rfl, hlist, fun r => arms.select_eq_taken r, fun i a ha => ?_,
    fun v _ hv => ?_, fun u v => Variant.equivalent_condition_iff_padding⟩
  · rw [hlist, List.getElem?_map, Option.map_eq_some_iff] at ha
    obtain ⟨v, hi, rfl⟩ := ha
    simp only [htaken, hlist, List.getElem?_map, Option.map_eq_some_iff]
    rw [exists_findIdx?_iff hvalues hfields (pairwise_armVariants _ variants) hi]
    exact ⟨fun h j hj b ⟨u, hu, hb⟩ => hb ▸ h j hj u hu, fun h j hj u hu => h j hj _ ⟨u, hu, rfl⟩⟩
  · simp only [htaken, hlist, List.findIdx?_eq_none_iff, List.forall_mem_map]
    constructor
    · rintro ⟨r, hr⟩ u hu heq
      have hfits := heq r
      rw [hr u hu, hv r] at hfits
      exact Bool.noConfusion hfits
    · intro hnot
      refine ⟨.outlying, fun u hu => ?_⟩
      by_contra hfits
      -- only a variant that fits every call fits this one
      rw [Bool.not_eq_false, Variant.eval_condition, Variant.fits_outlying_iff,
        ← Variant.isAlways_condition] at hfits
      exact hnot u hu fun r => (Condition.eval_of_isAlways r hfits).trans (hv r).symm

/-- A single pixel takes no padding, so the variant for no padding hides the one for the padding of
its kernel, which is declared first. The variant that asks for nothing is not hidden by the two. -/
theorem plan_takes_arm_iff_single_pixel :
    let identity : Identity := ⟨"krn", .avePool, .chw, .fx16, []⟩
    let bounded : Variant :=
      { identity, kernelW := 1, kernelH := 1, strideW := 2, strideH := 2, padding := .krnPad }
    let valid : Variant := { bounded with padding := .noPad }
    let any : Variant := { bounded with padding := .any }
    requireHierarchy Param.all = .ok () ∧ (∀ q, q ∈ Param.all) ∧
      ∃ p arms, (plan [any, bounded, valid] Param.all (.fallback identity [])).result = .ok p ∧
        p.root = .chain arms ∧
        arms.toList.map Prod.fst = [valid.condition, bounded.condition, any.condition] ∧
        (∃ r, arms.taken r = some 0) ∧ (∀ r, arms.taken r ≠ some 1) ∧
        ∃ r, arms.taken r = some 2 := by
  intro identity bounded valid any
  have hh : requireHierarchy Param.all = .ok () := by decide
  obtain ⟨p, arms, hp, hroot, harmVariants, -, harms, -, hequivalent⟩ :=
    plan_takes_arm_iff hh Param.mem_all [any, bounded, valid] (.fallback identity [])
  have hlist : arms.toList = [(valid.condition, .call valid), (bounded.condition, .call bounded),
      (any.condition, .call any)] := by
    rw [harmVariants]
    cbv
  have hsame : valid.condition.Equivalent bounded.condition :=
    (hequivalent valid bounded fun f => by cases f <;> rfl).mpr (.inr (.inl ⟨rfl, rfl, rfl⟩))
  have hvalid : ¬ valid.condition.Equivalent any.condition := by
    rw [hequivalent valid any fun f => by cases f <;> rfl]
    decide
  have hbounded : ¬ bounded.condition.Equivalent any.condition := by
    rw [hequivalent bounded any fun f => by cases f <;> rfl]
    decide
  refine ⟨hh, Param.mem_all, p, arms, hp, hroot, by rw [hlist]; rfl, ?_, ?_, ?_⟩
  · refine (harms 0 (valid.condition, .call valid) (by rw [hlist]; rfl)).mpr ?_
    exact fun j hj => absurd hj (Nat.not_lt_zero j)
  · intro r hr
    refine (harms 1 (bounded.condition, .call bounded) (by rw [hlist]; rfl)).mp ⟨r, hr⟩ 0 (by decide)
      (valid.condition, .call valid) (by rw [hlist]; rfl) hsame
  · refine (harms 2 (any.condition, .call any) (by rw [hlist]; rfl)).mpr fun j hj b hb => ?_
    rw [hlist] at hb
    obtain rfl | rfl : j = 0 ∨ j = 1 := by omega
    · obtain rfl := Option.some.inj hb
      exact hvalid
    · obtain rfl := Option.some.inj hb
      exact hbounded

end Flat
end KernelDispatch
