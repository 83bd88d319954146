import KernelDispatch.Proofs.Specificity
import Mathlib

/-! A call made for a variant. It has the values and a padding of the variant, and is as hard as can be
to fit for all others. -/
namespace KernelDispatch.Variant

/-- A padding that a variant admits: the limits of its test or, without a test, more padding than any
kernel implies. -/
def ownMargins (v : Variant) : Margins :=
  match v.paddingTest with
  | .any => .beyond
  | .exact m | .atMost m => m

/-- The call with the values of a variant, zero for those that it leaves open. -/
def ownCall (v : Variant) : Runtime := .ofValues v.value v.ownMargins

variable {u v : Variant}

theorem holds_ownMargins (v : Variant) : v.paddingTest.Holds v.ownMargins := by
  unfold ownMargins
  cases v.paddingTest with
  | any => exact trivial
  | exact m => rfl
  | atMost m => exact fun s => UInt32.le_refl _

theorem fits_ownCall (v : Variant) : v.Fits v.ownCall :=
  ⟨fun f _ => (Runtime.value_ofValues v.value v.ownMargins f).symm, v.holds_ownMargins⟩

/-- Among variants with the same values, only one with the same test admits the padding made for a
variant and is not tried after that variant. The one exception is no padding at all, for which the
exact test of one variant and the upper bound of another are tried one after the other. -/
theorem paddingTest_eq_or_of_holds (hvalue : ∀ f, u.value f = v.value f)
    (hholds : u.paddingTest.Holds v.ownMargins) (hnot : ¬ v.paddingTest.Precedes u.paddingTest) :
    u.paddingTest = v.paddingTest ∨
      u.paddingTest = .exact .zero ∧ v.paddingTest = .atMost .zero := by
  cases hv : v.paddingTest with
  | any =>
    rw [ownMargins, hv] at hholds
    exact .inl (paddingTest_eq_any_of_holds hholds)
  | exact m =>
    have hstage : (PaddingTest.exact m).stage ≤ 1 := by
      rw [PaddingTest.stage]
      split_ifs <;> omega
    rw [ownMargins, hv] at hholds
    rw [hv] at hnot
    cases hu : u.paddingTest with
    | any => exact absurd (.inl (hu ▸ Nat.lt_of_le_of_lt hstage (show 1 < 3 by omega))) hnot
    | exact n =>
      rw [hu] at hholds
      exact .inl (congrArg PaddingTest.exact hholds.symm)
    | atMost n => exact absurd (.inl (hu ▸ Nat.lt_of_le_of_lt hstage (show 1 < 2 by omega))) hnot
  | atMost m =>
    obtain ⟨-, -, hstride, hm⟩ := paddingTest_eq_atMost_iff.mp hv
    rw [ownMargins, hv] at hholds
    rw [hv] at hnot
    cases hu : u.paddingTest with
    | any => exact absurd (.inl (hu ▸ (show 2 < 3 by omega))) hnot
    | atMost n =>
      rw [hm, eq_kernelMargins_of_atMost hu, kernelMargins_congr (hvalue .kernelW) (hvalue .kernelH)]
      exact .inl rfl
    | exact n =>
      -- only a variant for no padding has an exact test where the stride is no unit stride
      rw [hu] at hholds
      have hmn : m = n := hholds
      rcases paddingTest_eq_exact_iff.mp hu with ⟨-, hn⟩ | ⟨-, -, hunit, -⟩
      · rw [hmn, hn]
        exact .inr ⟨rfl, rfl⟩
      · rw [hasUnitStride_congr (hvalue .strideW) (hvalue .strideH), hstride] at hunit
        exact Bool.noConfusion hunit

/-- Variants with the same values fit the same calls exactly if they admit the same paddings. -/
theorem fits_iff_fits_iff (hvalue : ∀ f, u.value f = v.value f) :
    (∀ r, u.Fits r ↔ v.Fits r) ↔
      ∀ m, u.paddingTest.Holds m ↔ v.paddingTest.Holds m := by
  have hforth := fits_imp_fits_iff u v
  have hback := fits_imp_fits_iff v u
  simp only [hvalue, implies_true, true_and] at hforth hback
  constructor
  · intro h m
    exact ⟨hforth.mp (fun r => (h r).mp) m, hback.mp (fun r => (h r).mpr) m⟩
  · intro h r
    exact ⟨hforth.mpr (fun m => (h m).mp) r, hback.mpr (fun m => (h m).mpr) r⟩

/-- Where the levels test every value and then the padding, the variants that are met no later than
a variant and fit the call made for it fit the same calls as that variant. -/
theorem fits_iff_of_fits_ownCall {hierarchy : List Param} (hpadding : .padding ∉ hierarchy)
    (hall : ∀ f, .field f ∈ hierarchy) (hnot : ¬ v.Precedes (hierarchy ++ [.padding]) u)
    (hfits : u.Fits v.ownCall) (r : Runtime) : u.Fits r ↔ v.Fits r := by
  obtain ⟨hvalues, hholds⟩ := hfits
  simp only [ownCall, Runtime.value_ofValues] at hvalues
  rw [precedes_concat, not_or, not_and] at hnot
  have hkeys : v.keys hierarchy = u.keys hierarchy :=
    (precedes_or_keys_eq hpadding fun f hf => (hvalues f hf).symm).resolve_left hnot.1
  have hvalue : ∀ f, u.value f = v.value f := fun f =>
    (BranchKey.value.inj (List.map_inj_left.mp hkeys _ (hall f))).symm
  have hlater : ¬ v.paddingTest.Precedes u.paddingTest := by
    rw [← BranchKey.before_padding_iff]
    exact hnot.2 hkeys
  refine (fits_iff_fits_iff hvalue).mpr (fun m => ?_) r
  rcases paddingTest_eq_or_of_holds hvalue hholds hlater with htest | ⟨hu, hv⟩
  · rw [htest]
  · rw [hu, hv]
    exact PaddingTest.holds_atMost_zero_iff.symm

end KernelDispatch.Variant
