import KernelDispatch.Plan.Dispatch
import KernelDispatch.Proofs.KernelMargins
import KernelDispatch.Proofs.Order
import Mathlib

/-! A flat chain calls a most specific match: the order of its arms refines the order of their
conditions by strength. -/
namespace KernelDispatch

/-- A condition is stronger than one that it implies but that does not imply it. -/
def Condition.IsStronger (c d : Condition) : Prop :=
  (∀ r, c.eval r = true → d.eval r = true) ∧ ¬ ∀ r, d.eval r = true → c.eval r = true

/-- The call with some values and some padding. -/
def Runtime.ofValues (value : Field → UInt32) (padding : Margins) : Runtime :=
  ⟨value .strideW, value .strideH, value .kernelW, value .kernelH, value .channels, padding⟩

@[simp] theorem Runtime.value_ofValues (value : Field → UInt32) (m : Margins) (f : Field) :
    (ofValues value m).value f = value f := by
  cases f <;> rfl

namespace PaddingTest

theorem exists_holds (t : PaddingTest) : ∃ m, t.Holds m := by
  cases t with
  | any => exact ⟨.zero, trivial⟩
  | exact limits => exact ⟨limits, rfl⟩
  | atMost limits => exact ⟨limits, fun s => UInt32.le_refl _⟩

/-- A test that admits fewer paddings than another is tried before it, unless both are upper
bounds. -/
theorem precedes_of_narrower {s t : PaddingTest} (himp : ∀ m, s.Holds m → t.Holds m)
    (hnot : ¬ ∀ m, t.Holds m → s.Holds m)
    (hbounds : ∀ a b, s = .atMost a → t = .atMost b → a = b) : s.Precedes t := by
  cases s with
  | any => exact absurd (fun _ _ => trivial) hnot
  | exact a =>
    have hstage : (exact a).stage ≤ 1 := by
      rw [stage]
      split_ifs <;> omega
    cases t with
    | any => exact .inl (Nat.lt_of_le_of_lt hstage (show 1 < 3 by omega))
    | atMost b => exact .inl (Nat.lt_of_le_of_lt hstage (show 1 < 2 by omega))
    | exact b =>
      have hab : a = b := himp a rfl
      exact absurd (fun m hm => hab ▸ hm) hnot
  | atMost a =>
    cases t with
    | any => exact .inl (show 2 < 3 by omega)
    | atMost b =>
      have hab : a = b := hbounds a b rfl rfl
      exact absurd (fun m hm => hab ▸ hm) hnot
    | exact b =>
      -- both bounds are attained, so the only padding that is left is none
      have hzero : Margins.zero = b := himp .zero (holds_zero_atMost a)
      refine absurd (fun m hm => ?_) hnot
      have hm : m = b := hm
      rw [hm, ← hzero]
      exact holds_zero_atMost a

end PaddingTest

namespace Variant

/-- Every call that one variant fits is one that another fits, exactly if the other fixes no value
that the first leaves open or fixes otherwise, and admits every padding that the first admits. -/
theorem fits_imp_fits_iff (u v : Variant) :
    (∀ r, u.Fits r → v.Fits r) ↔ (∀ f, v.value f ≠ 0 → u.value f = v.value f) ∧
      ∀ m, u.paddingTest.Holds m → v.paddingTest.Holds m := by
  constructor
  · intro h
    -- where `u` leaves a value open, this call has another one than `v` asks for
    let value : Field → UInt32 := fun f => if u.value f = 0 then v.value f + 1 else u.value f
    have hfits : ∀ m, u.paddingTest.Holds m → v.Fits (.ofValues value m) := by
      intro m hm
      refine h _ ⟨fun f hf => ?_, hm⟩
      simp [value, hf]
    constructor
    · intro f hf
      obtain ⟨m, hm⟩ := u.paddingTest.exists_holds
      have hv := (hfits m hm).1 f hf
      rw [Runtime.value_ofValues] at hv
      by_cases hu : u.value f = 0
      · simp [value, hu] at hv
      · simpa [value, hu] using hv.symm
    · intro m hm
      exact (hfits m hm).2
  · rintro ⟨hvalue, hpadding⟩ r ⟨hr, hm⟩
    refine ⟨fun f hf => ?_, hpadding _ hm⟩
    have huv := hvalue f hf
    rw [← huv]
    exact hr f (huv ▸ hf)

theorem isStronger_condition_iff (u v : Variant) :
    u.condition.IsStronger v.condition ↔
      (∀ r, u.Fits r → v.Fits r) ∧ ¬ ∀ r, v.Fits r → u.Fits r := by
  simp only [Condition.IsStronger, eval_condition]

/-- Along levels that test values only, a variant that fixes at least what another does precedes it
or presents the same keys. -/
theorem precedes_or_keys_eq {hierarchy : List Param} (hpadding : .padding ∉ hierarchy)
    {u v : Variant} (h : ∀ f, v.value f ≠ 0 → u.value f = v.value f) :
    u.Precedes hierarchy v ∨ u.keys hierarchy = v.keys hierarchy := by
  induction hierarchy with
  | nil => exact .inr rfl
  | cons p rest ih =>
    rw [List.mem_cons, not_or] at hpadding
    cases p with
    | padding => exact absurd rfl hpadding.1
    | field f =>
      rw [precedes_cons, keys_cons, keys_cons, List.cons.injEq]
      by_cases huv : u.value f = v.value f
      · have hkey : BranchKey.of (.field f) u = BranchKey.of (.field f) v :=
          congrArg BranchKey.value huv
        exact (ih hpadding.2).imp (fun hrest => .inr ⟨hkey, hrest⟩) fun hrest => ⟨hkey, hrest⟩
      · have hv : v.value f = 0 := by
          by_contra hf
          exact huv (h f hf)
        have hu : u.value f ≠ 0 := fun hf => huv (hf.trans hv.symm)
        exact .inl (.inl (by simp [BranchKey.of, BranchKey.before, BranchKey.isWildcard, hu, hv]))

/-- Where the levels test every value and then the padding, a variant with a stronger condition
precedes one with a weaker condition. -/
theorem precedes_of_isStronger {hierarchy : List Param} (hpadding : .padding ∉ hierarchy)
    (hall : ∀ f, .field f ∈ hierarchy) {u v : Variant}
    (h : u.condition.IsStronger v.condition) : u.Precedes (hierarchy ++ [.padding]) v := by
  rw [isStronger_condition_iff, fits_imp_fits_iff, fits_imp_fits_iff] at h
  obtain ⟨⟨hvalue, himp⟩, hnot⟩ := h
  rw [precedes_concat]
  refine (precedes_or_keys_eq hpadding hvalue).imp_right fun hkeys => ⟨hkeys, ?_⟩
  have hsame : ∀ f, u.value f = v.value f := by
    intro f
    have hkey : BranchKey.of (.field f) u = BranchKey.of (.field f) v :=
      List.map_inj_left.mp hkeys _ (hall f)
    exact BranchKey.value.inj hkey
  have hmargins : u.kernelMargins = v.kernelMargins :=
    kernelMargins_congr (hsame .kernelW) (hsame .kernelH)
  rw [BranchKey.of, BranchKey.of, BranchKey.before_padding_iff]
  apply PaddingTest.precedes_of_narrower himp
  · intro hback
    exact hnot ⟨fun f _ => (hsame f).symm, hback⟩
  · intro a b ha hb
    rw [eq_kernelMargins_of_atMost ha, eq_kernelMargins_of_atMost hb, hmargins]

end Variant

/-- A hierarchy that tests the padding does so at its deepest level. -/
theorem exists_eq_concat_padding {hierarchy : List Param}
    (h : requireHierarchy hierarchy = .ok ()) (hp : .padding ∈ hierarchy) :
    ∃ values, hierarchy = values ++ [.padding] ∧ .padding ∉ values := by
  have hnot := (requireHierarchy_eq_ok_iff.mp h).2
  have hsplit := List.dropLast_append_getLast (List.ne_nil_of_mem hp)
  refine ⟨hierarchy.dropLast, ?_, hnot⟩
  rw [← hsplit, List.mem_append] at hp
  have hlast := List.mem_singleton.mp (hp.resolve_left hnot)
  rw [hlast]
  exact hsplit.symm

namespace Flat

/-- No candidate that fits a call precedes the variant that is called. -/
theorem not_precedes_select {hierarchy : List Param} {variants : List Variant} (default : Variant)
    {r : Runtime} {u : Variant} (hu : u ∈ candidates hierarchy variants)
    (hfit : u.condition.eval r = true) :
    ¬ u.Precedes hierarchy ((node default (candidates hierarchy variants)).select r) := by
  have hsorted : (candidates hierarchy variants).Pairwise fun u v => ¬ v.Precedes hierarchy u :=
    (pairwise_order hierarchy variants).filter _
  rw [select_node]
  cases hfind : (candidates hierarchy variants).find? fun v => v.condition.eval r with
  | none => exact absurd hfit (List.find?_eq_none.mp hfind u hu)
  | some v =>
    obtain ⟨-, before, after, hsplit, hbefore⟩ := List.find?_eq_some_iff_append.mp hfind
    rw [hsplit] at hsorted hu
    rcases List.mem_append.mp hu with hu | hu
    · exact absurd hfit (by simpa using hbefore u hu)
    · rcases List.mem_cons.mp hu with rfl | hu
      · exact Variant.not_precedes_self hierarchy u
      · exact (List.pairwise_cons.mp (List.pairwise_append.mp hsorted).2.1).1 u hu

/-- Under a hierarchy of all parameters no candidate that fits a call has a stronger condition than
the variant that a flat plan calls. The plan falls to the default for calls that no candidate
fits. -/
theorem plan_selects_most_specific {hierarchy : List Param}
    (hh : requireHierarchy hierarchy = .ok ()) (hall : ∀ q, q ∈ hierarchy)
    (variants : List Variant) (default : Variant) :
    ∃ p, (plan variants hierarchy default).result = .ok p ∧ ∀ r,
      (∀ u ∈ variants, u.generic = false → u.condition.eval r = true →
        ¬ u.condition.IsStronger (p.select r).condition) ∧
      (p.select r ∈ variants ∧ (p.select r).generic = false ∧
          (p.select r).condition.eval r = true ∨
        p.select r = default ∧
          ∀ u ∈ variants, u.generic = false → u.condition.eval r = false) := by
  obtain ⟨values, rfl, hvalues⟩ := exists_eq_concat_padding hh (hall .padding)
  have hfields : ∀ f, .field f ∈ values := fun f => by simpa using hall (.field f)
  refine ⟨⟨node default (candidates (values ++ [.padding]) variants), _⟩, rfl, fun r => ⟨?_, ?_⟩⟩
  · intro u hu hgeneric hfit hstronger
    exact not_precedes_select default (mem_candidates.mpr ⟨hu, hgeneric⟩) hfit
      (Variant.precedes_of_isStronger hvalues hfields hstronger)
  · rcases select_node_eq_or_mem default (candidates (values ++ [.padding]) variants) r with
      ⟨hfall, hnone⟩ | ⟨hmem, hfits⟩
    · exact .inr ⟨hfall, fun u hu hgeneric => hnone u (mem_candidates.mpr ⟨hu, hgeneric⟩)⟩
    · obtain ⟨hv, hgeneric⟩ := mem_candidates.mp hmem
      exact .inl ⟨hv, hgeneric, hfits⟩

/-- A call without padding fits both variants, and `bounded` is declared first. It is not called,
because its condition is weaker. -/
theorem plan_selects_most_specific_declared_last :
    let identity : Identity := ⟨"krn", .maxPool, .hwc, .fx8, []⟩
    let bounded : Variant :=
      { identity, kernelW := 3, kernelH := 3, strideW := 2, strideH := 2, padding := .krnPad }
    let valid : Variant :=
      { identity, kernelW := 3, kernelH := 3, strideW := 2, strideH := 2, padding := .noPad }
    let r : Runtime := ⟨2, 2, 3, 3, 8, .zero⟩
    requireHierarchy Param.all = .ok () ∧ (∀ q, q ∈ Param.all) ∧ bounded.Fits r ∧
      ∃ p, (plan [bounded, valid] Param.all (.fallback identity [])).result = .ok p ∧
        p.select r ≠ bounded := by
  intro identity bounded valid r
  have hh : requireHierarchy Param.all = .ok () := by decide
  obtain ⟨p, hp, hselect⟩ := plan_selects_most_specific hh Param.mem_all [bounded, valid]
    (.fallback identity [])
  refine ⟨hh, Param.mem_all, by decide, p, hp, fun hbounded => ?_⟩
  have hvalid := (hselect r).1 valid (by simp) rfl ((valid.eval_condition r).mpr (by decide))
  rw [hbounded, Variant.isStronger_condition_iff] at hvalid
  apply hvalid
  constructor
  · refine (Variant.fits_imp_fits_iff valid bounded).mpr ⟨fun f _ => by cases f <;> rfl, ?_⟩
    rintro m rfl
    exact PaddingTest.holds_zero_atMost _
  · intro hback
    have hpadded : valid.Fits ⟨2, 2, 3, 3, 8, ⟨1, 1, 1, 1⟩⟩ := hback _ (by decide)
    exact absurd hpadded (by decide)

end Flat
end KernelDispatch
