import KernelDispatch.Proofs.OwnCall
import KernelDispatch.Proofs.Separation
import KernelDispatch.Proofs.Symbol
import KernelDispatch.Proofs.TreeRouting
import Mathlib

/-! Which variants of a tree are ever called. A variant that no finding reports as hidden is called
for some call, unless it asks for at most no padding where another one asks for none. -/
namespace KernelDispatch

namespace Variant

/-- A variant for the padding of a kernel of a single pixel, at a stride that does not fix it. It asks
for at most no padding. -/
def IsStridedPixel (v : Variant) : Prop :=
  v.padding = .krnPad ∧ v.kernelW = 1 ∧ v.kernelH = 1 ∧ ¬ (v.strideW = 1 ∧ v.strideH = 1)

theorem paddingTest_eq_atMost_zero_iff {v : Variant} :
    v.paddingTest = .atMost .zero ↔ v.IsStridedPixel := by
  rw [paddingTest_eq_atMost_iff, IsStridedPixel, ← hasUnitStride_iff, Bool.not_eq_true]
  constructor
  · rintro ⟨hpadding, hkernel, hstride, hmargins⟩
    obtain ⟨hw, hh⟩ := v.singlePixel_iff.mpr ⟨hkernel, hmargins.symm⟩
    exact ⟨hpadding, hw, hh, hstride⟩
  · rintro ⟨hpadding, hw, hh, hstride⟩
    obtain ⟨hkernel, hmargins⟩ := v.singlePixel_iff.mp ⟨hw, hh⟩
    exact ⟨hpadding, hkernel, hstride, hmargins.symm⟩

/-- Only a variant for no padding asks for none where the stride does not fix the padding. -/
theorem noPad_of_exact_zero {u v : Variant} (hvalue : ∀ f, u.value f = v.value f)
    (hu : u.paddingTest = .exact .zero) (hv : v.IsStridedPixel) : u.padding = .noPad := by
  rcases paddingTest_eq_exact_iff.mp hu with ⟨hpadding, -⟩ | ⟨-, -, hstride, -⟩
  · exact hpadding
  · rw [hasUnitStride_congr (hvalue .strideW) (hvalue .strideH), hasUnitStride_iff] at hstride
    exact absurd hstride hv.2.2.2

end Variant

/-- A finding reports a variant as hidden if it names it so. -/
def Finding.Shadows (f : Finding) (v : Variant) : Prop :=
  ∃ path kept names, f = .ambiguousPadding path kept names ∧ v.symbol ∈ names

theorem inseparable_concat {hierarchy : List Param} {p : Param} {u v : Variant} :
    Inseparable (hierarchy ++ [p]) u v ↔
      Inseparable hierarchy u v ∧ BranchKey.of p u = BranchKey.of p v := by
  simp only [Inseparable, List.forall_mem_append, List.forall_mem_singleton]

section Narrowing
variable {r : Runtime} {vs : List Variant} {u v : Variant} {values : List Param}

theorem mem_of_mem_narrow {p : Param} (h : v ∈ narrow r vs p) : v ∈ vs := by
  rw [narrow_eq_members] at h
  cases hg : branchOf p vs r with
  | none =>
    rw [hg] at h
    exact absurd h List.not_mem_nil
  | some g =>
    rw [hg] at h
    exact (fitsAt_of_mem_branchOf hg h).1

theorem mem_of_mem_foldl_narrow {hierarchy : List Param} (h : v ∈ hierarchy.foldl (narrow r) vs) :
    v ∈ vs := by
  induction hierarchy generalizing vs with
  | nil => exact h
  | cons p rest ih => exact mem_of_mem_narrow (ih h)

/-- A level that tests a value keeps all variants with the same value as one that it keeps. -/
theorem mem_narrow_field_of_value_eq {f : Field} (huv : u.value f = v.value f) (hu : u ∈ vs)
    (hv : v ∈ narrow r vs (.field f)) : u ∈ narrow r vs (.field f) := by
  unfold narrow at hv ⊢
  dsimp only at hv ⊢
  split_ifs at hv ⊢ <;>
  · rw [List.mem_filter] at hv ⊢
    exact ⟨hu, huv ▸ hv.2⟩

theorem mem_foldl_narrow_of_value_eq (hvalues : .padding ∉ values)
    (huv : ∀ f, u.value f = v.value f) (hu : u ∈ vs) (hv : v ∈ values.foldl (narrow r) vs) :
    u ∈ values.foldl (narrow r) vs := by
  induction values generalizing vs with
  | nil => exact hu
  | cons p rest ih =>
    rw [List.mem_cons, not_or] at hvalues
    cases p with
    | padding => exact absurd rfl hvalues.1
    | field f =>
      exact ih hvalues.2 (mem_narrow_field_of_value_eq (huv f) hu (mem_of_mem_foldl_narrow hv)) hv

/-- What a level that tests the padding keeps passes the test of the call, and nothing else that
passes is tried before. -/
theorem not_precedes_of_mem_narrow_padding (h : v ∈ narrow r vs .padding) :
    v.paddingTest.Holds r.padding ∧
      ∀ u ∈ vs, u.paddingTest.Holds r.padding → ¬ u.paddingTest.Precedes v.paddingTest := by
  unfold narrow at h
  dsimp only at h
  cases hfirst : PaddingTest.first? r.padding (vs.map Variant.paddingTest) with
  | none =>
    rw [hfirst] at h
    exact absurd h List.not_mem_nil
  | some t =>
    rw [hfirst] at h
    obtain rfl : v.paddingTest = t := of_decide_eq_true (List.mem_filter.mp h).2
    unfold PaddingTest.first? at hfirst
    have hpass := List.find?_some hfirst
    obtain ⟨hholds, hnone⟩ := of_decide_eq_true hpass
    exact ⟨hholds, fun u hu => hnone _ (List.mem_map_of_mem hu)⟩

/-- The levels that test values leave of the call made for a variant all variants with its values. -/
theorem foldl_narrow_ownCall (hvalues : .padding ∉ values) (hv : v ∈ vs) :
    values.foldl (narrow v.ownCall) vs = classOf values vs v := by
  induction values generalizing vs with
  | nil => exact (List.filter_eq_self.mpr fun u _ => decide_eq_true nofun).symm
  | cons p rest ih =>
    rw [List.mem_cons, not_or] at hvalues
    cases p with
    | padding => exact absurd rfl hvalues.1
    | field f =>
      have hnarrow : narrow v.ownCall vs (.field f) = vs.filter fun u => u.value f = v.value f := by
        have hfixed : (vs.filter fun u => u.value f = v.value f) ≠ [] :=
          List.ne_nil_of_mem (List.mem_filter.mpr ⟨hv, decide_eq_true rfl⟩)
        simp only [narrow, Variant.ownCall, Runtime.value_ofValues, if_neg hfixed]
      have hmem : v ∈ vs.filter fun u => u.value f = v.value f :=
        List.mem_filter.mpr ⟨hv, decide_eq_true rfl⟩
      rw [List.foldl_cons, hnarrow, ih hvalues.2 hmem, classOf, classOf, List.filter_filter]
      refine List.filter_congr fun u _ => ?_
      simp [inseparable_cons, BranchKey.of, and_comm]

/-- The level that tests the padding leaves of the call made for a variant all variants with its
test, where another one that asks for no padding is not tried first. -/
theorem narrow_padding_ownCall (hv : v ∈ vs) (hvalue : ∀ u ∈ vs, ∀ f, u.value f = v.value f)
    (hfree : ¬ (v.IsStridedPixel ∧ ∃ u ∈ vs, u.padding = .noPad)) :
    narrow v.ownCall vs .padding = vs.filter fun u => u.paddingTest = v.paddingTest := by
  have hfirst : PaddingTest.first? v.ownCall.padding (vs.map Variant.paddingTest) =
      some v.paddingTest := by
    refine PaddingTest.first?_eq_some (List.mem_map_of_mem hv) v.holds_ownMargins ?_
    intro s hs hholds hprecedes
    obtain ⟨u, hu, rfl⟩ := List.mem_map.mp hs
    have hback : ¬ v.paddingTest.Precedes u.paddingTest := by
      rw [← BranchKey.before_padding_iff] at hprecedes ⊢
      simp [BranchKey.not_before_of_before hprecedes]
    rcases Variant.paddingTest_eq_or_of_holds (hvalue u hu) hholds hback with hsame | ⟨hzero, hpixel⟩
    · rw [hsame] at hprecedes hback
      exact hback hprecedes
    · have hpixel := Variant.paddingTest_eq_atMost_zero_iff.mp hpixel
      exact hfree ⟨hpixel, u, hu, Variant.noPad_of_exact_zero (hvalue u hu) hzero hpixel⟩
  simp only [narrow, hfirst]

end Narrowing

namespace Tree

/-- A call reaches a declared variant if the tree calls it whatever the default of the tree is. -/
def Reaches (hierarchy : List Param) (variants : List Variant) (r : Runtime) (v : Variant) : Prop :=
  ∀ default, (node default hierarchy variants).select r = v

section Reached
variable {hierarchy values : List Param} {variants : List Variant} {r : Runtime} {u v : Variant}

theorem reaches_iff (h : .padding ∉ hierarchy.dropLast) :
    Reaches hierarchy variants r v ↔ (hierarchy.foldl (narrow r) variants).head? = some v := by
  simp only [Reaches, select_node h, route]
  cases hierarchy.foldl (narrow r) variants with
  | nil =>
    refine iff_of_false (fun hall => ?_) (Option.some_ne_none v).symm
    have hdebug : (!v.debug) = v.debug := congrArg Variant.debug (hall { v with debug := !v.debug })
    exact Bool.not_ne_self v.debug hdebug
  | cons w rest => exact ⟨fun hall => congrArg some (hall w), fun hw _ => Option.some.inj hw⟩

/-- Unless a call falls to the default, it reaches what it selects. -/
theorem reaches_select_node (h : .padding ∉ hierarchy.dropLast) {default : Variant}
    (hne : (node default hierarchy variants).select r ≠ default) :
    Reaches hierarchy variants r ((node default hierarchy variants).select r) := by
  rw [reaches_iff h]
  rw [select_node h, route] at hne ⊢
  cases hleft : hierarchy.foldl (narrow r) variants with
  | nil => simp [hleft] at hne
  | cons w rest => rfl

/-- The call made for a variant leads to the variants that no level tells apart from it. -/
theorem foldl_narrow_eq_classOf (hvalues : .padding ∉ values) (hall : ∀ f, .field f ∈ values)
    (hv : v ∈ variants) (hfree : ¬ (v.IsStridedPixel ∧
      ∃ u ∈ variants, u.padding = .noPad ∧ ∀ f, u.value f = v.value f)) :
    (values ++ [Param.padding]).foldl (narrow v.ownCall) variants =
      classOf (values ++ [.padding]) variants v := by
  have hvalue : ∀ u ∈ classOf values variants v, ∀ f, u.value f = v.value f := fun u hu f =>
    BranchKey.value.inj ((mem_classOf.mp hu).2 _ (hall f))
  rw [List.foldl_append, foldl_narrow_ownCall hvalues hv, List.foldl_cons, List.foldl_nil,
    narrow_padding_ownCall (mem_classOf.mpr ⟨hv, fun _ _ => rfl⟩) hvalue]
  · rw [classOf, classOf, List.filter_filter]
    refine List.filter_congr fun u _ => ?_
    simp [inseparable_concat, BranchKey.of, Bool.and_comm]
  · rintro ⟨hpixel, u, hu, hpadding⟩
    exact hfree ⟨hpixel, u, (mem_classOf.mp hu).1, hpadding, hvalue u hu⟩

theorem reaches_ownCall (hvalues : .padding ∉ values) (hall : ∀ f, .field f ∈ values)
    (hv : v ∈ variants) (hfirst : (classOf (values ++ [.padding]) variants v).head? = some v)
    (hfree : ¬ (v.IsStridedPixel ∧
      ∃ u ∈ variants, u.padding = .noPad ∧ ∀ f, u.value f = v.value f)) :
    Reaches (values ++ [.padding]) variants v.ownCall v := by
  rw [reaches_iff (by simpa using hvalues), foldl_narrow_eq_classOf hvalues hall hv hfree, hfirst]

/-- A variant for at most no padding is hidden by one for no padding with the same values. -/
theorem not_reaches_of_noPad (hvalues : .padding ∉ values) (hpixel : v.IsStridedPixel)
    (hu : u ∈ variants) (hpadding : u.padding = .noPad) (huv : ∀ f, u.value f = v.value f) :
    ¬ Reaches (values ++ [.padding]) variants r v := by
  rw [reaches_iff (by simpa using hvalues), List.foldl_append, List.foldl_cons, List.foldl_nil]
  intro hhead
  have hv := List.mem_of_head? hhead
  have hleft : v ∈ values.foldl (narrow r) variants := mem_of_mem_narrow hv
  obtain ⟨hholds, hfirst⟩ := not_precedes_of_mem_narrow_padding hv
  have hzero : u.paddingTest = .exact .zero := Variant.paddingTest_of_noPad hpadding
  have hnot := hfirst u (mem_foldl_narrow_of_value_eq hvalues huv hu hleft)
  rw [Variant.paddingTest_eq_atMost_zero_iff.mpr hpixel] at hholds hnot
  rw [hzero] at hnot
  exact hnot (PaddingTest.holds_atMost_zero_iff.mp hholds) (by decide)

end Reached

section Reported
variable {hierarchy : List Param} {variants : List Variant} {default : Variant} {p : Plan}
  {v : Variant}

/-- Of the variants that no level tells apart all but the first declared are reported. -/
theorem head?_classOf_of_not_shadows (h : .padding ∉ hierarchy.dropLast)
    (hp : (plan variants hierarchy default).result = .ok p) (hv : v ∈ variants)
    (hnot : ∀ f ∈ p.findings, ¬ f.Shadows v) : (classOf hierarchy variants v).head? = some v := by
  have hmem : v ∈ classOf hierarchy variants v := mem_classOf.mpr ⟨hv, fun _ _ => rfl⟩
  have hclass : classOf hierarchy variants v ∈ classes hierarchy variants :=
    mem_classes.mpr ⟨v, hv, rfl⟩
  match hc : classOf hierarchy variants v with
  | [] =>
    rw [hc] at hmem
    exact absurd hmem List.not_mem_nil
  | [first] =>
    rw [hc] at hmem
    rw [List.mem_singleton.mp hmem]
    rfl
  | kept :: hidden :: others =>
    rw [hc] at hmem hclass
    rcases List.mem_cons.mp hmem with rfl | hothers
    · rfl
    · refine absurd ⟨_, _, _, rfl, List.mem_map_of_mem hothers⟩
        (hnot (.ambiguousPadding (pathText (kept.path hierarchy)) kept.symbol _) ?_)
      rw [findings_of_result_plan h hp]
      exact List.mem_filterMap.mpr ⟨_, hclass, rfl⟩

/-- Every variant that is reported as hidden asks nothing of the padding. -/
theorem paddingTest_eq_any_of_shadows (h : .padding ∉ hierarchy.dropLast)
    (hp : (plan variants hierarchy default).result = .ok p) {f : Finding} (hf : f ∈ p.findings)
    (hshadows : f.Shadows v) : v.paddingTest = .any := by
  obtain ⟨path, kept, names, rfl, hname⟩ := hshadows
  rw [findings_of_result_plan h hp, List.mem_filterMap] at hf
  obtain ⟨c, hc, hfinding⟩ := hf
  have hresolved := unresolved_eq_none h hp c hc
  match c with
  | [] => exact nomatch hfinding
  | [_] => exact nomatch hfinding
  | first :: second :: others =>
    obtain ⟨-, -, rfl⟩ := Finding.ambiguousPadding.inj (Option.some.inj hfinding)
    obtain ⟨w, hw, hsymbol⟩ := List.mem_map.mp hname
    have hany : admitsEveryPadding hierarchy (first :: second :: others) = true := by
      simpa [unresolved] using hresolved
    rw [admitsEveryPadding, Bool.and_eq_true, List.all_eq_true] at hany
    have htest : w.paddingTest = .any :=
      w.paddingTest.isAlways_condition.mp (hany.2 w (List.mem_cons_of_mem first hw))
    obtain ⟨hvalue, hpadding⟩ := Variant.value_eq_of_symbol_eq hsymbol
    rw [← Variant.paddingTest_congr hvalue hpadding, htest]

theorem not_shadows_of_isStridedPixel (h : .padding ∉ hierarchy.dropLast)
    (hp : (plan variants hierarchy default).result = .ok p) (hpixel : v.IsStridedPixel) :
    ∀ f ∈ p.findings, ¬ f.Shadows v := by
  intro f hf hshadows
  have hany := paddingTest_eq_any_of_shadows h hp hf hshadows
  rw [Variant.paddingTest_eq_atMost_zero_iff.mpr hpixel] at hany
  exact PaddingTest.noConfusion hany

/-- Under a hierarchy of all parameters every variant that no finding reports as hidden is called for
some call, and so is the one that a finding keeps, unless the variant asks for at most the padding of
a single pixel. Such a variant is never reported. It is never called exactly if one with the same
values that asks for no padding is declared. -/
theorem plan_reaches_unreported (hh : requireHierarchy hierarchy = .ok ()) (hall : ∀ q, q ∈ hierarchy)
    (hp : (plan variants hierarchy default).result = .ok p) :
    (∀ v ∈ variants,
      ((∀ f ∈ p.findings, ¬ f.Shadows v) ∨ (classOf hierarchy variants v).head? = some v) →
        ¬ v.IsStridedPixel → ∃ r, Reaches hierarchy variants r v) ∧
    (∀ v ∈ variants, v.IsStridedPixel → (∀ f ∈ p.findings, ¬ f.Shadows v) ∧
      ((∀ r, ¬ Reaches hierarchy variants r v) ↔
        ∃ u ∈ variants, u.padding = .noPad ∧ ∀ f, u.value f = v.value f)) ∧
    ∀ r v, (Reaches hierarchy variants r v → p.select r = v) ∧
      (p.select r = v → v ≠ default → Reaches hierarchy variants r v) := by
  have hdeepest := (requireHierarchy_eq_ok_iff.mp hh).2
  have hselect : ∀ r, p.select r = (node default hierarchy variants).select r := fun r => by
    rw [Plan.select, root_of_plan hp]
  obtain ⟨values, rfl, hvalues⟩ := exists_eq_concat_padding hh (hall .padding)
  have hfields : ∀ f, .field f ∈ values := fun f => by simpa using hall (.field f)
  refine ⟨fun v hv hkept hpixel => ?_, fun v hv hpixel => ?_, ?_⟩
  · have hfirst := hkept.elim (head?_classOf_of_not_shadows hdeepest hp hv) id
    exact ⟨v.ownCall, reaches_ownCall hvalues hfields hv hfirst fun h => hpixel h.1⟩
  · have hunreported := not_shadows_of_isStridedPixel hdeepest hp hpixel
    refine ⟨hunreported, ?_⟩
    constructor
    · intro hnever
      by_contra hfree
      have hfirst := head?_classOf_of_not_shadows hdeepest hp hv hunreported
      exact hnever v.ownCall (reaches_ownCall hvalues hfields hv hfirst fun h => hfree h.2)
    · rintro ⟨u, hu, hpadding, huv⟩ r
      exact not_reaches_of_noPad hvalues hpixel hu hpadding huv
  · intro r v
    refine ⟨fun hreaches => (hselect r).trans (hreaches default), ?_⟩
    rintro rfl hne
    rw [hselect] at hne ⊢
    exact reaches_select_node hdeepest hne

/-- Of two variants for the padding of a single pixel the one at the stride of `unpadded` is never
called, and nothing reports it. The variant that the finding keeps is called. -/
theorem plan_reaches_unreported_single_pixel :
    let identity : Identity := ⟨"krn", .maxPool, .hwc, .sa8, []⟩
    let unpadded : Variant :=
      { identity, kernelW := 1, kernelH := 1, strideW := 2, strideH := 2, padding := .noPad }
    let dead : Variant := { unpadded with padding := .krnPad }
    let strided : Variant := { dead with strideH := 0 }
    let wide : Variant := { identity, kernelW := 3 }
    let widePadded : Variant := { wide with padding := .krnPad }
    let variants : List Variant := [dead, wide, unpadded, widePadded, strided]
    let default : Variant := .fallback identity []
    let p : Plan := ⟨node default Param.all variants,
      [.ambiguousPadding (pathText (wide.path Param.all)) wide.symbol [widePadded.symbol]]⟩
    requireHierarchy Param.all = .ok () ∧ (∀ q, q ∈ Param.all) ∧
      (plan variants Param.all default).result = .ok p ∧
      (∀ f ∈ p.findings, ¬ f.Shadows dead) ∧ (∀ r, ¬ Reaches Param.all variants r dead) ∧
      (∃ r, Reaches Param.all variants r strided) ∧
      (∃ r, Reaches Param.all variants r unpadded) ∧ ∃ r, Reaches Param.all variants r wide := by
  intro identity unpadded dead strided wide widePadded variants default p
  have hh : requireHierarchy Param.all = .ok () := by decide
  have hclasses : classes Param.all variants =
      [[unpadded], [dead], [strided], [wide, widePadded]] := by
    cbv
  have hp : (plan variants Param.all default).result = .ok p := by
    rw [result_plan (by decide), hclasses]
    rfl
  obtain ⟨hcalled, hpixel, -⟩ := plan_reaches_unreported hh Param.mem_all hp
  obtain ⟨hunreported, hnever⟩ := hpixel dead (by simp [variants]) ⟨rfl, rfl, rfl, by decide⟩
  obtain ⟨-, hstrided⟩ := hpixel strided (by simp [variants]) ⟨rfl, rfl, rfl, by decide⟩
  refine ⟨hh, Param.mem_all, hp, hunreported, hnever.mpr ?_, ?_, ?_, ?_⟩
  · exact ⟨unpadded, by simp [variants], rfl, fun f => by cases f <;> rfl⟩
  · have hopen : ∀ u ∈ variants, u.padding = .noPad → u.strideH ≠ 0 := by decide
    by_contra hnone
    obtain ⟨u, hu, hpadding, hvalue⟩ := hstrided.mp (not_exists.mp hnone)
    exact hopen u hu hpadding (hvalue .strideH)
  · refine hcalled unpadded (by simp [variants]) (.inl ?_) fun h => Padding.noConfusion h.1
    rw [List.forall_mem_singleton]
    rintro ⟨path, kept, names, hfinding, hname⟩
    obtain ⟨-, -, rfl⟩ := Finding.ambiguousPadding.inj hfinding
    exact absurd hname (by decide)
  · exact hcalled wide (by simp [variants]) (.inr (by decide)) fun h => Padding.noConfusion h.1

end Reported
end Tree
end KernelDispatch
