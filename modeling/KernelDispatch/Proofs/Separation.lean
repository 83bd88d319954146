import KernelDispatch.Plan.Dispatch
import KernelDispatch.Proofs.Classes
import KernelDispatch.Proofs.KernelMargins

/-! Which variants a hierarchy separates. A tree cannot be built where some variants stay together at
a leaf, unless they ask nothing of the padding that the deepest level tests. -/
namespace KernelDispatch

theorem two_le_length_filter_iff {α : Type} {P : α → Bool} {as : List α} :
    2 ≤ (as.filter P).length ↔
      ∃ i j : Fin as.length, i < j ∧ P (as.get i) = true ∧ P (as.get j) = true := by
  have hsingle : (as.filter P).length ≤ 1 ↔ (as.filter P).Pairwise fun _ _ => False := by
    match as.filter P with
    | [] => simp
    | [_] => simp
    | a :: b :: rest =>
      exact iff_of_false (by simp) fun h => (List.pairwise_cons.mp h).1 b List.mem_cons_self
  rw [← not_iff_not, not_le, Nat.lt_succ_iff, hsingle, List.pairwise_filter,
    List.pairwise_iff_get]
  push Not
  rfl

theorem Variant.isAlways_eq_of_key_eq {u v : Variant}
    (h : BranchKey.of .padding u = BranchKey.of .padding v) :
    u.paddingCondition.isAlways = v.paddingCondition.isAlways := by
  rw [paddingCondition, paddingCondition, BranchKey.padding.inj h]

theorem isSome_unresolved_iff {hierarchy : List Param} {c : List Variant} :
    (unresolved hierarchy c).isSome = true ↔
      2 ≤ c.length ∧ admitsEveryPadding hierarchy c = false := by
  match c with
  | [] => simp [unresolved]
  | [_] => simp [unresolved]
  | first :: second :: others =>
    cases hany : admitsEveryPadding hierarchy (first :: second :: others) <;>
      simp [unresolved, hany]

/-- Some class is unresolved exactly if two of the declared variants are. -/
theorem exists_unresolved_iff (hierarchy : List Param) (variants : List Variant) :
    (∃ c ∈ classes hierarchy variants, (unresolved hierarchy c).isSome = true) ↔
      ∃ i j : Fin variants.length, i < j ∧
        Inseparable hierarchy (variants.get i) (variants.get j) ∧
        ¬ (.padding ∈ hierarchy ∧ (variants.get i).paddingCondition.isAlways = true ∧
          (variants.get j).paddingCondition.isAlways = true) := by
  have hany : ∀ c, admitsEveryPadding hierarchy c = true ↔
      .padding ∈ hierarchy ∧ ∀ v ∈ c, v.paddingCondition.isAlways = true := by
    intro c
    rw [admitsEveryPadding, Bool.and_eq_true, decide_eq_true_iff, List.all_eq_true]
  constructor
  · rintro ⟨c, hc, hsome⟩
    obtain ⟨hlength, hnot⟩ := isSome_unresolved_iff.mp hsome
    obtain ⟨v, -, rfl⟩ := mem_classes.mp hc
    obtain ⟨i, j, hij, hi, hj⟩ := two_le_length_filter_iff.mp hlength
    have hi : Inseparable hierarchy (variants.get i) v := of_decide_eq_true hi
    have hj : Inseparable hierarchy (variants.get j) v := of_decide_eq_true hj
    refine ⟨i, j, hij, fun p hp => (hi p hp).trans (hj p hp).symm, ?_⟩
    rintro ⟨hpadding, halways, -⟩
    rw [Bool.eq_false_iff, ne_eq, hany] at hnot
    refine hnot ⟨hpadding, fun u hu => ?_⟩
    have huv := (mem_classOf.mp hu).2 _ hpadding
    rw [Variant.isAlways_eq_of_key_eq (huv.trans (hi _ hpadding).symm)]
    exact halways
  · rintro ⟨i, j, hij, hsame, hnot⟩
    refine ⟨classOf hierarchy variants (variants.get i),
      mem_classes.mpr ⟨_, variants.get_mem i, rfl⟩, isSome_unresolved_iff.mpr ⟨?_, ?_⟩⟩
    · refine two_le_length_filter_iff.mpr ⟨i, j, hij, decide_eq_true fun _ _ => rfl, ?_⟩
      exact decide_eq_true fun p hp => (hsame p hp).symm
    · rw [Bool.eq_false_iff, ne_eq, hany]
      rintro ⟨hpadding, halways⟩
      refine hnot ⟨hpadding, halways _ (mem_classOf.mpr ⟨variants.get_mem i, fun _ _ => rfl⟩), ?_⟩
      exact halways _ (mem_classOf.mpr ⟨variants.get_mem j, fun p hp => (hsame p hp).symm⟩)

namespace Variant

/-- A variant that looks at every pixel on its own, so that its kernel implies no padding. -/
def IsPointwise (v : Variant) : Prop :=
  v.kernelW = 1 ∧ v.kernelH = 1 ∧ v.strideW = 1 ∧ v.strideH = 1

/-- The kernel of a variant implies no padding exactly if the variant is pointwise. -/
theorem paddingTest_eq_exact_zero_iff {v : Variant} (h : v.padding = .krnPad) :
    v.paddingTest = .exact .zero ↔ v.IsPointwise := by
  rw [paddingTest_eq_exact_iff, IsPointwise, h]
  constructor
  · rintro (⟨hpadding, -⟩ | ⟨-, hkernel, hstride, hmargins⟩)
    · exact Padding.noConfusion hpadding
    · obtain ⟨hw, hh⟩ := v.singlePixel_iff.mpr ⟨hkernel, hmargins.symm⟩
      exact ⟨hw, hh, v.hasUnitStride_iff.mp hstride⟩
  · rintro ⟨hw, hh, hstride⟩
    obtain ⟨hkernel, hmargins⟩ := v.singlePixel_iff.mp ⟨hw, hh⟩
    exact .inr ⟨rfl, hkernel, v.hasUnitStride_iff.mpr hstride, hmargins.symm⟩

/-- A pointwise variant for no padding clashes with one for the padding of its kernel. -/
def Clashes (u v : Variant) : Prop :=
  u.padding = .noPad ∧ v.padding = .krnPad ∧ u.IsPointwise ∧ v.IsPointwise ∧
    u.channels = v.channels

theorem Clashes.key_eq {u v : Variant} (h : u.Clashes v) (p : Param) :
    BranchKey.of p u = BranchKey.of p v := by
  obtain ⟨hu, hv, hpu, hpv, hchannels⟩ := h
  cases p with
  | field f =>
    refine congrArg BranchKey.value ?_
    cases f with
    | strideW => exact hpu.2.2.1.trans hpv.2.2.1.symm
    | strideH => exact hpu.2.2.2.trans hpv.2.2.2.symm
    | kernelW => exact hpu.1.trans hpv.1.symm
    | kernelH => exact hpu.2.1.trans hpv.2.1.symm
    | channels => exact hchannels
  | padding =>
    refine congrArg BranchKey.padding ?_
    rw [paddingTest_of_noPad hu, (paddingTest_eq_exact_zero_iff hv).mpr hpv]

/-- Two variants with different tags that fix the same values and ask the same of the padding. -/
theorem clashes_of_paddingTest_eq {u v : Variant} (hvalue : ∀ f, u.value f = v.value f)
    (htest : u.paddingTest = v.paddingTest) (hany : u.paddingTest ≠ .any)
    (hne : u.padding ≠ v.padding) : u.Clashes v ∨ v.Clashes u := by
  have hchannels : u.channels = v.channels := hvalue .channels
  have hpointwise : u.IsPointwise ↔ v.IsPointwise := by
    have hkw : u.kernelW = v.kernelW := hvalue .kernelW
    have hkh : u.kernelH = v.kernelH := hvalue .kernelH
    have hsw : u.strideW = v.strideW := hvalue .strideW
    have hsh : u.strideH = v.strideH := hvalue .strideH
    rw [IsPointwise, IsPointwise, hkw, hkh, hsw, hsh]
  cases hu : u.padding with
  | any => exact absurd (paddingTest_of_any hu) hany
  | noPad =>
    cases hv : v.padding with
    | any => exact absurd (htest.trans (paddingTest_of_any hv)) hany
    | noPad => exact absurd (hu.trans hv.symm) hne
    | krnPad =>
      have hpv := (paddingTest_eq_exact_zero_iff hv).mp
        (htest.symm.trans (paddingTest_of_noPad hu))
      exact .inl ⟨hu, hv, hpointwise.mpr hpv, hpv, hchannels⟩
  | krnPad =>
    cases hv : v.padding with
    | any => exact absurd (htest.trans (paddingTest_of_any hv)) hany
    | krnPad => exact absurd (hu.trans hv.symm) hne
    | noPad =>
      have hpu := (paddingTest_eq_exact_zero_iff hu).mp (htest.trans (paddingTest_of_noPad hv))
      exact .inr ⟨hv, hu, hpointwise.mp hpu, hpu, hchannels.symm⟩

/-- Under a hierarchy of all parameters no other variants with different symbols stay together at a
leaf. -/
theorem inseparable_iff_clashes {hierarchy : List Param} (hall : ∀ q, q ∈ hierarchy)
    {u v : Variant} (hidentity : u.identity = v.identity) (hgeneric : u.generic = v.generic)
    (hdebug : u.debug = v.debug) (hne : u.symbol ≠ v.symbol) :
    Inseparable hierarchy u v ∧ ¬ (.padding ∈ hierarchy ∧ u.paddingCondition.isAlways = true ∧
        v.paddingCondition.isAlways = true) ↔ u.Clashes v ∨ v.Clashes u := by
  constructor
  · rintro ⟨hsame, hnot⟩
    have hvalue : ∀ f, u.value f = v.value f := fun f =>
      BranchKey.value.inj (hsame (.field f) (hall _))
    have htest : u.paddingTest = v.paddingTest := BranchKey.padding.inj (hsame .padding (hall _))
    apply clashes_of_paddingTest_eq hvalue htest
    · intro hany
      refine hnot ⟨hall _, u.paddingTest.isAlways_condition.mpr hany, ?_⟩
      exact v.paddingTest.isAlways_condition.mpr (htest ▸ hany)
    · intro hpadding
      exact hne (symbol_congr hidentity hvalue hpadding hgeneric hdebug)
  · have hcondition : ∀ w : Variant, w.padding = .noPad → w.paddingCondition.isAlways ≠ true := by
      intro w hw halways
      have hany : w.paddingTest = .any := w.paddingTest.isAlways_condition.mp halways
      rw [paddingTest_of_noPad hw] at hany
      exact PaddingTest.noConfusion hany
    rintro (h | h)
    · exact ⟨fun p _ => h.key_eq p, fun hboth => hcondition u h.1 hboth.2.1⟩
    · exact ⟨fun p _ => (h.key_eq p).symm, fun hboth => hcondition v h.1 hboth.2.2⟩

end Variant

/-- A tree cannot be built exactly where two variants stay together at a leaf, unless a level of
paddings is left with variants that admit every padding. The error and the findings name the classes
of inseparable variants. Under a hierarchy of all parameters, variants of one family with different
symbols stay together only where pointwise variants clash. -/
theorem Tree.plan_separates {hierarchy : List Param} (hh : requireHierarchy hierarchy = .ok ())
    (variants : List Variant) (default : Variant) :
    ((∃ e, (plan variants hierarchy default).result = .error e) ↔
      ∃ i j : Fin variants.length, i < j ∧
        Inseparable hierarchy (variants.get i) (variants.get j) ∧
        ¬ (.padding ∈ hierarchy ∧ (variants.get i).paddingCondition.isAlways = true ∧
          (variants.get j).paddingCondition.isAlways = true)) ∧
    (∀ e, (plan variants hierarchy default).result = .error e →
      (classes hierarchy variants).findSome? (unresolved hierarchy) = some e) ∧
    (∀ p, (plan variants hierarchy default).result = .ok p →
      p.findings = (classes hierarchy variants).filterMap (ambiguity hierarchy)) ∧
    ((∀ q, q ∈ hierarchy) → (∀ v ∈ variants, v.generic = false ∧ v.debug = false) →
      (∀ u ∈ variants, ∀ v ∈ variants, u.identity = v.identity) →
      (variants.map Variant.symbol).Nodup →
      ((∃ e, (plan variants hierarchy default).result = .error e) ↔
        ∃ u ∈ variants, ∃ v ∈ variants, u.Clashes v)) := by
  have h := (requireHierarchy_eq_ok_iff.mp hh).2
  have hfails : (∃ e, (plan variants hierarchy default).result = .error e) ↔
      ∃ i j : Fin variants.length, i < j ∧
        Inseparable hierarchy (variants.get i) (variants.get j) ∧
        ¬ (.padding ∈ hierarchy ∧ (variants.get i).paddingCondition.isAlways = true ∧
          (variants.get j).paddingCondition.isAlways = true) := by
    simp only [result_plan_eq_error_iff h]
    rw [← Option.isSome_iff_exists, List.findSome?_isSome_iff, exists_unresolved_iff]
  refine ⟨hfails, fun e => (result_plan_eq_error_iff h).mp, fun p => findings_of_result_plan h, ?_⟩
  · intro hall hkind hidentity hsymbols
    rw [hfails]
    have hclash : ∀ i j : Fin variants.length, i < j →
        (Inseparable hierarchy (variants.get i) (variants.get j) ∧
          ¬ (.padding ∈ hierarchy ∧ (variants.get i).paddingCondition.isAlways = true ∧
            (variants.get j).paddingCondition.isAlways = true) ↔
        (variants.get i).Clashes (variants.get j) ∨
          (variants.get j).Clashes (variants.get i)) := by
      intro i j hij
      have hi := variants.get_mem i
      have hj := variants.get_mem j
      exact Variant.inseparable_iff_clashes hall (hidentity _ hi _ hj)
        ((hkind _ hi).1.trans (hkind _ hj).1.symm) ((hkind _ hi).2.trans (hkind _ hj).2.symm)
        (List.pairwise_iff_get.mp (List.pairwise_map.mp hsymbols) i j hij)
    constructor
    · rintro ⟨i, j, hij, hpair⟩
      rcases (hclash i j hij).mp hpair with h | h
      · exact ⟨_, variants.get_mem i, _, variants.get_mem j, h⟩
      · exact ⟨_, variants.get_mem j, _, variants.get_mem i, h⟩
    · rintro ⟨u, hu, v, hv, h⟩
      obtain ⟨i, rfl⟩ := List.mem_iff_get.mp hu
      obtain ⟨j, rfl⟩ := List.mem_iff_get.mp hv
      rcases lt_trichotomy i j with hij | rfl | hji
      · exact ⟨i, j, hij, (hclash i j hij).mpr (.inl h)⟩
      · exact absurd (h.1.symm.trans h.2.1) nofun
      · exact ⟨j, i, hji, (hclash j i hji).mpr (.inr h)⟩

/-- Of the two classes of inseparable variants only the one of the pointwise variants is an error. -/
theorem Tree.plan_separates_pointwise :
    let identity : Identity := ⟨"krn", .avePool, .chw, .fx16, []⟩
    let wide : Variant := { identity, kernelW := 3 }
    let widePadded : Variant := { identity, kernelW := 3, padding := .krnPad }
    let point : Variant :=
      { identity, kernelW := 1, kernelH := 1, strideW := 1, strideH := 1, padding := .krnPad }
    let pointUnpadded : Variant := { point with padding := .noPad }
    let variants : List Variant := [wide, point, widePadded, pointUnpadded]
    let default : Variant := .fallback identity []
    requireHierarchy Param.all = .ok () ∧ classes Param.all variants =
        [[point, pointUnpadded], [wide, widePadded]] ∧
      (plan variants Param.all default).result = .error (.unresolvedPartition
        ("stride_w=1/stride_h=1/kernel_w=1/kernel_h=1/channels=*/padding:(padding_top == 0) && " ++
          "(padding_bot == 0) && (padding_left == 0) && (padding_right == 0)")
        ["mli_krn_avepool_chw_fx16_k1x1_str1_krnpad",
          "mli_krn_avepool_chw_fx16_k1x1_str1_nopad"]) := by
  intro identity wide widePadded point pointUnpadded variants default
  have hh : requireHierarchy Param.all = .ok () := by decide
  have hclasses : classes Param.all variants = [[point, pointUnpadded], [wide, widePadded]] := by
    cbv
  obtain ⟨-, herror, -, hclash⟩ := plan_separates hh variants default
  have hsymbols : variants.map Variant.symbol =
      ["mli_krn_avepool_chw_fx16_k3xn", "mli_krn_avepool_chw_fx16_k1x1_str1_krnpad",
        "mli_krn_avepool_chw_fx16_k3xn_krnpad", "mli_krn_avepool_chw_fx16_k1x1_str1_nopad"] := by
    decide
  have hfails := hclash Param.mem_all (by decide) (by decide) (by rw [hsymbols]; decide)
  obtain ⟨e, he⟩ := hfails.mpr ⟨pointUnpadded, by simp [variants], point, by simp [variants],
    rfl, rfl, ⟨rfl, rfl, rfl, rfl⟩, ⟨rfl, rfl, rfl, rfl⟩, rfl⟩
  refine ⟨hh, hclasses, ?_⟩
  have hpath : pathText (point.path Param.all) =
      "stride_w=1/stride_h=1/kernel_w=1/kernel_h=1/channels=*/padding:(padding_top == 0) && " ++
        "(padding_bot == 0) && (padding_left == 0) && (padding_right == 0)" := by
    cbv
  have hnames : [point, pointUnpadded].map Variant.symbol =
      ["mli_krn_avepool_chw_fx16_k1x1_str1_krnpad", "mli_krn_avepool_chw_fx16_k1x1_str1_nopad"] := by
    decide
  have hunresolved : unresolved Param.all [point, pointUnpadded] =
      some (.unresolvedPartition (pathText (point.path Param.all))
        ([point, pointUnpadded].map Variant.symbol)) := by
    have hany : admitsEveryPadding Param.all [point, pointUnpadded] = false := by decide
    rw [unresolved, hany, if_neg Bool.false_ne_true]
  have hfirst := herror e he
  rw [hclasses, List.findSome?_cons, hunresolved] at hfirst
  rw [he, ← Option.some.inj hfirst, hpath, hnames]

end KernelDispatch
