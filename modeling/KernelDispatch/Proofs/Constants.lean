import KernelDispatch.Artifact.Body
import KernelDispatch.Artifact.Family
import KernelDispatch.Plan.Dispatch
import KernelDispatch.Proofs.FlatRouting
import KernelDispatch.Proofs.KernelMargins
import Mathlib

/-! The constants in the body of a variant are right for every call that reaches it. -/
namespace KernelDispatch

namespace Variant

theorem fits_of_isUnconstrained {v : Variant} (h : v.isUnconstrained = true) (r : Runtime) :
    v.Fits r := by
  rw [isUnconstrained, Bool.and_eq_true, List.all_eq_true] at h
  refine ⟨fun f hf => absurd (eq_of_beq (h.1 f f.mem_all)) hf, ?_⟩
  rw [paddingTest, eq_of_beq h.2]
  trivial

/-- For a call that a variant fits, each constant in its body is zero or the value of the call, and
padding that the body counts as fixed is the padding of the call. -/
theorem bodyValues_of_fits {v : Variant} {r : Runtime} (h : v.Fits r) :
    (∀ f : Field, v.bodyValues.get? f.word = some "0" ∨
      v.bodyValues.get? f.word = some (Text.decimal (r.value f))) ∧
    (v.bodyValues.get? "kernelpadding" = some "1" →
      ∀ s : Side, v.bodyValues.get? s.word = some (Text.decimal (r.padding.get s))) := by
  refine ⟨fun f => ?_, fun hfixed s => ?_⟩
  · rw [get?_bodyValues_field]
    by_cases hf : v.value f = 0
    · exact .inl (by rw [hf]; rfl)
    · exact .inr (by rw [h.1 f hf])
  · rw [get?_bodyValues_kernelpadding] at hfixed
    rw [get?_bodyValues_side]
    cases hm : v.fixedPadding with
    | none => simp [hm] at hfixed
    | some m =>
      have hpadding := h.2
      rw [(v.fixedPadding_eq_some_iff m).mp hm] at hpadding
      have hsame : r.padding = m := hpadding
      rw [Option.getD_some, hsame]

end Variant

theorem Family.default_isUnconstrained {f : Family} (h : f.requireConsistent = .ok ()) :
    f.default.isUnconstrained = true := by
  obtain ⟨hgeneric, -, hvalid, -⟩ := f.requireConsistent_eq_ok_iff.mp h
  have hmem : f.default ∈ f.members := mem_members.mpr List.mem_cons_self
  exact (f.default.requireValid_eq_ok_iff.mp (hvalid _ hmem)).2 hgeneric

/-- Every call is handed to a variant that fits it, provided that the default fits every call. -/
theorem Flat.fits_select {variants : List Variant} {hierarchy : List Param} {default : Variant}
    {p : Plan} (hdefault : ∀ r, default.Fits r)
    (hp : (plan variants hierarchy default).result = .ok p) (r : Runtime) :
    (p.select r).Fits r := by
  obtain rfl := Except.ok.inj hp
  rcases select_node_eq_or_mem default (candidates hierarchy variants) r with
    ⟨hfall, -⟩ | ⟨-, hfits⟩
  · rw [Plan.select, hfall]
    exact hdefault r
  · exact (Variant.eval_condition _ r).mp hfits

/-- A tree tests what its hierarchy lists, so it needs all parameters to rule out a misfit. -/
theorem Tree.fits_select {variants : List Variant} {hierarchy : List Param} {default : Variant}
    {p : Plan} (hdefault : ∀ r, default.Fits r) (hall : ∀ q, q ∈ hierarchy)
    (hp : (plan variants hierarchy default).result = .ok p) (r : Runtime) :
    (p.select r).Fits r := by
  rw [Plan.select, root_of_plan hp]
  rcases select_node_eq_or_mem default hierarchy variants r with h | ⟨-, hfits⟩
  · rw [h]
    exact hdefault r
  · exact Variant.fits_iff_fitsAt.mpr fun q => hfits q (hall q)

/-- Whatever variant a plan calls, no constant in its body contradicts the call. -/
theorem Dispatch.constants_of_select {f : Family} {d : Dispatch} {p : Plan}
    (hf : f.requireConsistent = .ok ())
    (hstyle : d.style = .flat ∨ d.style = .tree ∧ ∀ q, q ∈ d.hierarchy)
    (hp : (d.plan f.variants f.default).result = .ok p) (r : Runtime) :
    (∀ g : Field, (p.select r).bodyValues.get? g.word = some "0" ∨
      (p.select r).bodyValues.get? g.word = some (Text.decimal (r.value g))) ∧
    ((p.select r).bodyValues.get? "kernelpadding" = some "1" →
      ∀ s : Side,
        (p.select r).bodyValues.get? s.word = some (Text.decimal (r.padding.get s))) := by
  have hdefault := Variant.fits_of_isUnconstrained (Family.default_isUnconstrained hf)
  refine Variant.bodyValues_of_fits ?_
  rcases (plan_eq_ok hp).2 with ⟨htree, hresult⟩ | ⟨-, hresult⟩
  · have hall : ∀ q, q ∈ d.hierarchy := by
      rcases hstyle with hflat | ⟨-, hall⟩
      · rw [htree] at hflat
        exact nomatch hflat
      · exact hall
    exact Tree.fits_select hdefault hall hresult r
  · exact Flat.fits_select hdefault hresult r

/-- A tree over all parameters that calls the one variant of a family with a fixed padding. -/
theorem Dispatch.constants_of_select_kernel_padding :
    let identity : Identity := ⟨"krn", .maxPool, .hwc, .sa8, []⟩
    let same : Variant :=
      { identity, kernelW := 3, kernelH := 2, strideW := 1, strideH := 1, padding := .krnPad }
    let f : Family := ⟨[same], .fallback identity []⟩
    let d : Dispatch := ⟨.tree, Param.all, .standard identity⟩
    let p : Plan := ⟨Tree.node f.default Param.all [same], []⟩
    let r : Runtime := ⟨1, 1, 3, 2, 8, ⟨0, 1, 1, 1⟩⟩
    f.requireConsistent = .ok () ∧ (d.plan f.variants f.default).result = .ok p ∧
      p.select r = same ∧
      ∀ s : Side, (p.select r).bodyValues.get? s.word = some (Text.decimal (r.padding.get s)) := by
  intro identity same f d p r
  have hsymbols : f.declared.map Variant.symbol =
      ["mli_krn_maxpool_hwc_sa8_k3x2_str1_krnpad", "mli_krn_maxpool_hwc_sa8_generic",
        "mli_krn_maxpool_hwc_sa8", "mli_debug_krn_maxpool_hwc_sa8"] := by
    decide
  have hf : f.requireConsistent = .ok () :=
    f.requireConsistent_eq_ok_iff.mpr ⟨rfl, by decide, by decide, by
      rw [Variant.requireDistinct, hsymbols]; decide⟩
  have hbound : d.requireBindings = .ok () := by cbv
  have hstops : Tree.stops [] Param.all [same] =
      [.leaf ["stride_w=1", "stride_h=1", "kernel_w=3", "kernel_h=2", "channels=*",
        "padding:(padding_top == 0) && (padding_bot == 1) && " ++
          "(padding_left == 1) && (padding_right == 1)"] [same]] := by
    cbv
  have hp : (d.plan f.variants f.default).result = .ok p := by
    have htree : (Tree.plan [same] Param.all f.default).result = .ok p := by
      rw [Tree.plan, hstops]
      rfl
    rw [Dispatch.plan, hbound]
    exact htree
  have hsame : p.select r = same := by cbv
  refine ⟨hf, hp, hsame, (Dispatch.constants_of_select hf (.inr ⟨rfl, ?_⟩) hp r).2 ?_⟩
  · intro q
    cases q with
    | field g => exact List.mem_append_left _ (List.mem_map_of_mem g.mem_all)
    | padding => decide
  · rw [hsame, Variant.get?_bodyValues_kernelpadding]
    decide

end KernelDispatch
