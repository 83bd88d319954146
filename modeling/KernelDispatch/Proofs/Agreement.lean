import KernelDispatch.Plan.Dispatch
import KernelDispatch.Proofs.FlatRouting
import Mathlib

/-! The two styles of dispatch on one family: wherever a tree picks a specialization, a flat chain
picks the same one. -/
namespace KernelDispatch.Flat

/-- The branch that a call takes at a level is met before all others that have something for it. -/
theorem find?_order_of_branchOf {p : Param} {rest : List Param} {vs : List Variant} {r : Runtime}
    {g : Group} (hg : branchOf p vs r = some g) {picks : Variant → Bool}
    (hpicks : ∀ u, picks u = true → u.FitsAt r p) {v : Variant}
    (hv : (order rest g.members).find? picks = some v) :
    (order (p :: rest) vs).find? picks = some v := by
  obtain ⟨-, before, after, hsplit, hbefore⟩ := List.find?_eq_some_iff_append.mp hg
  have hearlier : (before.flatMap fun k => order rest k.members).find? picks = none := by
    rw [List.find?_eq_none]
    intro u hu hpick
    obtain ⟨k, hk, huk⟩ := List.mem_flatMap.mp hu
    have hmem : k ∈ partition p vs := by simp [hsplit, hk]
    have hkey := key_of_mem_order hmem huk
    have hadmits := (BranchKey.admits_of_iff p u r).mpr (hpicks u hpick)
    rw [hkey] at hadmits
    simpa [hadmits] using hbefore k hk
  rw [order, hsplit, List.flatMap_append, List.find?_append, hearlier, Option.none_or,
    List.flatMap_cons, List.find?_append, hv, Option.some_or]

/-- A specialization that a tree picks for a call is the first candidate that fits the call. -/
theorem find?_order_of_select {hierarchy : List Param} (hpadding : .padding ∉ hierarchy.dropLast)
    {default : Variant} (hdefault : default.generic = true) {vs : List Variant} {r : Runtime}
    {v : Variant} (hselect : (Tree.node default hierarchy vs).select r = v)
    (hgeneric : v.generic = false) (hfit : v.Fits r) :
    (order hierarchy vs).find? (fun u => !u.generic && u.condition.eval r) = some v := by
  have hnot : default ≠ v := by
    rintro rfl
    rw [hdefault] at hgeneric
    exact Bool.noConfusion hgeneric
  induction hierarchy generalizing vs with
  | nil =>
    -- the first variant of a leaf is what both styles call there
    cases vs with
    | nil => exact absurd hselect hnot
    | cons u us =>
      obtain rfl : u = v := hselect
      exact List.find?_cons_of_pos (by simp [hgeneric, (u.eval_condition r).mpr hfit])
  | cons p rest ih =>
    rw [Tree.select_node_cons_members hpadding] at hselect
    cases hg : branchOf p vs r with
    | none =>
      rw [hg] at hselect
      exact absurd hselect hnot
    | some g =>
      rw [hg, Option.elim_some] at hselect
      apply find?_order_of_branchOf hg
      · intro u hu
        rw [Bool.and_eq_true, Variant.eval_condition] at hu
        exact Variant.fits_iff_fitsAt.mp hu.2 p
      · exact ih (padding_notMem_dropLast hpadding).1 hselect

/-- Under a hierarchy of all parameters a flat plan calls every specialization that a tree calls.
Where the two styles differ in a family without a second generic variant, the flat plan calls a
fitting specialization instead of the default. -/
theorem plan_agrees_with_tree {variants : List Variant} {hierarchy : List Param}
    {default : Variant} {p : Plan} (hh : requireHierarchy hierarchy = .ok ())
    (hall : ∀ q, q ∈ hierarchy) (hdefault : default.generic = true)
    (hp : (Tree.plan variants hierarchy default).result = .ok p) :
    ∃ q, (plan variants hierarchy default).result = .ok q ∧
      (∀ r, (p.select r).generic = false → q.select r = p.select r) ∧
      ((∀ v ∈ variants, v.generic = true → v = default) → ∀ r, q.select r ≠ p.select r →
        p.select r = default ∧ q.select r ∈ variants ∧ (q.select r).generic = false ∧
          (q.select r).condition.eval r = true) := by
  have hpadding := (requireHierarchy_eq_ok_iff.mp hh).2
  have hroot : ∀ r, p.select r = (Tree.node default hierarchy variants).select r := fun r => by
    rw [Plan.select, Tree.root_of_plan hp]
  have hsame : ∀ r, (p.select r).generic = false →
      (node default (candidates hierarchy variants)).select r = p.select r := by
    intro r hgeneric
    rcases Tree.select_node_eq_or_mem default hierarchy variants r with hfall | ⟨-, hfits⟩
    · rw [hroot, hfall, hdefault] at hgeneric
      exact Bool.noConfusion hgeneric
    · rw [← hroot] at hfits
      have hfit := Variant.fits_iff_fitsAt.mpr fun q => hfits q (hall q)
      have hfind := find?_order_of_select hpadding hdefault (hroot r).symm hgeneric hfit
      rw [select_node_candidates, hfind, Option.getD_some]
  refine ⟨⟨node default (candidates hierarchy variants), _⟩, rfl, hsame, fun hfamily r hne => ?_⟩
  have hgeneric : (p.select r).generic = true := by
    by_contra hspecial
    exact hne (hsame r (Bool.not_eq_true _ ▸ hspecial))
  have hfall : p.select r = default := by
    rcases Tree.select_node_eq_or_mem default hierarchy variants r with hfall | ⟨hmem, -⟩
    · exact (hroot r).trans hfall
    · rw [← hroot] at hmem
      exact hfamily _ hmem hgeneric
  rcases select_node_eq_or_mem default (candidates hierarchy variants) r with
    ⟨hend, -⟩ | ⟨hmem, hfits⟩
  · exact absurd (hend.trans hfall.symm) hne
  · obtain ⟨hv, hvg⟩ := mem_candidates.mp hmem
    exact ⟨hfall, hv, hvg, hfits⟩

/-- The tree commits to the branch of `same` and leaves a call with another padding to the default.
Both styles call `same` for its own padding. -/
theorem plan_agrees_with_tree_on_exact_padding :
    let identity : Identity := ⟨"krn", .avePool, .chw, .fx16, []⟩
    let same : Variant :=
      { identity, kernelW := 3, kernelH := 3, strideW := 1, strideH := 1, padding := .krnPad }
    let wide : Variant := { identity, strideW := 1 }
    let default : Variant := .fallback identity []
    let p : Plan := ⟨Tree.node default Param.all [wide, same], []⟩
    let r : Runtime := ⟨1, 1, 3, 3, 8, ⟨1, 1, 1, 1⟩⟩
    requireHierarchy Param.all = .ok () ∧ (∀ q, q ∈ Param.all) ∧ default.generic = true ∧
      (Tree.plan [wide, same] Param.all default).result = .ok p ∧
      p.select { r with padding := .zero } = default ∧
      ∃ q, (plan [wide, same] Param.all default).result = .ok q ∧ q.select r = same := by
  intro identity same wide default p r
  have hh : requireHierarchy Param.all = .ok () := by decide
  have hstops : Tree.stops [] Param.all [wide, same] =
      [.leaf ["stride_w=1", "stride_h=1", "kernel_w=3", "kernel_h=3", "channels=*",
          "padding:(padding_top == 1) && (padding_bot == 1) && " ++
            "(padding_left == 1) && (padding_right == 1)"] [same],
        .leaf ["stride_w=1", "stride_h=*", "kernel_w=*", "kernel_h=*", "channels=*",
          "padding=*"] [wide]] := by
    cbv
  have hp : (Tree.plan [wide, same] Param.all default).result = .ok p := by
    rw [Tree.plan, hstops]
    rfl
  have hsame : p.select r = same := by cbv
  have hfall : p.select { r with padding := .zero } = default := by cbv
  obtain ⟨q, hq, hagree, -⟩ := plan_agrees_with_tree hh Param.mem_all rfl hp
  refine ⟨hh, Param.mem_all, rfl, hp, hfall, q, hq, ?_⟩
  rw [hagree r (hsame ▸ rfl), hsame]

end KernelDispatch.Flat
