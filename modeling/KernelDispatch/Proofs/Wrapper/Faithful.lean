import KernelDispatch.Proofs.FlatRouting
import KernelDispatch.Proofs.Wrapper.Text

/-! A wrapper calls what its plan selects, whatever the shape of the plan. -/
namespace KernelDispatch

theorem Arms.mem_targets_ofList {arms : List (Condition × Node)} {last : Node} {v : Variant} :
    v ∈ (ofList arms last).targets ↔ (∃ a ∈ arms, v ∈ a.2.targets) ∨ v ∈ last.targets := by
  induction arms with
  | nil => exact ⟨.inr, fun h => h.resolve_left nofun⟩
  | cons a rest ih =>
    change v ∈ a.2.targets ++ (ofList rest last).targets ↔ _
    rw [List.mem_append, ih]
    simp [or_assoc]

/-- A tree calls only what it is made from. -/
theorem Tree.mem_of_mem_targets {hierarchy : List Param} {vs : List Variant} {default v : Variant}
    (h : v ∈ (node default hierarchy vs).targets) : v ∈ default :: vs := by
  induction hierarchy generalizing vs with
  | nil =>
    rw [node, Node.targets, List.mem_singleton] at h
    cases vs with
    | nil => exact h ▸ List.mem_cons_self
    | cons u us => exact h ▸ List.mem_cons_of_mem default List.mem_cons_self
  | cons p rest ih =>
    have hgroup : ∀ g ∈ partition p vs, v ∈ (node default rest (g.kept p)).targets →
        v ∈ default :: vs := by
      intro g hg hv
      have hmembers : g.members.Sublist vs := by
        rw [(mem_partition hg).2]
        exact List.filter_sublist
      exact (((g.kept_sublist p).trans hmembers).cons_cons default).subset (ih hv)
    rw [node, Node.targets, Arms.mem_targets_ofList] at h
    rcases h with ⟨a, ha, hv⟩ | hv
    · obtain ⟨g, hg, rfl⟩ := List.mem_map.mp ha
      exact hgroup g (List.mem_filter.mp hg).1 hv
    · cases hfind : (partition p vs).find? fun g => g.key.isWildcard with
      | none =>
        rw [hfind] at hv
        exact List.mem_singleton.mp hv ▸ List.mem_cons_self
      | some g =>
        rw [hfind] at hv
        exact hgroup g (List.mem_of_find?_eq_some hfind) hv

/-- A chain calls only what it is made from. -/
theorem Flat.mem_of_mem_targets {candidates : List Variant} {default v : Variant}
    (h : v ∈ (node default candidates).targets) : v ∈ default :: candidates := by
  rw [node, Node.targets, Arms.mem_targets_ofList] at h
  rcases h with ⟨a, ha, hv⟩ | hv
  · obtain ⟨u, hu, rfl⟩ := List.mem_map.mp ha
    rw [List.mem_singleton.mp hv]
    exact List.mem_cons_of_mem default ((List.takeWhile_sublist _).subset hu)
  · rw [List.mem_singleton.mp hv, ending]
    cases hfind : candidates.find? fun u => !isConditional u with
    | none => exact List.mem_cons_self
    | some u => exact List.mem_cons_of_mem default (List.mem_of_find?_eq_some hfind)

namespace Plan

theorem mem_of_mem_targets {variants : List Variant} {hierarchy : List Param} {default : Variant}
    {p : Plan} (hp : (Tree.plan variants hierarchy default).result = .ok p ∨
      (Flat.plan variants hierarchy default).result = .ok p) {v : Variant}
    (hv : v ∈ p.root.targets) : v ∈ default :: variants := by
  rcases hp with htree | hflat
  · rw [Tree.root_of_plan htree] at hv
    exact Tree.mem_of_mem_targets hv
  · obtain rfl := Except.ok.inj hflat
    have hcandidate := Flat.mem_of_mem_targets hv
    rw [List.mem_cons, Flat.mem_candidates] at hcandidate
    exact List.mem_cons.mpr (hcandidate.imp_right And.left)

/-- The text of a plan can be read, and running what it says returns for the variant that the plan
selects, once on every run. -/
theorem statements?_code (p : Plan) (hnames : ∀ v ∈ p.root.targets, v.HasPlainNames)
    (diagnostic : Bool) (r : Runtime) :
    ∃ code, statements? (p.code diagnostic) = some code ∧
      code.returns r.store = some [(p.select r).returned diagnostic] :=
  ⟨p.root.statements diagnostic,
    statements?_eq (p.root.spells_code diagnostic (by decide) hnames),
    p.root.returns_statements diagnostic r⟩

/-- Read as statements and run on the values of a call, the text of a plan returns the call of the
variant that the plan selects, and the diagnostic text returns its name. -/
theorem code_returns_select {variants : List Variant} {hierarchy : List Param} {default : Variant}
    {p : Plan} (hp : (Tree.plan variants hierarchy default).result = .ok p ∨
      (Flat.plan variants hierarchy default).result = .ok p)
    (hnames : ∀ v ∈ default :: variants, v.HasPlainNames) (r : Runtime) :
    let names := (p.select r).identity.args.map Arg.name
    (∃ code, statements? (p.code false) = some code ∧
      code.returns r.store = some [.call (p.select r).symbol (names.headD "") names.tail]) ∧
    ∃ code, statements? (p.code true) = some code ∧
      code.returns r.store = some [.literal (p.select r).symbol] := by
  intro names
  have htargets : ∀ v ∈ p.root.targets, v.HasPlainNames :=
    fun v hv => hnames v (mem_of_mem_targets hp hv)
  exact ⟨p.statements?_code htargets false r, p.statements?_code htargets true r⟩

/-- A chain of one arm whose guard and call are both broken over several lines. -/
theorem code_returns_select_broken_lines :
    let args : List Arg :=
      [⟨"const mli_tensor *", "input_feature_map"⟩, ⟨"const mli_pool_cfg *", "configuration"⟩,
        ⟨"mli_tensor *", "buffer_behind_the_output_feature_map_of_the_operation"⟩]
    let identity : Identity := ⟨"krn", .maxPool, .hwc, .sa8, args⟩
    let same : Variant :=
      { identity, kernelW := 3, kernelH := 3, strideW := 1, strideH := 1, padding := .krnPad }
    let default : Variant := .fallback identity []
    let p : Plan := ⟨Flat.node default [same], []⟩
    let r : Runtime := ⟨1, 1, 3, 3, 8, ⟨1, 1, 1, 1⟩⟩
    (Flat.plan [same] [] default).result = .ok p ∧
      ∃ code, statements? (p.code false) = some code ∧
        code.returns r.store = some [.call "mli_krn_maxpool_hwc_sa8_k3x3_str1_krnpad"
          "input_feature_map"
          ["configuration", "buffer_behind_the_output_feature_map_of_the_operation"]] := by
  intro args identity same default p r
  have hp : (Flat.plan [same] [] default).result = .ok p := rfl
  have hnames : ∀ v ∈ [default, same], v.HasPlainNames := by decide
  have hselect : p.select r = same := by decide
  have hsymbol : same.symbol = "mli_krn_maxpool_hwc_sa8_k3x3_str1_krnpad" := by decide
  have hcode := (code_returns_select (.inr hp) hnames r).1
  rw [hselect, hsymbol] at hcode
  exact ⟨hp, hcode⟩

end Plan
end KernelDispatch
