import KernelDispatch.Proofs.Lineage
import KernelDispatch.Proofs.Traversal
import Mathlib

/-! What a resolved target takes from the targets that it derives from. The nearest declaration of
each part counts. The variants are those of the target at the end, under the identity that results. -/
namespace KernelDispatch

/-- What can be wrong with the way to a target, and with no target on it. -/
def ManifestError.IsDerivation : ManifestError → Prop
  | .derivationCycle _ _ | .unknownTarget _ | .derivedVariants _ _ => True
  | _ => False

theorem VariantDecl.expand_withIdentity (d : VariantDecl) (i j : Identity) :
    d.expand j = (d.expand i).map fun vs => vs.map fun v => v.withIdentity j := by
  unfold expand
  cases ValueSet.expandPair d.kernel d.kernelW d.kernelH .mixedKernel with
  | error e => rfl
  | ok kernels =>
    cases ValueSet.expandPair d.stride d.strideW d.strideH .mixedStride with
    | error e => rfl
    | ok strides =>
      cases ValueSet.expandOrOpen d.channels with
      | error e => rfl
      | ok channels =>
        change Except.ok _ = Except.ok _
        simp only [List.map_flatMap, List.map_map]
        rfl

/-- A target at the end of a lineage can be resolved: nothing that it must declare is missing, and
its variants can be expanded. -/
structure TargetDecl.IsComplete (t : TargetDecl) : Prop where
  layout : t.layout.isSome
  dataType : t.dataType.isSome
  bodyTemplate : t.bodyTemplate.isSome
  generic : t.generic.isSome
  variants : ∀ d ∈ t.variants, ∀ identity, ∃ vs, d.expand identity = .ok vs

namespace Manifest
variable {m : Manifest}

/-- The expansion of a declaration by its place, with the faults that are reported of it. -/
def expandAt (identity : Identity) (tag : String) (p : VariantDecl × Nat) :
    Except Fault (List Variant) :=
  (p.1.expand identity).mapError fun e => (Fault.manifest e).within (.expandingVariant tag p.2)

section Expansion
variable {identity : Identity} {tag : String} {decls : List VariantDecl}

theorem expandAll_eq_map : expandAll identity tag decls =
    (decls.zipIdx.mapM (expandAt identity tag)).map List.flatten := by
  change (decls.zipIdx.mapM (expandAt identity tag)).bind (fun expanded => .ok expanded.flatten) = _
  cases decls.zipIdx.mapM (expandAt identity tag) <;> rfl

theorem expandAt_eq_ok_iff {p : VariantDecl × Nat} {vs : List Variant} :
    expandAt identity tag p = .ok vs ↔ p.1.expand identity = .ok vs := by
  unfold expandAt
  cases p.1.expand identity with
  | error e => exact iff_of_false nofun nofun
  | ok us => exact ⟨fun h => congrArg _ (Except.ok.inj h), fun h => congrArg _ (Except.ok.inj h)⟩

theorem expandAll_eq_ok_iff {vs : List Variant} :
    expandAll identity tag decls = .ok vs ↔ ∃ expanded,
      decls.mapM (fun d => d.expand identity) = .ok expanded ∧ vs = expanded.flatten := by
  have hplaces : ∀ expanded, decls.zipIdx.mapM (expandAt identity tag) = .ok expanded ↔
      decls.mapM (fun d => d.expand identity) = .ok expanded := by
    intro expanded
    have hfst : decls.zipIdx.map Prod.fst = decls := List.zipIdx_map_fst 0 decls
    rw [mapM_eq_ok_iff, mapM_eq_ok_iff]
    simp only [expandAt_eq_ok_iff]
    conv_rhs => rw [← hfst, List.forall₂_map_left_iff]
  rw [expandAll_eq_map]
  simp only [← hplaces]
  cases decls.zipIdx.mapM (expandAt identity tag) with
  | error e => exact iff_of_false nofun nofun
  | ok expanded => simp [Except.map, eq_comm]

theorem during_ne_nil_of_expandAll {f : Fault} (h : expandAll identity tag decls = .error f) :
    f.during ≠ [] := by
  rw [expandAll_eq_map] at h
  cases hplaces : decls.zipIdx.mapM (expandAt identity tag) with
  | ok expanded => rw [hplaces] at h; cases h
  | error f' =>
    rw [hplaces] at h
    obtain rfl := Except.error.inj h
    obtain ⟨p, -, hp⟩ := exists_of_mapM_eq_error hplaces
    unfold expandAt at hp
    cases hd : p.1.expand identity with
    | ok vs => rw [hd] at hp; cases hp
    | error e =>
      rw [hd] at hp
      obtain rfl := Except.error.inj hp
      exact List.cons_ne_nil _ _

end Expansion

/-- Declarations that can be expanded are expanded alike under every identity. -/
theorem mapM_expand_withIdentity {decls : List VariantDecl} {i : Identity}
    {expanded : List (List Variant)} (h : decls.mapM (fun d => d.expand i) = .ok expanded)
    (j : Identity) : decls.mapM (fun d => d.expand j) =
      .ok (expanded.map fun vs => vs.map fun v => v.withIdentity j) := by
  rw [mapM_eq_ok_iff] at h ⊢
  rw [List.forall₂_map_right_iff]
  refine h.imp fun d vs hd => ?_
  rw [d.expand_withIdentity i j, hd]
  rfl

/-- The target that a complete declaration without a parent stands for, given its variants. -/
def baseTarget (m : Manifest) (t : TargetDecl) (identity : Identity) (bodyTemplate : String)
    (generic : GenericDecl) (declared : List Variant) : Target :=
  let default := Variant.fallback identity generic.core.names
  { tag := t.tag, output := m.path t.output, identity, bodyTemplate,
    includes := t.includes.getD [], defines := t.defines.getD [],
    variants := declared ++ [default], default,
    dispatch := t.dispatch.getD m.decl.dispatch }

/-- Resolving a target without a parent fails at the first part that is missing, or else depends on
its variants only. -/
theorem resolveBase_cases (m : Manifest) (t : TargetDecl) :
    (∃ e ∈ [ManifestError.noLayout t.tag, .noDataType t.tag, .noBodyTemplate t.tag,
        .noGeneric t.tag], m.resolveBase t = .error (.manifest e) ∧ ¬ t.IsComplete) ∨
      ∃ layout dataType bodyTemplate generic, t.layout = some layout ∧
        t.dataType = some dataType ∧ t.bodyTemplate = some bodyTemplate ∧
        t.generic = some generic ∧
        let identity : Identity := ⟨m.decl.group, m.decl.op, layout, dataType, m.decl.args⟩
        m.resolveBase t = (expandAll identity t.tag t.variants).map
          (m.baseTarget t identity bodyTemplate generic) := by
  unfold resolveBase
  cases hlayout : t.layout with
  | none => exact .inl ⟨_, by simp, rfl, fun h => by simpa [hlayout] using h.layout⟩
  | some layout =>
    cases hdata : t.dataType with
    | none => exact .inl ⟨_, by simp, rfl, fun h => by simpa [hdata] using h.dataType⟩
    | some dataType =>
      cases hbody : t.bodyTemplate with
      | none => exact .inl ⟨_, by simp, rfl, fun h => by simpa [hbody] using h.bodyTemplate⟩
      | some bodyTemplate =>
        cases hgeneric : t.generic with
        | none => exact .inl ⟨_, by simp, rfl, fun h => by simpa [hgeneric] using h.generic⟩
        | some generic =>
          refine .inr ⟨layout, dataType, bodyTemplate, generic, rfl, rfl, rfl, rfl, ?_⟩
          change (expandAll _ t.tag t.variants).bind _ = _
          cases expandAll _ t.tag t.variants <;> rfl

/-- What a target has from the targets on its way, of which it is the first and `root` the last. -/
structure Inherits (m : Manifest) (chain : List TargetDecl) (root : TargetDecl) (target : Target) :
    Prop where
  tag : chain.head?.map TargetDecl.tag = some target.tag
  output : chain.head?.map (fun t => m.path t.output) = some target.output
  group : target.identity.group = m.decl.group
  op : target.identity.op = m.decl.op
  args : target.identity.args = m.decl.args
  layout : chain.findSome? TargetDecl.layout = some target.identity.layout
  dataType : chain.findSome? TargetDecl.dataType = some target.identity.dataType
  bodyTemplate : chain.findSome? TargetDecl.bodyTemplate = some target.bodyTemplate
  includes : target.includes = (chain.findSome? TargetDecl.includes).getD []
  defines : target.defines = (chain.findSome? TargetDecl.defines).getD []
  dispatch : target.dispatch = (chain.findSome? TargetDecl.dispatch).getD m.decl.dispatch
  default : ∃ generic, root.generic = some generic ∧
    target.default = .fallback target.identity generic.core.names
  variants : ∃ expanded, root.variants.mapM (fun d => d.expand target.identity) = .ok expanded ∧
    target.variants = expanded.flatten ++ [target.default]
  identity : ∀ v ∈ target.variants, v.identity = target.identity

theorem Inherits.of_base {t : TargetDecl} {target : Target} (h : m.resolveBase t = .ok target) :
    m.Inherits [t] t target := by
  rcases resolveBase_cases m t with ⟨e, -, herror, -⟩ |
    ⟨layout, dataType, bodyTemplate, generic, hlayout, hdata, hbody, hgeneric, heq⟩
  · exact nomatch herror.symm.trans h
  rw [heq] at h
  cases hexpand : expandAll ⟨m.decl.group, m.decl.op, layout, dataType, m.decl.args⟩ t.tag
      t.variants with
  | error e => rw [hexpand] at h; exact nomatch h
  | ok declared =>
    rw [hexpand] at h
    obtain rfl := Except.ok.inj h
    obtain ⟨expanded, hexpanded, rfl⟩ := expandAll_eq_ok_iff.mp hexpand
    have hidentity : ∀ v ∈ expanded.flatten,
        v.identity = ⟨m.decl.group, m.decl.op, layout, dataType, m.decl.args⟩ := by
      intro v hv
      have hsame := Except.ok.inj (hexpanded.symm.trans (mapM_expand_withIdentity hexpanded _))
      rw [hsame, ← List.map_flatten] at hv
      obtain ⟨u, -, rfl⟩ := List.mem_map.mp hv
      rfl
    exact {
      tag := rfl
      output := rfl
      group := rfl
      op := rfl
      args := rfl
      layout := by simp [hlayout, baseTarget]
      dataType := by simp [hdata, baseTarget]
      bodyTemplate := by simp [hbody, baseTarget]
      includes := by cases hi : t.includes <;> simp [hi, baseTarget]
      defines := by cases hd : t.defines <;> simp [hd, baseTarget]
      dispatch := by cases hd : t.dispatch <;> simp [hd, baseTarget]
      default := ⟨generic, hgeneric, rfl⟩
      variants := ⟨expanded, hexpanded, rfl⟩
      identity := by
        intro v hv
        rcases List.mem_append.mp hv with hv | hv
        · exact hidentity v hv
        · rw [List.mem_singleton.mp hv]
          rfl }

theorem findSome?_cons_eq_some {α β : Type} {f : α → Option β} {as : List α} {b : β} (a : α)
    (h : as.findSome? f = some b) : (a :: as).findSome? f = some ((f a).getD b) := by
  rw [List.findSome?_cons]
  cases f a with
  | none => exact h
  | some c => rfl

theorem getD_findSome?_cons {α β : Type} (f : α → Option β) (a : α) (as : List α) (b : β) :
    ((a :: as).findSome? f).getD b = (f a).getD ((as.findSome? f).getD b) := by
  rw [List.findSome?_cons]
  cases f a <;> rfl

/-- One derivation: a part that the target declares comes before that of its parent. -/
theorem Inherits.derive {chain : List TargetDecl} {root : TargetDecl} {parent : Target}
    (h : m.Inherits chain root parent) (t : TargetDecl) :
    m.Inherits (t :: chain) root (m.derive parent t) := by
  obtain ⟨generic, hgeneric, hdefault⟩ := h.default
  obtain ⟨expanded, hexpanded, hvariants⟩ := h.variants
  have hrenamed := mapM_expand_withIdentity hexpanded (m.derive parent t).identity
  refine {
    tag := rfl
    output := rfl
    group := h.group
    op := h.op
    args := h.args
    layout := findSome?_cons_eq_some t h.layout
    dataType := findSome?_cons_eq_some t h.dataType
    bodyTemplate := findSome?_cons_eq_some t h.bodyTemplate
    includes := ?_
    defines := ?_
    dispatch := ?_
    default := ⟨generic, hgeneric, ?_⟩
    variants := ⟨_, hrenamed, ?_⟩
    identity := ?_ }
  · rw [getD_findSome?_cons, ← h.includes]
    rfl
  · rw [getD_findSome?_cons, ← h.defines]
    rfl
  · rw [getD_findSome?_cons, ← h.dispatch]
    rfl
  · change parent.default.withIdentity _ = _
    rw [hdefault]
    rfl
  · rw [← List.map_flatten]
    change parent.variants.map _ = _
    rw [hvariants, List.map_append]
    rfl
  · intro v hv
    obtain ⟨u, -, rfl⟩ := List.mem_map.mp hv
    rfl

/-- Derivations one after another, the nearest to the target last. -/
theorem Inherits.foldr_derive {root : TargetDecl} {base : Target}
    (h : m.Inherits [root] root base) (path : List TargetDecl) :
    m.Inherits (path ++ [root]) root (path.foldr (fun t parent => m.derive parent t) base) := by
  induction path with
  | nil => exact h
  | cons t farther ih => exact ih.derive t

theorem exists_resolveBase_iff {t : TargetDecl} :
    (∃ target, m.resolveBase t = .ok target) ↔ t.IsComplete := by
  rcases resolveBase_cases m t with ⟨e, -, herror, hincomplete⟩ |
    ⟨layout, dataType, bodyTemplate, generic, hlayout, hdata, hbody, hgeneric, heq⟩
  · exact iff_of_false (fun ⟨_, htarget⟩ => nomatch herror.symm.trans htarget) hincomplete
  have hexpand : (∃ target, m.resolveBase t = .ok target) ↔ ∃ declared,
      expandAll ⟨m.decl.group, m.decl.op, layout, dataType, m.decl.args⟩ t.tag t.variants =
        .ok declared := by
    rw [heq]
    cases expandAll ⟨m.decl.group, m.decl.op, layout, dataType, m.decl.args⟩ t.tag t.variants with
    | error e => exact iff_of_false (fun ⟨_, h⟩ => by cases h) (fun ⟨_, h⟩ => by cases h)
    | ok declared => exact iff_of_true ⟨_, rfl⟩ ⟨_, rfl⟩
  simp only [hexpand, expandAll_eq_ok_iff, exists_comm, exists_and_left, exists_eq, and_true]
  rw [exists_mapM_eq_ok_iff]
  constructor
  · intro h
    refine ⟨by simp [hlayout], by simp [hdata], by simp [hbody], by simp [hgeneric], ?_⟩
    intro d hd identity
    obtain ⟨vs, hvs⟩ := h d hd
    exact ⟨_, (d.expand_withIdentity _ identity).trans (congrArg _ hvs)⟩
  · intro h d hd
    exact h.variants d hd _

theorem resolveBase_ne_error {e : ManifestError} (he : e.IsDerivation) (t : TargetDecl) :
    m.resolveBase t ≠ .error (.manifest e) := by
  intro h
  rcases resolveBase_cases m t with ⟨e', hmem, herror, -⟩ |
    ⟨layout, dataType, bodyTemplate, generic, -, -, -, -, heq⟩
  · have hfault : Fault.manifest e' = .manifest e := Except.error.inj (herror.symm.trans h)
    obtain rfl : e' = e := Cause.manifest.inj (Fault.mk.inj hfault).2
    simp only [List.mem_cons, List.not_mem_nil, or_false] at hmem
    rcases hmem with rfl | rfl | rfl | rfl <;> exact he
  · rw [heq] at h
    cases hexpand : expandAll ⟨m.decl.group, m.decl.op, layout, dataType, m.decl.args⟩ t.tag
        t.variants with
    | ok declared => rw [hexpand] at h; cases h
    | error f =>
      rw [hexpand] at h
      obtain rfl : f = .manifest e := Except.error.inj h
      exact during_ne_nil_of_expandAll hexpand rfl

theorem result_resolve_eq_error_iff {tag : String} {e : ManifestError} (he : e.IsDerivation) :
    (m.resolve tag).result = .error (.manifest e) ↔
      ∃ path last, m.Climbs tag path last ∧ m.Ends path last (.error e) := by
  rw [← lineage_eq_iff, result_resolve]
  cases m.lineage [] tag with
  | error e' =>
    change Except.error (Fault.manifest e') = .error (.manifest e) ↔ _
    simp [Fault.manifest]
  | ok x =>
    change (m.resolveBase x.2).bind _ = _ ↔ _
    refine iff_of_false (fun h => ?_) nofun
    cases hbase : m.resolveBase x.2 with
    | ok base => rw [hbase] at h; cases h
    | error f =>
      rw [hbase] at h
      obtain rfl : f = .manifest e := Except.error.inj h
      exact resolveBase_ne_error he x.2 hbase

section Resolve
variable {tag : String}

theorem result_resolve_eq_cycle_iff {tags : List String} {again : String} :
    (m.resolve tag).result = .error (.manifest (.derivationCycle tags again)) ↔
      ∃ path, m.Climbs tag path again ∧ tags = path.map TargetDecl.tag ∧ tags.Nodup ∧
        again ∈ tags := by
  have he : (ManifestError.derivationCycle tags again).IsDerivation := trivial
  rw [result_resolve_eq_error_iff he]
  constructor
  · rintro ⟨path, last, hclimbs, hend⟩
    cases hend with
    | cycle fresh passed => exact ⟨path, hclimbs, rfl, fresh, passed⟩
  · rintro ⟨path, hclimbs, rfl, fresh, passed⟩
    exact ⟨path, again, hclimbs, .cycle fresh passed⟩

theorem result_resolve_eq_unknown_iff {last : String} :
    (m.resolve tag).result = .error (.manifest (.unknownTarget last)) ↔
      ∃ path, m.Climbs tag path last ∧ m.target? last = none := by
  have he : (ManifestError.unknownTarget last).IsDerivation := trivial
  rw [result_resolve_eq_error_iff he]
  constructor
  · rintro ⟨path, _, hclimbs, hend⟩
    cases hend with
    | unknown missing => exact ⟨path, hclimbs, missing⟩
  · rintro ⟨path, hclimbs, missing⟩
    exact ⟨path, last, hclimbs, .unknown missing⟩

theorem result_resolve_eq_blocked_iff {last parent : String} :
    (m.resolve tag).result = .error (.manifest (.derivedVariants last parent)) ↔
      ∃ path t, m.Climbs tag path last ∧ m.target? last = some t ∧
        t.deriveFrom = some parent ∧ t.declaresVariants = true := by
  have he : (ManifestError.derivedVariants last parent).IsDerivation := trivial
  rw [result_resolve_eq_error_iff he]
  constructor
  · rintro ⟨path, _, hclimbs, hend⟩
    cases hend with
    | blocked declared derives own => exact ⟨path, _, hclimbs, declared, derives, own⟩
  · rintro ⟨path, t, hclimbs, declared, derives, own⟩
    exact ⟨path, last, hclimbs, .blocked declared derives own⟩

/-- A target is resolved if its way ends at a target that can be. -/
theorem result_resolve_eq_ok_iff_climbs {target : Target} :
    (m.resolve tag).result = .ok target ↔ ∃ path root base, m.Climbs tag path root.tag ∧
      m.target? root.tag = some root ∧ root.deriveFrom = none ∧ m.resolveBase root = .ok base ∧
      target = path.foldr (fun t parent => m.derive parent t) base := by
  rw [result_resolve_eq_ok_iff]
  constructor
  · rintro ⟨derived, root, base, hlineage, hbase, rfl⟩
    obtain ⟨path, last, hclimbs, hend⟩ := lineage_eq_iff.mp hlineage
    cases hend with
    | root declared noParent =>
      obtain rfl := tag_of_target? declared
      exact ⟨derived, root, base, hclimbs, declared, noParent, hbase, rfl⟩
  · rintro ⟨path, root, base, hclimbs, declared, noParent, hbase, rfl⟩
    have hlineage := lineage_eq_iff.mpr ⟨path, root.tag, hclimbs, .root declared noParent⟩
    exact ⟨path, root, base, hlineage, hbase, rfl⟩

theorem exists_result_resolve_iff :
    (∃ target, (m.resolve tag).result = .ok target) ↔
      ∃ path root, m.Climbs tag path root.tag ∧ m.target? root.tag = some root ∧
        root.deriveFrom = none ∧ root.IsComplete := by
  simp only [result_resolve_eq_ok_iff_climbs]
  constructor
  · rintro ⟨_, path, root, base, hclimbs, declared, noParent, hbase, -⟩
    exact ⟨path, root, hclimbs, declared, noParent, exists_resolveBase_iff.mp ⟨base, hbase⟩⟩
  · rintro ⟨path, root, hclimbs, declared, noParent, hcomplete⟩
    obtain ⟨base, hbase⟩ := exists_resolveBase_iff.mpr hcomplete
    exact ⟨_, path, root, base, hclimbs, declared, noParent, hbase, rfl⟩

theorem Climbs.head?_concat {path : List TargetDecl} {root : TargetDecl}
    (h : m.Climbs tag path root.tag) (hroot : m.target? root.tag = some root) :
    (path ++ [root]).head? = m.target? tag := by
  cases h with
  | here => exact hroot.symm
  | up declared derives bare rest => exact declared.symm

theorem inherits_of_result_resolve {target : Target} (h : (m.resolve tag).result = .ok target) :
    ∃ path root, m.Climbs tag path root.tag ∧ m.target? root.tag = some root ∧
      root.deriveFrom = none ∧ (path ++ [root]).head? = m.target? tag ∧
      m.Inherits (path ++ [root]) root target := by
  obtain ⟨path, root, base, hclimbs, declared, noParent, hbase, rfl⟩ :=
    result_resolve_eq_ok_iff_climbs.mp h
  exact ⟨path, root, hclimbs, declared, noParent, hclimbs.head?_concat declared,
    (Inherits.of_base hbase).foldr_derive path⟩

end Resolve

/-- Resolving a target ends, since its way passes no target twice. It fails for a cycle exactly if
the way comes back to a tag, and for an unknown tag or for variants of a derived target exactly if
the way comes to these first. A way that ends at a complete target resolves to what the targets on
it declare, the nearest first. -/
theorem resolve_inherits (m : Manifest) (tag : String) :
    (∃ path last, m.Climbs tag path last ∧ path.length ≤ m.targets.length ∧
      (last ∈ path.map TargetDecl.tag ∨ m.IsTop last)) ∧
    (∀ tags again, (m.resolve tag).result = .error (.manifest (.derivationCycle tags again)) ↔
      ∃ path, m.Climbs tag path again ∧ tags = path.map TargetDecl.tag ∧ tags.Nodup ∧
        again ∈ tags) ∧
    (∀ last, (m.resolve tag).result = .error (.manifest (.unknownTarget last)) ↔
      ∃ path, m.Climbs tag path last ∧ m.target? last = none) ∧
    (∀ last parent, (m.resolve tag).result = .error (.manifest (.derivedVariants last parent)) ↔
      ∃ path t, m.Climbs tag path last ∧ m.target? last = some t ∧
        t.deriveFrom = some parent ∧ t.declaresVariants = true) ∧
    ((∃ target, (m.resolve tag).result = .ok target) ↔
      ∃ path root, m.Climbs tag path root.tag ∧ m.target? root.tag = some root ∧
        root.deriveFrom = none ∧ root.IsComplete) ∧
    ∀ target, (m.resolve tag).result = .ok target →
      ∃ path root, m.Climbs tag path root.tag ∧ m.target? root.tag = some root ∧
        root.deriveFrom = none ∧ (path ++ [root]).head? = m.target? tag ∧
        m.Inherits (path ++ [root]) root target := by
  refine ⟨?_, fun _ _ => result_resolve_eq_cycle_iff, fun _ => result_resolve_eq_unknown_iff,
    fun _ _ => result_resolve_eq_blocked_iff, exists_result_resolve_iff,
    fun _ => inherits_of_result_resolve⟩
  obtain ⟨path, last, r, hclimbs, hlength, hend⟩ := exists_ends m tag
  exact ⟨path, last, hclimbs, hlength, hend.passed_or_isTop⟩

/-- A list that is declared empty counts, and what is inherited from farther away does not. Two
targets that derive from each other are a cycle. -/
theorem resolve_inherits_empty_list :
    let root : TargetDecl :=
      { tag := "a", output := "a.cc", layout := some .chw, dataType := some .fx16,
        bodyTemplate := some "body.txt", includes := some ["a.h"], defines := some ["A"],
        generic := some ⟨.one "pool"⟩,
        variants := [{ core := .one "pool_k3", kernelW := some (.one 3) }] }
    let middle : TargetDecl :=
      { tag := "b", output := "b.cc", dataType := some .sa8, includes := some [],
        deriveFrom := some "a" }
    let leaf : TargetDecl :=
      { tag := "c", output := "c.cc", layout := some .hwc, deriveFrom := some "b" }
    let loop : TargetDecl := { tag := "x", output := "x.cc", deriveFrom := some "y" }
    let back : TargetDecl := { tag := "y", output := "y.cc", deriveFrom := some "x" }
    let m : Manifest := ⟨"kernels",
      { group := "krn", op := .avePool, functionGroup := "pool", args := [],
        fileTemplate := "file.txt", dispatch := { hierarchy := [] },
        targets := [root, middle, leaf, loop, back] }⟩
    (∃ target, (m.resolve "c").result = .ok target ∧ target.includes = [] ∧
      target.defines = ["A"] ∧ target.identity.layout = .hwc ∧
      target.identity.dataType = .sa8) ∧
      (m.resolve "x").result = .error (.manifest (.derivationCycle ["x", "y"] "x")) := by
  intro root middle leaf loop back m
  have hclimbs : m.Climbs "c" [leaf, middle] "a" :=
    .up rfl rfl rfl (.up rfl rfl rfl (.here "a"))
  have hcycle : m.Climbs "x" [loop, back] "x" := .up rfl rfl rfl (.up rfl rfl rfl (.here "x"))
  have hcomplete : root.IsComplete :=
    ⟨rfl, rfl, rfl, rfl, by
      intro d hd identity
      rw [List.mem_singleton.mp hd]
      exact ⟨_, rfl⟩⟩
  obtain ⟨-, hcycles, -, -, -, -⟩ := resolve_inherits m "x"
  obtain ⟨-, -, -, -, hok, hinherits⟩ := resolve_inherits m "c"
  obtain ⟨target, htarget⟩ := hok.mpr ⟨[leaf, middle], root, hclimbs, rfl, rfl, hcomplete⟩
  obtain ⟨path, root', hway, hroot, hbase, -, h⟩ := hinherits target htarget
  have hlineage := lineage_eq_iff.mpr ⟨_, _, hclimbs, .root (t := root) rfl rfl⟩
  obtain ⟨rfl, rfl⟩ := Prod.mk.inj (Except.ok.inj
    (hlineage.symm.trans (lineage_eq_iff.mpr ⟨path, root'.tag, hway, .root hroot hbase⟩)))
  have hlayout : target.identity.layout = .hwc := (Option.some.inj h.layout).symm
  have hdata : target.identity.dataType = .sa8 := (Option.some.inj h.dataType).symm
  refine ⟨⟨target, htarget, h.includes, h.defines, hlayout, hdata⟩, ?_⟩
  exact (hcycles _ _).mpr ⟨[loop, back], hcycle, rfl, by decide, by decide⟩

end Manifest
end KernelDispatch
