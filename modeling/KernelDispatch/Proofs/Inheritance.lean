import KernelDispatch.Manifest.Resolve
import Mathlib

/-! What a target takes from the targets that it derives from. -/
namespace KernelDispatch.Manifest

/-- A lineage starts with a declared target and goes on, unless the target has no parent, with the
lineage of the parent. -/
theorem lineage_eq_ok_iff {m : Manifest} {visited : List String} {tag : String}
    {derived : List TargetDecl} {base : TargetDecl} :
    m.lineage visited tag = .ok (derived, base) ↔ tag ∉ visited ∧ ∃ t, m.target? tag = some t ∧
      (t.deriveFrom = none ∧ derived = [] ∧ base = t ∨
        ∃ parent farther, t.deriveFrom = some parent ∧ t.declaresVariants = false ∧
          m.lineage (visited ++ [tag]) parent = .ok (farther, base) ∧ derived = t :: farther) := by
  rw [lineage]
  split_ifs with hv
  · exact iff_of_false not_false fun h => h.1 hv
  rw [and_iff_right hv]
  split
  · next ht => simp [ht]
  · next t ht =>
    simp only [ht, Option.some.injEq, exists_eq_left']
    cases hparent : t.deriveFrom with
    | none => simp [@eq_comm _ base t]
    | some parent =>
      cases hown : t.declaresVariants with
      | true => simp
      | false =>
        cases hrest : m.lineage (visited ++ [tag]) parent with
        | error e => simp [bind, Except.bind, hrest]
        | ok x =>
          simp [bind, Except.bind, pure, Except.pure, hrest, Prod.ext_iff, eq_comm, and_comm]

/-- What was visited before does not matter to a lineage that is not a cycle. -/
theorem lineage_of_subset {m : Manifest} {visited visited' : List String} {tag : String}
    {derived : List TargetDecl} {base : TargetDecl} (hsub : visited ⊆ visited')
    (h : m.lineage visited' tag = .ok (derived, base)) :
    m.lineage visited tag = .ok (derived, base) := by
  induction derived generalizing visited visited' tag with
  | nil =>
    rw [lineage_eq_ok_iff] at h ⊢
    obtain ⟨hv, t, ht, ⟨hnone, -, hbase⟩ | ⟨_, _, _, _, _, hcons⟩⟩ := h
    · exact ⟨fun hmem => hv (hsub hmem), t, ht, .inl ⟨hnone, rfl, hbase⟩⟩
    · exact nomatch hcons
  | cons d farther ih =>
    rw [lineage_eq_ok_iff] at h ⊢
    obtain ⟨hv, t, ht, ⟨_, hnil, _⟩ | ⟨parent, _, hparent, hown, hfarther, hcons⟩⟩ := h
    · exact nomatch hnil
    · obtain ⟨rfl, rfl⟩ := List.cons.inj hcons
      have hmore : visited ++ [tag] ⊆ visited' ++ [tag] :=
        List.append_subset.mpr
          ⟨List.subset_append_of_subset_left _ hsub, List.subset_append_right _ _⟩
      exact ⟨fun hmem => hv (hsub hmem), d, ht,
        .inr ⟨parent, farther, hparent, hown, ih hmore hfarther, rfl⟩⟩

theorem result_deriveAll (m : Manifest) (base : Target) (derived : List TargetDecl) :
    (m.deriveAll base derived).result =
      .ok (derived.foldr (fun t parent => m.derive parent t) base) := by
  induction derived with
  | nil => rfl
  | cons t farther ih =>
    rw [deriveAll, Reported.result_bind, ih]
    rfl

theorem result_resolve (m : Manifest) (tag : String) :
    (m.resolve tag).result = ((m.lineage [] tag).mapError .manifest).bind fun x =>
      (m.resolveBase x.2).bind fun root =>
        .ok (x.1.foldr (fun t parent => m.derive parent t) root) := by
  rw [resolve, Reported.result_bind, Reported.result_ofExcept]
  cases m.lineage [] tag with
  | error e => rfl
  | ok x =>
    change (Reported.ofExcept (m.resolveBase x.2) >>= fun resolved => do
      reportResolved resolved
      m.deriveAll resolved x.1).result = (m.resolveBase x.2).bind _
    rw [Reported.result_bind, Reported.result_ofExcept]
    cases m.resolveBase x.2 with
    | error e => rfl
    | ok root =>
      change (reportResolved root >>= fun _ => m.deriveAll root x.1).result = _
      rw [Reported.result_bind, result_deriveAll]
      rfl

/-- A target is resolved by applying the declarations of its lineage to the target at its end. -/
theorem result_resolve_eq_ok_iff {m : Manifest} {tag : String} {target : Target} :
    (m.resolve tag).result = .ok target ↔ ∃ derived base root,
      m.lineage [] tag = .ok (derived, base) ∧ m.resolveBase base = .ok root ∧
        target = derived.foldr (fun t parent => m.derive parent t) root := by
  rw [result_resolve]
  cases m.lineage [] tag with
  | error e => exact iff_of_false nofun fun ⟨_, _, _, h, _⟩ => nomatch h
  | ok x =>
    cases hroot : m.resolveBase x.2 with
    | error e => simp [Except.mapError, Except.bind, Prod.ext_iff, hroot]
    | ok root => simp [Except.mapError, Except.bind, Prod.ext_iff, hroot, eq_comm]

/-- A target that derives from another one is made from it by its own declarations. -/
theorem exists_resolve_parent {m : Manifest} {tag parent : String} {t : TargetDecl}
    {target : Target} (ht : m.target? tag = some t) (hparent : t.deriveFrom = some parent)
    (h : (m.resolve tag).result = .ok target) :
    ∃ base, (m.resolve parent).result = .ok base ∧ target = m.derive base t := by
  obtain ⟨derived, last, root, hlineage, hroot, rfl⟩ := result_resolve_eq_ok_iff.mp h
  obtain ⟨-, u, hu, ⟨hnone, -⟩ | ⟨parent', farther, hparent', -, hfarther, rfl⟩⟩ :=
    lineage_eq_ok_iff.mp hlineage
  · obtain rfl := Option.some.inj (ht.symm.trans hu)
    rw [hparent] at hnone
    exact nomatch hnone
  · obtain rfl := Option.some.inj (ht.symm.trans hu)
    obtain rfl := Option.some.inj (hparent.symm.trans hparent')
    have hshort := lineage_of_subset (List.nil_subset _) hfarther
    exact ⟨_, result_resolve_eq_ok_iff.mpr ⟨farther, last, root, hshort, hroot, rfl⟩, rfl⟩

end KernelDispatch.Manifest
