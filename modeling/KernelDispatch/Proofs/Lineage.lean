import KernelDispatch.Proofs.Inheritance
import Mathlib.Data.List.Nodup

/-! Where derivations lead, and what a target takes from the targets on the way. -/
namespace KernelDispatch
namespace Manifest

/-- Following derivations from a tag, one passes the targets of a path and comes to the tag `last`.
A target that is passed declares no variants of its own. -/
inductive Climbs (m : Manifest) : String → List TargetDecl → String → Prop
  | here (tag : String) : Climbs m tag [] tag
  | up {tag parent last : String} {t : TargetDecl} {path : List TargetDecl}
      (declared : m.target? tag = some t) (derives : t.deriveFrom = some parent)
      (bare : t.declaresVariants = false) (rest : Climbs m parent path last) :
      Climbs m tag (t :: path) last

/-- No derivation leads on from a tag: it is unknown, or its target derives from no other one, or
has variants of its own. -/
def IsTop (m : Manifest) (tag : String) : Prop :=
  ∀ t parent, m.target? tag = some t → t.deriveFrom = some parent → t.declaresVariants = true

theorem isTop_of_unknown {m : Manifest} {tag : String} (h : m.target? tag = none) :
    m.IsTop tag := fun _ _ ht _ => nomatch h.symm.trans ht

theorem isTop_of_root {m : Manifest} {tag : String} {t : TargetDecl}
    (declared : m.target? tag = some t) (base : t.deriveFrom = none) : m.IsTop tag := by
  intro u _ hu hparent
  obtain rfl := Option.some.inj (declared.symm.trans hu)
  exact nomatch base.symm.trans hparent

theorem isTop_of_blocked {m : Manifest} {tag : String} {t : TargetDecl}
    (declared : m.target? tag = some t) (own : t.declaresVariants = true) : m.IsTop tag := by
  intro u _ hu _
  obtain rfl := Option.some.inj (declared.symm.trans hu)
  exact own

/-- How the way along a path to the tag `last` ends, and the lineage that it makes. -/
inductive Ends (m : Manifest) (path : List TargetDecl) (last : String) :
    Except ManifestError (List TargetDecl × TargetDecl) → Prop
  | cycle (fresh : (path.map TargetDecl.tag).Nodup) (passed : last ∈ path.map TargetDecl.tag) :
      Ends m path last (.error (.derivationCycle (path.map TargetDecl.tag) last))
  | unknown (missing : m.target? last = none) : Ends m path last (.error (.unknownTarget last))
  | blocked {t : TargetDecl} {parent : String} (declared : m.target? last = some t)
      (derives : t.deriveFrom = some parent) (own : t.declaresVariants = true) :
      Ends m path last (.error (.derivedVariants last parent))
  | root {t : TargetDecl} (declared : m.target? last = some t) (base : t.deriveFrom = none) :
      Ends m path last (.ok (path, t))

variable {m : Manifest} {tag last : String} {path : List TargetDecl}

theorem tag_of_target? {t : TargetDecl} (h : m.target? tag = some t) : t.tag = tag := by
  simpa using List.find?_some h

section Lineage
variable {visited : List String}

theorem lineage_of_mem (hv : tag ∈ visited) :
    m.lineage visited tag = .error (.derivationCycle visited tag) := by
  rw [lineage, dif_pos hv]

theorem lineage_of_unknown (hv : tag ∉ visited) (ht : m.target? tag = none) :
    m.lineage visited tag = .error (.unknownTarget tag) := by
  rw [lineage, dif_neg hv]
  split
  · rfl
  · next t h => exact nomatch ht.symm.trans h

theorem lineage_of_target {t : TargetDecl} (hv : tag ∉ visited) (ht : m.target? tag = some t) :
    m.lineage visited tag =
      match t.deriveFrom with
      | none => .ok ([], t)
      | some parent =>
        if t.declaresVariants then .error (.derivedVariants tag parent)
        else (m.lineage (visited ++ [tag]) parent).map fun x => (t :: x.1, x.2) := by
  rw [lineage, dif_neg hv]
  split
  · next h => exact nomatch ht.symm.trans h
  · next u h =>
    obtain rfl := Option.some.inj (ht.symm.trans h)
    cases t.deriveFrom with
    | none => rfl
    | some parent =>
      cases t.declaresVariants with
      | true => rfl
      | false =>
        simp only [Bool.false_eq_true, if_false]
        cases m.lineage (visited ++ [tag]) parent <;> rfl

/-- The lineage of a tag is that of a tag farther up behind the targets that are passed. -/
theorem lineage_of_climbs (h : m.Climbs tag path last)
    (hfresh : (visited ++ path.map TargetDecl.tag).Nodup) :
    m.lineage visited tag = (m.lineage (visited ++ path.map TargetDecl.tag) last).map
      fun x => (path ++ x.1, x.2) := by
  induction h generalizing visited with
  | here tag =>
    rw [List.map_nil, List.append_nil]
    cases m.lineage visited tag <;> rfl
  | @up tag parent last t path declared derives bare rest ih =>
    have htag : t.tag = tag := tag_of_target? declared
    rw [List.map_cons, htag, List.append_cons] at hfresh ⊢
    have hv : tag ∉ visited := by
      intro hmem
      have hdisjoint := (List.nodup_append.mp (List.nodup_append.mp hfresh).1).2.2
      exact hdisjoint tag hmem tag (List.mem_singleton_self tag) rfl
    rw [lineage_of_target hv declared, derives, bare]
    change (m.lineage (visited ++ [tag]) parent).map _ = _
    rw [ih hfresh]
    cases m.lineage (visited ++ [tag] ++ path.map TargetDecl.tag) last <;> rfl

/-- Derivations lead back to a tag that was visited or to one from which nothing leads on. The
induction is that of the lineage, on the targets that are not visited. -/
theorem exists_climbs (m : Manifest) (visited : List String) (tag : String)
    (hvisited : visited.Nodup) :
    ∃ path last, m.Climbs tag path last ∧ (visited ++ path.map TargetDecl.tag).Nodup ∧
      (last ∈ visited ++ path.map TargetDecl.tag ∨ m.IsTop last) := by
  have hhere : (visited ++ [].map TargetDecl.tag).Nodup := by simpa using hvisited
  induction visited, tag using lineage.induct m with
  | case1 visited tag hv => exact ⟨[], tag, .here tag, hhere, .inl (by simpa using hv)⟩
  | case2 visited tag hv ht => exact ⟨[], tag, .here tag, hhere, .inr (isTop_of_unknown ht)⟩
  | case3 visited tag hv t ht hbase =>
    exact ⟨[], tag, .here tag, hhere, .inr (isTop_of_root ht hbase)⟩
  | case4 visited tag hv t ht parent hparent hown =>
    exact ⟨[], tag, .here tag, hhere, .inr (isTop_of_blocked ht hown)⟩
  | case5 visited tag hv t ht parent hparent hbare hlt ih =>
    have hmore : (visited ++ [tag]).Nodup := by
      refine List.nodup_append.mpr ⟨hvisited, List.nodup_singleton tag, ?_⟩
      rintro a ha b hb rfl
      exact hv (List.mem_singleton.mp hb ▸ ha)
    obtain ⟨path, last, hclimbs, hfresh, hend⟩ := ih hmore (by simpa using hmore)
    rw [← tag_of_target? ht, ← List.append_cons, ← List.map_cons] at hfresh hend
    exact ⟨t :: path, last, .up ht hparent (Bool.eq_false_iff.mpr hbare) hclimbs, hfresh, hend⟩

end Lineage

theorem Climbs.subset_targets (h : m.Climbs tag path last) : path ⊆ m.targets := by
  induction h with
  | here tag => exact List.nil_subset _
  | up declared derives bare rest ih =>
    exact List.cons_subset.mpr ⟨List.mem_of_find?_eq_some declared, ih⟩

/-- A tag from which nothing leads on is reached on one way only. -/
theorem Climbs.eq_of_isTop {path' : List TargetDecl} (h : m.Climbs tag path last)
    (h' : m.Climbs tag path' last) (htop : m.IsTop last) : path = path' := by
  induction h generalizing path' with
  | here tag =>
    cases h' with
    | here => rfl
    | up declared derives bare rest =>
      exact nomatch bare.symm.trans (htop _ _ declared derives)
  | up declared derives bare rest ih =>
    cases h' with
    | here => exact nomatch bare.symm.trans (htop _ _ declared derives)
    | up declared' derives' bare' rest' =>
      obtain rfl := Option.some.inj (declared.symm.trans declared')
      obtain rfl := Option.some.inj (derives.symm.trans derives')
      rw [ih rest' htop]

/-- The way from a tag that is passed is the rest of the way. -/
theorem Climbs.exists_rest {passed : String} (h : m.Climbs tag path last)
    (hpassed : passed ∈ path.map TargetDecl.tag ++ [last]) :
    ∃ rest, rest <:+ path ∧ m.Climbs passed rest last := by
  induction h with
  | here tag =>
    obtain rfl := List.mem_singleton.mp hpassed
    exact ⟨[], List.suffix_rfl, .here _⟩
  | up declared derives bare rest ih =>
    rw [List.map_cons, List.cons_append, List.mem_cons, tag_of_target? declared] at hpassed
    rcases hpassed with rfl | hpassed
    · exact ⟨_, List.suffix_rfl, .up declared derives bare rest⟩
    · obtain ⟨more, hsuffix, hmore⟩ := ih hpassed
      exact ⟨more, hsuffix.trans (List.suffix_cons _ _), hmore⟩

/-- The way to a tag from which nothing leads on passes no tag twice: from a tag that it passes
again the rest of the way would be as long as the whole. -/
theorem Climbs.nodup_of_isTop (h : m.Climbs tag path last) (htop : m.IsTop last) :
    (path.map TargetDecl.tag ++ [last]).Nodup := by
  induction h with
  | here tag => exact List.nodup_singleton tag
  | up declared derives bare rest ih =>
    rw [List.map_cons, List.cons_append, tag_of_target? declared]
    refine List.nodup_cons.mpr ⟨fun hmem => ?_, ih htop⟩
    obtain ⟨more, hsuffix, hmore⟩ := rest.exists_rest hmem
    have hlength := hsuffix.length_le
    rw [hmore.eq_of_isTop (.up declared derives bare rest) htop, List.length_cons] at hlength
    omega

theorem lineage_of_isTop (h : m.Climbs tag path last) (htop : m.IsTop last) :
    m.lineage [] tag = (m.lineage (path.map TargetDecl.tag) last).map
        (fun x => (path ++ x.1, x.2)) ∧
      last ∉ path.map TargetDecl.tag := by
  obtain ⟨hfresh, -, hdisjoint⟩ := List.nodup_append.mp (h.nodup_of_isTop htop)
  refine ⟨lineage_of_climbs h hfresh, fun hmem => ?_⟩
  exact hdisjoint last hmem last (List.mem_singleton_self last) rfl

theorem Ends.passed_or_isTop {r : Except ManifestError (List TargetDecl × TargetDecl)}
    (h : m.Ends path last r) : last ∈ path.map TargetDecl.tag ∨ m.IsTop last := by
  cases h with
  | cycle fresh passed => exact .inl passed
  | unknown missing => exact .inr (isTop_of_unknown missing)
  | blocked declared derives own => exact .inr (isTop_of_blocked declared own)
  | root declared base => exact .inr (isTop_of_root declared base)

theorem Ends.lineage_eq {r : Except ManifestError (List TargetDecl × TargetDecl)}
    (h : m.Ends path last r) (hclimbs : m.Climbs tag path last) : m.lineage [] tag = r := by
  cases h with
  | cycle fresh passed =>
    have hlineage : m.lineage [] tag =
        (m.lineage (path.map TargetDecl.tag) last).map fun x => (path ++ x.1, x.2) :=
      lineage_of_climbs hclimbs fresh
    rw [hlineage, lineage_of_mem passed]
    rfl
  | unknown missing =>
    obtain ⟨hlineage, hlast⟩ := lineage_of_isTop hclimbs (isTop_of_unknown missing)
    rw [hlineage, lineage_of_unknown hlast missing]
    rfl
  | @blocked t parent declared derives own =>
    obtain ⟨hlineage, hlast⟩ := lineage_of_isTop hclimbs (isTop_of_blocked declared own)
    rw [hlineage, lineage_of_target hlast declared, derives, own]
    rfl
  | @root t declared base =>
    obtain ⟨hlineage, hlast⟩ := lineage_of_isTop hclimbs (isTop_of_root declared base)
    rw [hlineage, lineage_of_target hlast declared, base]
    change Except.ok (path ++ [], t) = _
    rw [List.append_nil]

/-- Every way ends. It passes no target twice. -/
theorem exists_ends (m : Manifest) (tag : String) :
    ∃ path last r, m.Climbs tag path last ∧ path.length ≤ m.targets.length ∧
      m.Ends path last r := by
  obtain ⟨path, last, hclimbs, hfresh, hend⟩ := exists_climbs m [] tag List.nodup_nil
  rw [List.nil_append] at hfresh hend
  have hlength := (List.subperm_of_subset (List.Nodup.of_map _ hfresh)
    hclimbs.subset_targets).length_le
  suffices h : ∃ r, m.Ends path last r from
    h.elim fun r hr => ⟨path, last, r, hclimbs, hlength, hr⟩
  rcases hend with hpassed | htop
  · exact ⟨_, .cycle hfresh hpassed⟩
  cases ht : m.target? last with
  | none => exact ⟨_, .unknown ht⟩
  | some t =>
    cases hparent : t.deriveFrom with
    | none => exact ⟨_, .root ht hparent⟩
    | some parent => exact ⟨_, .blocked ht hparent (htop t parent ht hparent)⟩

/-- The lineage of a tag is what the end of its way makes it. -/
theorem lineage_eq_iff {r : Except ManifestError (List TargetDecl × TargetDecl)} :
    m.lineage [] tag = r ↔ ∃ path last, m.Climbs tag path last ∧ m.Ends path last r := by
  refine ⟨?_, fun ⟨path, last, hclimbs, hend⟩ => hend.lineage_eq hclimbs⟩
  rintro rfl
  obtain ⟨path, last, r, hclimbs, -, hend⟩ := exists_ends m tag
  exact ⟨path, last, hclimbs, hend.lineage_eq hclimbs ▸ hend⟩

end Manifest
end KernelDispatch
