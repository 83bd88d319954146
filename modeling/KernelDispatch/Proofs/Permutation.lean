import KernelDispatch.Plan.Dispatch
import KernelDispatch.Proofs.Level
import Mathlib

/-! The same variants declared in another order. Every level presents the same keys in the same
order, so the order of declaration counts only where a class has several variants. -/
namespace KernelDispatch

section Permuted
variable {p : Param} {hierarchy : List Param} {us vs : List Variant} {c d : List Variant}

theorem levelKeys_perm (h : us.Perm vs) (p : Param) : levelKeys p us = levelKeys p vs := by
  refine BranchKey.eq_of_mem_iff (pairwise_levelKeys p us) (pairwise_levelKeys p vs) fun k => ?_
  simp only [mem_levelKeys, h.mem_iff]

/-- The classes are met in the same order, each with the same variants. -/
theorem classes_perm (h : us.Perm vs) (hierarchy : List Param) :
    List.Forall₂ List.Perm (classes hierarchy us) (classes hierarchy vs) := by
  induction hierarchy generalizing us vs with
  | nil =>
    by_cases hus : us = []
    · obtain rfl := hus
      rw [List.nil_perm.mp h]
      exact .nil
    · have hvs : vs ≠ [] := fun hvs => hus (List.perm_nil.mp (hvs ▸ h))
      rw [classes_nil hus, classes_nil hvs]
      exact .cons h .nil
  | cons p rest ih =>
    rw [classes_cons, classes_cons, flatMap_partition (classes rest),
      flatMap_partition (classes rest), levelKeys_perm h p]
    refine List.rel_flatMap (List.forall₂_same.mpr fun _ _ => rfl) ?_
    rintro k _ rfl
    exact ih (h.filter _)

theorem inseparable_of_mem_classes (hc : c ∈ classes hierarchy us) {u v : Variant} (hu : u ∈ c)
    (hv : v ∈ c) : Inseparable hierarchy u v := by
  obtain ⟨w, -, rfl⟩ := mem_classes.mp hc
  intro p hp
  exact ((mem_classOf.mp hu).2 p hp).trans ((mem_classOf.mp hv).2 p hp).symm

theorem Variant.path_eq_of_inseparable {u v : Variant} (h : Inseparable hierarchy u v) :
    u.path hierarchy = v.path hierarchy :=
  List.map_congr_left fun p hp => congrArg (BranchKey.label p) (h p hp)

theorem admitsEveryPadding_perm (h : c.Perm d) :
    admitsEveryPadding hierarchy c = admitsEveryPadding hierarchy d := by
  rw [admitsEveryPadding, admitsEveryPadding, h.all_eq]

/-- Two errors on the same variants, left together at one path in some order. -/
def SameLeaf (e f : ConfigError) : Prop :=
  ∃ path names names', e = .unresolvedPartition path names ∧
    f = .unresolvedPartition path names' ∧ names.Perm names'

theorem unresolved_perm (hc : ∀ u ∈ c, ∀ v ∈ c, Inseparable hierarchy u v) (h : c.Perm d) :
    Option.Rel SameLeaf (unresolved hierarchy c) (unresolved hierarchy d) := by
  match c, d, hc, h with
  | [], d, _, h =>
    obtain rfl := List.nil_perm.mp h
    exact .none
  | [u], d, _, h =>
    obtain rfl := List.singleton_perm.mp h
    exact .none
  | u :: u' :: us, [], _, h => exact absurd h.length_eq (by simp)
  | u :: u' :: us, [v], _, h => exact absurd h.length_eq (by simp)
  | u :: u' :: us, v :: v' :: vs, hc, h =>
    have hpath : u.path hierarchy = v.path hierarchy :=
      Variant.path_eq_of_inseparable
        (hc u List.mem_cons_self v (h.mem_iff.mpr List.mem_cons_self))
    rw [unresolved, unresolved, admitsEveryPadding_perm h, hpath]
    split_ifs
    · exact .none
    · exact .some ⟨_, _, _, rfl, rfl, h.map Variant.symbol⟩

theorem length_classes_perm (h : us.Perm vs) (hierarchy : List Param) :
    (classes hierarchy us).map List.length = (classes hierarchy vs).map List.length := by
  rw [← List.forall₂_eq_eq_eq, List.forall₂_map_left_iff, List.forall₂_map_right_iff]
  exact (classes_perm h hierarchy).imp fun _ _ hcd => hcd.length_eq

/-- The errors of the classes are the same, and are met in the same order. -/
theorem filterMap_unresolved_perm (h : us.Perm vs) (hierarchy : List Param) :
    List.Forall₂ SameLeaf ((classes hierarchy us).filterMap (unresolved hierarchy))
      ((classes hierarchy vs).filterMap (unresolved hierarchy)) := by
  have hsame : List.Forall₂ (fun c d => (∀ u ∈ c, ∀ v ∈ c, Inseparable hierarchy u v) ∧ c.Perm d)
      (classes hierarchy us) (classes hierarchy vs) :=
    (List.forall₂_and_left _ _).mpr
      ⟨fun c hc u hu v hv => inseparable_of_mem_classes hc hu hv, classes_perm h hierarchy⟩
  exact List.rel_filterMap (fun c d hcd => unresolved_perm hcd.1 hcd.2) hsame

/-- Where two variants are left together, the tree fails or hides one of them. -/
theorem length_le_one_iff :
    c.length ≤ 1 ↔ unresolved hierarchy c = none ∧ ambiguity hierarchy c = none := by
  match c with
  | [] => simp [unresolved, ambiguity]
  | [_] => simp [unresolved, ambiguity]
  | first :: second :: others =>
    cases hany : admitsEveryPadding hierarchy (first :: second :: others) <;>
      simp [unresolved, ambiguity, hany]

end Permuted

namespace Tree
variable {hierarchy : List Param} {us vs : List Variant}

/-- A tree that is built without findings has no two variants at one leaf. -/
theorem length_le_one_of_result_plan (h : .padding ∉ hierarchy.dropLast) {default : Variant}
    {p : Plan} (hp : (plan vs hierarchy default).result = .ok p) (hfindings : p.findings = []) :
    ∀ c ∈ classes hierarchy vs, c.length ≤ 1 := by
  rw [findings_of_result_plan h hp, List.filterMap_eq_nil_iff] at hfindings
  exact fun c hc => length_le_one_iff.mpr ⟨unresolved_eq_none h hp c hc, hfindings c hc⟩

theorem result_plan_of_length_le_one (h : .padding ∉ hierarchy.dropLast) (default : Variant)
    (hclasses : ∀ c ∈ classes hierarchy vs, c.length ≤ 1) :
    (plan vs hierarchy default).result = .ok ⟨node default hierarchy vs, []⟩ := by
  have hnone : ∀ c ∈ classes hierarchy vs,
      unresolved hierarchy c = none ∧ ambiguity hierarchy c = none :=
    fun c hc => length_le_one_iff.mp (hclasses c hc)
  rw [result_plan h, List.findSome?_eq_none_iff.mpr fun c hc => (hnone c hc).1,
    List.filterMap_eq_nil_iff.mpr fun c hc => (hnone c hc).2]

/-- A tree over variants that the hierarchy separates does not depend on the order in which they
are declared. -/
theorem node_perm (h : .padding ∉ hierarchy.dropLast) (default : Variant) (hperm : us.Perm vs)
    (hclasses : ∀ c ∈ classes hierarchy us, c.length ≤ 1) :
    node default hierarchy us = node default hierarchy vs := by
  induction hierarchy generalizing us vs with
  | nil =>
    cases us with
    | nil => rw [List.nil_perm.mp hperm]
    | cons u rest =>
      rw [classes_nil (List.cons_ne_nil u rest)] at hclasses
      have hlength : rest.length + 1 ≤ 1 := hclasses _ List.mem_cons_self
      obtain rfl : rest = [] := List.eq_nil_of_length_eq_zero (by omega)
      rw [List.singleton_perm.mp hperm]
  | cons p rest ih =>
    rw [node_cons_levelKeys h, node_cons_levelKeys h, levelKeys_perm hperm p]
    congr 1
    refine List.map_congr_left fun k hk => congrArg (k, ·) ?_
    refine ih (padding_notMem_dropLast h).1 (hperm.filter _) fun c hc => hclasses c ?_
    rw [classes_cons, flatMap_partition (classes rest), levelKeys_perm hperm p]
    exact List.mem_flatMap.mpr ⟨k, hk, hc⟩

/-- A tree without findings is the same in whatever order the variants are declared. A tree that
cannot be built fails in every order, at the same path and for the same variants. -/
theorem plan_perm {variants variants' : List Variant} (hperm : variants.Perm variants')
    (hh : requireHierarchy hierarchy = .ok ()) (default : Variant) :
    (∀ p, (plan variants hierarchy default).result = .ok p → p.findings = [] →
      (plan variants' hierarchy default).result = .ok p) ∧
    ∀ e, (plan variants hierarchy default).result = .error e →
      ∃ path names names', e = .unresolvedPartition path names ∧
        (plan variants' hierarchy default).result = .error (.unresolvedPartition path names') ∧
        names.Perm names' := by
  have h := (requireHierarchy_eq_ok_iff.mp hh).2
  constructor
  · intro p hp hfindings
    have hsingle := length_le_one_of_result_plan h hp hfindings
    have hsingle' : ∀ c ∈ classes hierarchy variants', c.length ≤ 1 := by
      have hall : ∀ n ∈ (classes hierarchy variants').map List.length, n ≤ 1 := by
        rw [← length_classes_perm hperm hierarchy]
        exact List.forall_mem_map.mpr hsingle
      exact List.forall_mem_map.mp hall
    rw [result_plan_of_length_le_one h default hsingle] at hp
    rw [result_plan_of_length_le_one h default hsingle', ← node_perm h default hperm hsingle, hp]
  · intro e he
    have hfaults := filterMap_unresolved_perm hperm hierarchy
    simp only [result_plan_eq_error_iff h, ← List.head?_filterMap] at he ⊢
    generalize (classes hierarchy variants).filterMap (unresolved hierarchy) = faults,
      (classes hierarchy variants').filterMap (unresolved hierarchy) = faults' at he hfaults ⊢
    cases hfaults with
    | nil => exact nomatch he
    | cons hleaf _ =>
      obtain ⟨path, names, names', rfl, rfl, hnames⟩ := hleaf
      exact ⟨path, names, names', (Option.some.inj he).symm, rfl, hnames⟩

/-- Three variants with a test each have one tree. `point` and `unpadded` ask for the same padding,
which is an error in either order. -/
theorem plan_perm_reverse :
    let identity : Identity := ⟨"krn", .avePool, .chw, .fx16, []⟩
    let same : Variant :=
      { identity, kernelW := 3, kernelH := 3, strideW := 1, strideH := 1, padding := .krnPad }
    let valid : Variant := { identity, kernelW := 3, padding := .noPad }
    let wide : Variant := { identity, strideW := 1 }
    let point : Variant :=
      { identity, kernelW := 1, kernelH := 1, strideW := 1, strideH := 1, padding := .krnPad }
    let unpadded : Variant := { identity, kernelW := 1, padding := .noPad }
    let default : Variant := .fallback identity []
    let hierarchy : List Param := [.field .kernelW, .padding]
    let p : Plan := ⟨node default hierarchy [same, valid, wide], []⟩
    let path := "kernel_w=1/padding:(padding_top == 0) && (padding_bot == 0) && " ++
      "(padding_left == 0) && (padding_right == 0)"
    requireHierarchy hierarchy = .ok () ∧ [same, valid, wide].Perm [wide, valid, same] ∧
      (plan [wide, valid, same] hierarchy default).result = .ok p ∧
      [point, unpadded].Perm [unpadded, point] ∧
      ∃ names, (plan [unpadded, point] hierarchy default).result =
          .error (.unresolvedPartition path names) ∧
        [point.symbol, unpadded.symbol].Perm names := by
  intro identity same valid wide point unpadded default hierarchy p path
  have hh : requireHierarchy hierarchy = .ok () := by decide
  have hperm : [same, valid, wide].Perm [wide, valid, same] :=
    List.reverse_perm [wide, valid, same]
  have hpair : [point, unpadded].Perm [unpadded, point] := List.Perm.swap unpadded point []
  have hstops : stops [] hierarchy [same, valid, wide] =
      [.leaf ["kernel_w=3", "padding:(padding_top == 0) && (padding_bot == 0) && " ++
          "(padding_left == 0) && (padding_right == 0)"] [valid],
        .leaf ["kernel_w=3", "padding:(padding_top == 1) && (padding_bot == 1) && " ++
          "(padding_left == 1) && (padding_right == 1)"] [same],
        .leaf ["kernel_w=*", "padding=*"] [wide]] := by
    cbv
  have hp : (plan [same, valid, wide] hierarchy default).result = .ok p := by
    rw [plan, hstops]
    rfl
  have hstop : stops [] hierarchy [point, unpadded] =
      [.leaf ["kernel_w=1", "padding:(padding_top == 0) && (padding_bot == 0) && " ++
          "(padding_left == 0) && (padding_right == 0)"] [point, unpadded]] := by
    cbv
  have he : (plan [point, unpadded] hierarchy default).result =
      .error (.unresolvedPartition path [point.symbol, unpadded.symbol]) := by
    rw [plan, hstop]
    rfl
  have hsame := (plan_perm hperm hh default).1 p hp rfl
  obtain ⟨path', names, names', hnames, herror, hnamesPerm⟩ := (plan_perm hpair hh default).2 _ he
  obtain ⟨rfl, rfl⟩ := ConfigError.unresolvedPartition.inj hnames
  exact ⟨hh, hperm, hsame, hpair, names', herror, hnamesPerm⟩

end Tree
end KernelDispatch
