import KernelDispatch.Plan.Dispatch
import KernelDispatch.Proofs.Insertion
import Mathlib

/-! The calls of a tree in the order in which they are written. They are the variants as a flat
chain orders them, without those that an ambiguous group hides, and the default where no variant is
left. -/
namespace KernelDispatch

/-- The variants of a class that a tree shows. Of those that admit every padding at a level of
paddings it is the first. -/
def visible (hierarchy : List Param) (c : List Variant) : List Variant :=
  if admitsEveryPadding hierarchy c then c.take 1 else c

/-- The variants of a class behind the one that a tree shows. -/
def hidden (hierarchy : List Param) (c : List Variant) : List Variant :=
  if admitsEveryPadding hierarchy c then c.drop 1 else []

/-- The symbols that a finding gives of variants hidden at a level of paddings. -/
def Finding.shadowed : Finding → List String
  | .ambiguousPadding _ _ shadowed => shadowed
  | .unreachable _ _ => []

namespace Tree

/-- The calls of a tree as they are written. There is no variant for the call that ends a level
without a group of the wildcard, nor for the call at a leaf without variants. -/
def calls : List Param → List Variant → List (Option Variant)
  | [], vs => [vs.head?]
  | p :: rest, vs =>
    ((partition p vs).flatMap fun g => calls rest g.members)
      ++ if (partition p vs).any fun g => g.key.isWildcard then [] else [none]

theorem targets_ofBranches (default : Variant) (p : Param) {branches : List (BranchKey × Node)}
    (h : branches.Pairwise fun a _ => a.1.isWildcard = false) :
    (ofBranches default p branches).targets = (branches.flatMap fun b => b.2.targets)
      ++ if branches.any fun b => b.1.isWildcard then [] else [default] := by
  induction branches with
  | nil => rfl
  | cons b rest ih =>
    obtain ⟨hb, hrest⟩ := List.pairwise_cons.mp h
    cases hw : b.1.isWildcard with
    | true =>
      have hnil : rest = [] := by
        refine List.eq_nil_iff_forall_not_mem.mpr fun c hc => ?_
        rw [hb c hc] at hw
        exact Bool.noConfusion hw
      simp [hnil, hw, ofBranches, Arms.ofList, Node.targets, Arms.targets]
    | false =>
      have hstep : (ofBranches default p (b :: rest)).targets =
          b.2.targets ++ (ofBranches default p rest).targets := by
        simp [hw, ofBranches, Arms.ofList, Node.targets, Arms.targets]
      rw [hstep, ih hrest, List.flatMap_cons, List.any_cons, hw, Bool.false_or, List.append_assoc]

theorem targets_node {hierarchy : List Param} (h : .padding ∉ hierarchy.dropLast)
    (default : Variant) (vs : List Variant) :
    (node default hierarchy vs).targets = (calls hierarchy vs).map fun c => c.getD default := by
  induction hierarchy generalizing vs with
  | nil => cases vs <;> rfl
  | cons p rest ih =>
    have hlast : ((levelKeys p vs).map fun k => (k, node default rest (withKey p vs k))).Pairwise
        fun a _ => a.1.isWildcard = false :=
      List.pairwise_map.mpr ((pairwise_levelKeys p vs).imp BranchKey.isWildcard_of_before)
    have hbelow : ∀ ms, (node default rest ms).targets =
        (calls rest ms).map fun c => c.getD default := ih (padding_notMem_dropLast h).1
    rw [node_cons_levelKeys h, targets_ofBranches default p hlast, calls,
      flatMap_partition (calls rest), List.flatMap_map, List.map_append, List.map_flatMap]
    simp only [hbelow, List.any_map, levelKeys, Function.comp_def]
    congr 1
    split_ifs <;> rfl

theorem reduceOption_calls (hierarchy : List Param) (vs : List Variant) :
    (calls hierarchy vs).reduceOption = (classes hierarchy vs).filterMap List.head? := by
  induction hierarchy generalizing vs with
  | nil =>
    cases vs with
    | nil => rfl
    | cons v rest =>
      rw [classes_nil (List.cons_ne_nil v rest)]
      rfl
  | cons p rest ih =>
    have hinserted : (if (partition p vs).any fun g => g.key.isWildcard then []
        else [(none : Option Variant)]).reduceOption = [] := by
      split_ifs <;> rfl
    rw [calls, List.reduceOption_append, hinserted, List.append_nil, classes_cons,
      List.filterMap_flatMap, List.reduceOption, List.filterMap_flatMap]
    exact List.flatMap_congr fun g _ => ih g.members

theorem hidden_eq {hierarchy : List Param} {c : List Variant}
    (h : unresolved hierarchy c = none) :
    c.head?.toList = visible hierarchy c ∧
      (ambiguity hierarchy c).toList.flatMap Finding.shadowed =
        (hidden hierarchy c).map Variant.symbol := by
  match c with
  | [] => simp [visible, hidden, ambiguity]
  | [first] => simp [visible, hidden, ambiguity]
  | first :: second :: others =>
    have hany : admitsEveryPadding hierarchy (first :: second :: others) = true := by
      simpa [unresolved] using h
    simp [visible, hidden, ambiguity, hany, Finding.shadowed]

end Tree

/-- The classes of inseparable variants, one after the other, are the variants as a flat chain
orders them. -/
theorem flatten_classes (hierarchy : List Param) (vs : List Variant) :
    (classes hierarchy vs).flatten = Flat.order hierarchy vs := by
  induction hierarchy generalizing vs with
  | nil =>
    cases vs with
    | nil => rfl
    | cons v rest =>
      rw [classes_nil (List.cons_ne_nil v rest), List.flatten_singleton, Flat.order]
  | cons p rest ih =>
    rw [← List.flatMap_id, classes_cons, List.flatMap_assoc, Flat.order]
    refine List.flatMap_congr fun g _ => ?_
    rw [List.flatMap_id, ih]

/-- The calls of a tree are the variants as a flat chain orders them, without all but the first of
every class that admits every padding at a level of paddings. The findings name the variants that
are left out, in order. No variant is lost or called twice. -/
theorem Tree.plan_calls_order {variants : List Variant} {hierarchy : List Param}
    {default : Variant} {p : Plan} (hh : requireHierarchy hierarchy = .ok ())
    (hp : (plan variants hierarchy default).result = .ok p) :
    p.root.targets = (calls hierarchy variants).map (fun c => c.getD default) ∧
      (classes hierarchy variants).flatten = Flat.order hierarchy variants ∧
      (calls hierarchy variants).reduceOption =
        (classes hierarchy variants).flatMap (visible hierarchy) ∧
      p.findings.flatMap Finding.shadowed =
        ((classes hierarchy variants).flatMap (hidden hierarchy)).map Variant.symbol ∧
      ((classes hierarchy variants).flatMap (visible hierarchy)
        ++ (classes hierarchy variants).flatMap (hidden hierarchy)).Perm variants := by
  have h := (requireHierarchy_eq_ok_iff.mp hh).2
  have hnone := unresolved_eq_none h hp
  refine ⟨?_, flatten_classes hierarchy variants, ?_, ?_, ?_⟩
  · rw [root_of_plan hp, targets_node h]
  · rw [reduceOption_calls, List.filterMap_eq_flatMap_toList]
    exact List.flatMap_congr fun c hc => (hidden_eq (hnone c hc)).1
  · rw [findings_of_result_plan h hp, List.filterMap_eq_flatMap_toList, List.flatMap_assoc,
      List.map_flatMap]
    exact List.flatMap_congr fun c hc => (hidden_eq (hnone c hc)).2
  · have hsplit : ∀ c, visible hierarchy c ++ hidden hierarchy c = c := by
      intro c
      unfold visible hidden
      split_ifs
      · exact List.take_append_drop 1 c
      · exact List.append_nil c
    have hall : ((classes hierarchy variants).flatMap fun c =>
        visible hierarchy c ++ hidden hierarchy c) = Flat.order hierarchy variants := by
      simp only [hsplit]
      rw [← flatten_classes]
      exact List.flatMap_id'
    refine (List.flatMap_append_perm _ _ _).trans ?_
    rw [hall]
    exact Flat.order_perm hierarchy variants

/-- `fixed` and `loose` ask nothing of the padding, so the tree calls the first of them only. The
last call is what a kernel of another width gets. -/
theorem Tree.plan_calls_order_ambiguous_group :
    let identity : Identity := ⟨"krn", .avePool, .chw, .fx16, []⟩
    let fixed : Variant := { identity, kernelW := 3, padding := .krnPad }
    let loose : Variant := { identity, kernelW := 3 }
    let valid : Variant := { identity, kernelW := 3, padding := .noPad }
    let default : Variant := .fallback identity []
    let hierarchy : List Param := [.field .kernelW, .padding]
    let variants : List Variant := [fixed, loose, valid]
    let p : Plan := ⟨node default hierarchy variants,
      [.ambiguousPadding "kernel_w=3/padding=*" fixed.symbol [loose.symbol]]⟩
    requireHierarchy hierarchy = .ok () ∧ (plan variants hierarchy default).result = .ok p ∧
      Flat.order hierarchy variants = [valid, fixed, loose] ∧
      p.root.targets = [valid, fixed, default] := by
  intro identity fixed loose valid default hierarchy variants p
  have hh : requireHierarchy hierarchy = .ok () := by decide
  have hstops : stops [] hierarchy variants =
      [.leaf ["kernel_w=3", "padding:(padding_top == 0) && (padding_bot == 0) && " ++
          "(padding_left == 0) && (padding_right == 0)"] [valid],
        .ambiguous ["kernel_w=3", "padding=*"] fixed [loose],
        .leaf ["kernel_w=3", "padding=*"] [fixed]] := by
    cbv
  have hp : (plan variants hierarchy default).result = .ok p := by
    rw [plan, hstops]
    rfl
  have hcalls : calls hierarchy variants = [some valid, some fixed, none] := by cbv
  have htargets := (plan_calls_order hh hp).1
  rw [hcalls] at htargets
  exact ⟨hh, hp, by cbv, htargets⟩

end KernelDispatch
