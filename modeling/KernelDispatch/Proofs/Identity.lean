import KernelDispatch.Proofs.Classes
import KernelDispatch.Proofs.Inheritance
import KernelDispatch.Proofs.Level
import Mathlib

/-! A family under another identity. Plans look at what the variants fix and not at the family that
they belong to, so the plan is the same, with its variants under the other identity. -/
namespace KernelDispatch

mutual
/-- A plan with its variants under another identity. -/
def Node.withIdentity (identity : Identity) : Node → Node
  | .call v => .call (v.withIdentity identity)
  | .chain arms => .chain (arms.withIdentity identity)

def Arms.withIdentity (identity : Identity) : Arms → Arms
  | .otherwise n => .otherwise (n.withIdentity identity)
  | .arm c n rest => .arm c (n.withIdentity identity) (rest.withIdentity identity)
end

def Group.withIdentity (identity : Identity) (g : Group) : Group :=
  ⟨g.key, g.members.map fun v => v.withIdentity identity⟩

section Naturality
variable (identity : Identity)

mutual
/-- The conditions of a plan stay as they are, so each call goes to the same place. -/
theorem Node.select_withIdentity (r : Runtime) :
    ∀ n : Node, (n.withIdentity identity).select r = (n.select r).withIdentity identity
  | .call _ => rfl
  | .chain arms => arms.select_withIdentity r

theorem Arms.select_withIdentity (r : Runtime) :
    ∀ a : Arms, (a.withIdentity identity).select r = (a.select r).withIdentity identity
  | .otherwise n => n.select_withIdentity r
  | .arm c n rest => by
    rw [Arms.withIdentity, Arms.select, Arms.select, n.select_withIdentity r,
      rest.select_withIdentity r]
    split_ifs <;> rfl
end

theorem Arms.withIdentity_ofList (arms : List (Condition × Node)) (last : Node) :
    (Arms.ofList arms last).withIdentity identity =
      .ofList (arms.map fun a => (a.1, a.2.withIdentity identity))
        (last.withIdentity identity) := by
  induction arms with
  | nil => rfl
  | cons a rest ih =>
    exact congrArg (Arms.arm a.1 (a.2.withIdentity identity)) ih

theorem BranchKey.of_withIdentity (p : Param) (v : Variant) :
    of p (v.withIdentity identity) = of p v := by
  cases p with
  | field f => cases f <;> rfl
  | padding => rfl

theorem partition_withIdentity (p : Param) (vs : List Variant) :
    partition p (vs.map fun v => v.withIdentity identity) =
      (partition p vs).map (Group.withIdentity identity) := by
  simp only [partition, List.map_map, List.filter_map, Function.comp_def,
    BranchKey.of_withIdentity, Group.withIdentity]

theorem Group.kept_withIdentity (p : Param) (g : Group) :
    (g.withIdentity identity).kept p = (g.kept p).map fun v => v.withIdentity identity := by
  have hkeeps : (g.withIdentity identity).keepsFirst p = g.keepsFirst p := rfl
  rw [kept, kept, hkeeps, withIdentity]
  split_ifs
  · exact List.map_take.symm
  · rfl

theorem Group.shadowed_withIdentity (p : Param) (g : Group) :
    (g.withIdentity identity).shadowed p = (g.shadowed p).map fun v => v.withIdentity identity := by
  have hkeeps : (g.withIdentity identity).keepsFirst p = g.keepsFirst p := rfl
  rw [shadowed, shadowed, hkeeps, withIdentity]
  split_ifs
  · exact List.map_drop.symm
  · rfl

namespace Tree

theorem ofBranches_withIdentity (default : Variant) (p : Param)
    (branches : List (BranchKey × Node)) :
    (ofBranches default p branches).withIdentity identity =
      ofBranches (default.withIdentity identity) p
        (branches.map fun b => (b.1, b.2.withIdentity identity)) := by
  rw [ofBranches, ofBranches, Node.withIdentity, Arms.withIdentity_ofList]
  simp only [List.filter_map, List.find?_map, List.map_map, Option.map_map, Function.comp_def]
  cases branches.find? fun b => b.1.isWildcard <;> rfl

theorem node_withIdentity (default : Variant) (hierarchy : List Param) (vs : List Variant) :
    node (default.withIdentity identity) hierarchy (vs.map fun v => v.withIdentity identity) =
      (node default hierarchy vs).withIdentity identity := by
  induction hierarchy generalizing vs with
  | nil => cases vs <;> rfl
  | cons p rest ih =>
    simp only [node_cons, ofBranches_withIdentity, partition_withIdentity, List.map_map,
      Function.comp_def, Group.kept_withIdentity, ih]
    rfl

def Stop.withIdentity : Stop → Stop
  | .leaf path vs => .leaf path (vs.map fun v => v.withIdentity identity)
  | .ambiguous path kept shadowed =>
    .ambiguous path (kept.withIdentity identity) (shadowed.map fun v => v.withIdentity identity)

theorem stops_withIdentity (path : List String) (hierarchy : List Param) (vs : List Variant) :
    stops path hierarchy (vs.map fun v => v.withIdentity identity) =
      (stops path hierarchy vs).map (Stop.withIdentity identity) := by
  induction hierarchy generalizing path vs with
  | nil => rfl
  | cons p rest ih =>
    rw [stops, stops, partition_withIdentity, List.flatMap_map, List.map_flatMap]
    refine List.flatMap_congr fun g _ => ?_
    have hkey : (g.withIdentity identity).key = g.key := rfl
    simp only [List.map_append, Group.kept_withIdentity, Group.shadowed_withIdentity, hkey, ih]
    congr 1
    cases g.kept p with
    | nil => rfl
    | cons kept _ => cases g.shadowed p <;> rfl

/-- Variants that are left at one leaf are an error under every identity. -/
theorem Stop.fault_withIdentity (s : Stop) :
    (s.withIdentity identity).fault = none ↔ s.fault = none := by
  match s with
  | .leaf _ [] => exact Iff.rfl
  | .leaf _ [_] => exact Iff.rfl
  | .leaf _ (_ :: _ :: _) => exact iff_of_false nofun nofun
  | .ambiguous _ _ _ => exact Iff.rfl

theorem exists_result_plan_iff {variants : List Variant} {hierarchy : List Param}
    {default : Variant} :
    (∃ p, (plan variants hierarchy default).result = .ok p) ↔
      (stops [] hierarchy variants).findSome? Stop.fault = none := by
  rw [plan, Reported.result_bind, result_inspectAll]
  cases (stops [] hierarchy variants).findSome? Stop.fault with
  | some e => exact iff_of_false (by rintro ⟨_, ⟨⟩⟩) (Option.some_ne_none e)
  | none => exact iff_of_true ⟨_, rfl⟩ rfl

end Tree

namespace Flat

theorem order_withIdentity (hierarchy : List Param) (vs : List Variant) :
    order hierarchy (vs.map fun v => v.withIdentity identity) =
      (order hierarchy vs).map fun v => v.withIdentity identity := by
  induction hierarchy generalizing vs with
  | nil => rfl
  | cons p rest ih =>
    rw [order, order, partition_withIdentity, List.flatMap_map, List.map_flatMap]
    exact List.flatMap_congr fun g _ => ih g.members

theorem candidates_withIdentity (hierarchy : List Param) (vs : List Variant) :
    candidates hierarchy (vs.map fun v => v.withIdentity identity) =
      (candidates hierarchy vs).map fun v => v.withIdentity identity := by
  rw [candidates, candidates, order_withIdentity, List.filter_map]
  rfl

theorem node_withIdentity (default : Variant) (chosen : List Variant) :
    node (default.withIdentity identity) (chosen.map fun v => v.withIdentity identity) =
      (node default chosen).withIdentity identity := by
  have hconditional : (isConditional ∘ fun v => v.withIdentity identity) = isConditional := rfl
  have hending : ending (default.withIdentity identity)
      (chosen.map fun v => v.withIdentity identity) =
        (ending default chosen).withIdentity identity := by
    rw [ending, ending, List.find?_map, Option.getD_map]
    rfl
  rw [node, node, Node.withIdentity, Arms.withIdentity_ofList, hending, List.takeWhile_map,
    hconditional, List.map_map, List.map_map]
  rfl

end Flat
end Naturality

/-- A family has a plan exactly where the family under another identity has one. Both test the same
conditions, and they call the same variant but for the identity. -/
structure Reroutes (identity : Identity) (x y : Except ConfigError Plan) : Prop where
  ok_iff : (∃ q, y = .ok q) ↔ ∃ p, x = .ok p
  root : ∀ p q, x = .ok p → y = .ok q → q.root = p.root.withIdentity identity
  select : ∀ p q, x = .ok p → y = .ok q → ∀ r, q.select r = (p.select r).withIdentity identity

/-- The root of a plan determines what it selects. -/
theorem Reroutes.of_root {identity : Identity} {x y : Except ConfigError Plan}
    (hok : (∃ q, y = .ok q) ↔ ∃ p, x = .ok p)
    (hroot : ∀ p q, x = .ok p → y = .ok q → q.root = p.root.withIdentity identity) :
    Reroutes identity x y := by
  refine ⟨hok, hroot, fun p q hp hq r => ?_⟩
  rw [Plan.select, hroot p q hp hq, Node.select_withIdentity]
  rfl

theorem Reroutes.of_error {identity : Identity} (e f : ConfigError) :
    Reroutes identity (.error e) (.error f) :=
  ⟨iff_of_false nofun nofun, nofun, nofun⟩

section Family
variable (identity : Identity) (variants : List Variant) (default : Variant)

theorem Tree.reroutes (hierarchy : List Param) :
    Reroutes identity (plan variants hierarchy default).result
      (plan (variants.map fun v => v.withIdentity identity) hierarchy
        (default.withIdentity identity)).result := by
  refine .of_root ?_ fun p q hp hq => ?_
  · rw [exists_result_plan_iff, exists_result_plan_iff, stops_withIdentity, List.findSome?_map,
      List.findSome?_eq_none_iff, List.findSome?_eq_none_iff]
    exact forall₂_congr fun s _ => s.fault_withIdentity identity
  · rw [root_of_plan hp, root_of_plan hq, node_withIdentity]

theorem Flat.reroutes (hierarchy : List Param) :
    Reroutes identity (plan variants hierarchy default).result
      (plan (variants.map fun v => v.withIdentity identity) hierarchy
        (default.withIdentity identity)).result := by
  refine .of_root (iff_of_true ⟨_, rfl⟩ ⟨_, rfl⟩) fun p q hp hq => ?_
  obtain rfl := Except.ok.inj hp
  obtain rfl := Except.ok.inj hq
  change node _ (candidates _ _) = (node _ (candidates _ _)).withIdentity identity
  rw [candidates_withIdentity, node_withIdentity]

/-- Two dispatches that differ only in the expressions that they bind make the same plan. -/
theorem Dispatch.reroutes {d d' : Dispatch} (hstyle : d'.style = d.style)
    (hhierarchy : d'.hierarchy = d.hierarchy)
    (hbinds : ∀ name, d'.bindings.binds name = true ↔ d.bindings.binds name = true) :
    Reroutes identity (d.plan variants default).result
      (d'.plan (variants.map fun v => v.withIdentity identity)
        (default.withIdentity identity)).result := by
  have hbound : d'.requireBindings = .ok () ↔ d.requireBindings = .ok () := by
    rw [requireBindings_eq_ok_iff, requireBindings_eq_ok_iff, hierarchyVariables,
      hierarchyVariables, hhierarchy]
    exact forall₂_congr fun name _ => hbinds name
  rw [result_plan, result_plan, hstyle, hhierarchy]
  cases hd : d.requireBindings with
  | error e =>
    cases hd' : d'.requireBindings with
    | error e' => exact .of_error e e'
    | ok u => exact nomatch hd.symm.trans (hbound.mp hd')
  | ok u =>
    rw [hbound.mpr hd]
    cases d.style with
    | tree => exact Tree.reroutes identity variants default d.hierarchy
    | flat => exact Flat.reroutes identity variants default d.hierarchy

end Family

theorem isSome_kernelExpressions_congr {i j : Identity} (h : i.op = j.op) :
    (kernelExpressions i).isSome = (kernelExpressions j).isSome := by
  rw [kernelExpressions, kernelExpressions, h]
  cases j.op.family <;> rfl

/-- An operation offers expressions for the same names in every layout. -/
theorem Bindings.binds_standard_congr {i j : Identity} (h : i.op = j.op) (name : String) :
    (standard i).binds name = true ↔ (standard j).binds name = true := by
  have hsome := isSome_kernelExpressions_congr h
  rw [standard, standard]
  cases hi : kernelExpressions i with
  | none =>
    cases hj : kernelExpressions j with
    | none => simp only [binds_ofList, List.map_cons]
    | some _ => simp [hi, hj] at hsome
  | some _ =>
    cases hj : kernelExpressions j with
    | none => simp [hi, hj] at hsome
    | some _ => simp only [binds_ofList, List.map_cons]

/-- The plan that the wrappers of a target are made from. -/
def Target.plan (t : Target) : Except ConfigError Plan := do
  let d ← t.dispatchConfig
  (d.plan t.variants t.default).result

theorem Target.reroutes_derive {m : Manifest} {t : TargetDecl} (h : t.dispatch = none)
    (base : Target) : Reroutes (m.derive base t).identity base.plan (m.derive base t).plan := by
  have hdispatch : (m.derive base t).dispatch = base.dispatch := by
    rw [Manifest.derive, h]
    rfl
  have hstandard := Bindings.binds_standard_congr
    (show (m.derive base t).identity.op = base.identity.op from rfl)
  rw [plan, plan, dispatchConfig, dispatchConfig, hdispatch, Dispatch.ofHierarchy]
  cases requireHierarchy base.dispatch.hierarchy with
  | error e => exact .of_error e e
  | ok u =>
    refine Dispatch.reroutes _ base.variants base.default rfl rfl fun name => ?_
    simp only [Dispatch.bindAll, Bindings.binds_override, hstandard name]

/-- The plan of a family under another identity is its plan with the variants under that identity.
A target that takes the dispatch of its parent hands every call to the variant that the parent hands
it to. -/
theorem plan_withIdentity :
    (∀ (identity : Identity) (variants : List Variant) (default : Variant),
      let renamed := variants.map fun v => v.withIdentity identity
      (∀ hierarchy : List Param,
        Reroutes identity (Tree.plan variants hierarchy default).result
            (Tree.plan renamed hierarchy (default.withIdentity identity)).result ∧
          Reroutes identity (Flat.plan variants hierarchy default).result
            (Flat.plan renamed hierarchy (default.withIdentity identity)).result) ∧
        ∀ d : Dispatch, Reroutes identity (d.plan variants default).result
          (d.plan renamed (default.withIdentity identity)).result) ∧
    ∀ (m : Manifest) (tag : String) (t : TargetDecl) (parent : String) (target : Target),
      m.target? tag = some t → t.deriveFrom = some parent → t.dispatch = none →
      (m.resolve tag).result = .ok target →
        ∃ base, (m.resolve parent).result = .ok base ∧
          Reroutes target.identity base.plan target.plan := by
  refine ⟨fun identity variants default => ⟨fun hierarchy => ⟨?_, ?_⟩, fun d => ?_⟩,
    fun m tag t parent target ht hparent hdispatch htarget => ?_⟩
  · exact Tree.reroutes identity variants default hierarchy
  · exact Flat.reroutes identity variants default hierarchy
  · exact Dispatch.reroutes identity variants default rfl rfl fun _ => Iff.rfl
  · obtain ⟨base, hbase, rfl⟩ := Manifest.exists_resolve_parent ht hparent htarget
    exact ⟨base, hbase, Target.reroutes_derive hdispatch base⟩

/-- A target that declares its own data type and nothing else that its plan depends on. -/
theorem plan_withIdentity_other_data_type :
    let wide : Identity := ⟨"krn", .avePool, .chw, .fx16, []⟩
    let narrow : Identity := ⟨"krn", .avePool, .chw, .sa8, []⟩
    let dispatch : DispatchDecl := { hierarchy := [.field .kernelW] }
    let parent : TargetDecl :=
      { tag := "fx16", output := "fx16.cc", layout := some .chw, dataType := some .fx16,
        bodyTemplate := some "body.txt", generic := some ⟨.one "pool"⟩,
        variants := [{ core := .one "pool_k3", kernelW := some (.one 3) }] }
    let child : TargetDecl :=
      { tag := "sa8", output := "sa8.cc", dataType := some .sa8, deriveFrom := some "fx16" }
    let m : Manifest := ⟨"kernels",
      { group := "krn", op := .avePool, functionGroup := "pool", args := [],
        fileTemplate := "file.txt", dispatch, targets := [parent, child] }⟩
    let variants : List Variant :=
      [{ identity := wide, kernelW := 3, core := ["pool_k3"] }, .fallback wide ["pool"]]
    let p : Plan := ⟨Tree.node (.fallback wide ["pool"]) dispatch.hierarchy variants, []⟩
    ∃ base target q, (m.resolve "fx16").result = .ok base ∧ base.plan = .ok p ∧
      (m.resolve "sa8").result = .ok target ∧ target.plan = .ok q ∧
        ∀ r, q.select r = (p.select r).withIdentity narrow := by
  intro wide narrow dispatch parent child m variants p
  let base : Target :=
    { tag := "fx16", output := m.path "fx16.cc", identity := wide, bodyTemplate := "body.txt",
      includes := [], defines := [], variants, default := .fallback wide ["pool"], dispatch }
  have hroot : m.resolveBase parent = .ok base := rfl
  have hend : m.lineage [] "fx16" = .ok ([], parent) :=
    Manifest.lineage_eq_ok_iff.mpr ⟨by decide, parent, rfl, .inl ⟨rfl, rfl, rfl⟩⟩
  have hstart : m.lineage ["sa8"] "fx16" = .ok ([], parent) :=
    Manifest.lineage_eq_ok_iff.mpr ⟨by decide, parent, rfl, .inl ⟨rfl, rfl, rfl⟩⟩
  have hlineage : m.lineage [] "sa8" = .ok ([child], parent) :=
    Manifest.lineage_eq_ok_iff.mpr
      ⟨by decide, child, rfl, .inr ⟨"fx16", [], rfl, rfl, hstart, rfl⟩⟩
  have hbase : (m.resolve "fx16").result = .ok base :=
    Manifest.result_resolve_eq_ok_iff.mpr ⟨[], parent, base, hend, hroot, rfl⟩
  have htarget : (m.resolve "sa8").result = .ok (m.derive base child) :=
    Manifest.result_resolve_eq_ok_iff.mpr ⟨[child], parent, base, hlineage, hroot, rfl⟩
  let d : Dispatch :=
    Dispatch.bindAll ⟨.tree, dispatch.hierarchy, {}⟩ ((Bindings.standard wide).override {})
  have hbound : d.requireBindings = .ok () :=
    Dispatch.requireBindings_eq_ok_iff.mpr (by decide)
  have hstops : Tree.stops [] dispatch.hierarchy variants =
      [.leaf ["kernel_w=3"] [variants[0]], .leaf ["kernel_w=*"] [variants[1]]] := by
    cbv
  have htree : (Tree.plan variants dispatch.hierarchy base.default).result = .ok p := by
    rw [Tree.plan, hstops]
    rfl
  have hp : base.plan = .ok p := by
    have hconfig : base.dispatchConfig = .ok d := rfl
    rw [Target.plan, hconfig]
    change (d.plan variants base.default).result = .ok p
    rw [Dispatch.result_plan, hbound]
    exact htree
  obtain ⟨base', hbase', hreroutes⟩ :=
    plan_withIdentity.2 m "sa8" child "fx16" _ rfl rfl rfl htarget
  obtain rfl := Except.ok.inj (hbase.symm.trans hbase')
  obtain ⟨q, hq⟩ := hreroutes.ok_iff.mpr ⟨p, hp⟩
  exact ⟨base, _, q, hbase, hp, htarget, hq, hreroutes.select p q hp hq⟩
end KernelDispatch
