import KernelDispatch.Proofs.FlatRouting
import Mathlib

/-! Classes of variants that no level of a hierarchy tells apart. They alone decide whether a tree can
be built and what is reported on it. -/
namespace KernelDispatch

/-- No level of a hierarchy tells two variants apart. -/
def Inseparable (hierarchy : List Param) (u v : Variant) : Prop :=
  ∀ p ∈ hierarchy, BranchKey.of p u = BranchKey.of p v

instance (hierarchy : List Param) (u v : Variant) : Decidable (Inseparable hierarchy u v) :=
  inferInstanceAs (Decidable (∀ p ∈ hierarchy, _))

/-- The variants that no level tells apart from one, as they are declared. -/
def classOf (hierarchy : List Param) (variants : List Variant) (v : Variant) : List Variant :=
  variants.filter fun u => Inseparable hierarchy u v

/-- The classes of inseparable variants, as the levels of a hierarchy meet them. -/
def classes (hierarchy : List Param) (variants : List Variant) : List (List Variant) :=
  ((Flat.order hierarchy variants).map (classOf hierarchy variants)).eraseDups

/-- How the levels of a hierarchy label the way to a variant. -/
def Variant.path (hierarchy : List Param) (v : Variant) : List String :=
  hierarchy.map fun p => (BranchKey.of p v).label p

/-- The padding is tested, but the variants of a class admit every padding. -/
def admitsEveryPadding (hierarchy : List Param) (c : List Variant) : Bool :=
  decide (.padding ∈ hierarchy) && c.all fun v => v.paddingCondition.isAlways

/-- The error on a class of several variants that ask something of the padding or are left where it
is not tested. -/
def unresolved (hierarchy : List Param) : List Variant → Option ConfigError
  | first :: second :: others =>
    if admitsEveryPadding hierarchy (first :: second :: others) then none
    else some (.unresolvedPartition (Tree.pathText (first.path hierarchy))
      ((first :: second :: others).map Variant.symbol))
  | _ => none

/-- What is reported on a class of several variants: the first is kept, the others are hidden. -/
def ambiguity (hierarchy : List Param) : List Variant → Option Finding
  | kept :: hidden :: others =>
    some (.ambiguousPadding (Tree.pathText (kept.path hierarchy)) kept.symbol
      ((hidden :: others).map Variant.symbol))
  | _ => none

section Classes
variable {p : Param} {hierarchy rest : List Param} {variants vs : List Variant} {u v : Variant}
  {c : List Variant} {g : Group}

theorem inseparable_cons : Inseparable (p :: rest) u v ↔
    BranchKey.of p u = BranchKey.of p v ∧ Inseparable rest u v :=
  List.forall_mem_cons

theorem mem_classOf : u ∈ classOf hierarchy variants v ↔
    u ∈ variants ∧ Inseparable hierarchy u v := by
  rw [classOf, List.mem_filter, decide_eq_true_iff]

theorem mem_classes : c ∈ classes hierarchy variants ↔
    ∃ v ∈ variants, classOf hierarchy variants v = c := by
  simp [classes]

theorem exists_mem_of_mem_classes (hc : c ∈ classes hierarchy variants) :
    ∃ first others, c = first :: others := by
  obtain ⟨v, hv, rfl⟩ := mem_classes.mp hc
  have hmem : v ∈ classOf hierarchy variants v := mem_classOf.mpr ⟨hv, fun _ _ => rfl⟩
  exact List.exists_cons_of_ne_nil (List.ne_nil_of_mem hmem)

theorem mem_of_mem_classes (hc : c ∈ classes hierarchy variants) (hu : u ∈ c) : u ∈ variants := by
  obtain ⟨v, -, rfl⟩ := mem_classes.mp hc
  exact (mem_classOf.mp hu).1

theorem classes_nil (hvs : vs ≠ []) : classes [] vs = [vs] := by
  have hclass : classOf [] vs = fun _ => vs := by
    funext v
    exact List.filter_eq_self.mpr fun u _ => decide_eq_true nofun
  obtain ⟨v, rest, rfl⟩ := List.exists_cons_of_ne_nil hvs
  rw [classes, hclass, Flat.order, List.map_const', List.length_cons, List.replicate_succ,
    List.eraseDups_cons]
  simp

theorem classOf_members (hg : g ∈ partition p vs) (hv : BranchKey.of p v = g.key) :
    classOf (p :: rest) vs v = classOf rest g.members v := by
  rw [classOf, classOf, (mem_partition hg).2, List.filter_filter]
  refine List.filter_congr fun u _ => ?_
  rw [← hv]
  simp [inseparable_cons, and_comm]

/-- The classes of a level are those of its branches. -/
theorem classes_cons (p : Param) (rest : List Param) (vs : List Variant) :
    classes (p :: rest) vs = (partition p vs).flatMap fun g => classes rest g.members := by
  have hbranch : ∀ g ∈ partition p vs, (Flat.order rest g.members).map (classOf (p :: rest) vs) =
      (Flat.order rest g.members).map (classOf rest g.members) := by
    intro g hg
    exact List.map_congr_left fun v hv => classOf_members hg (Flat.key_of_mem_order hg hv)
  rw [classes, Flat.order, List.map_flatMap, List.flatMap_congr hbranch, eraseDups_flatMap]
  · rfl
  · refine (pairwise_partition p vs).imp_of_mem fun {g k} hg hk hgk c hcg hck => ?_
    have hcg : c ∈ classes rest g.members := List.mem_eraseDups.mpr hcg
    have hck : c ∈ classes rest k.members := List.mem_eraseDups.mpr hck
    obtain ⟨first, others, rfl⟩ := exists_mem_of_mem_classes hcg
    have hg := ((mem_members_iff hg).mp (mem_of_mem_classes hcg List.mem_cons_self)).2
    have hk := ((mem_members_iff hk).mp (mem_of_mem_classes hck List.mem_cons_self)).2
    rw [← hg, ← hk, BranchKey.before_irrefl] at hgk
    exact Bool.noConfusion hgk

end Classes
namespace Tree

/-- The error of a stop where several variants are left. -/
def Stop.fault : Stop → Option ConfigError
  | .leaf path (first :: second :: others) =>
    some (.unresolvedPartition (pathText path) ((first :: second :: others).map Variant.symbol))
  | _ => none

def Stop.finding : Stop → Option Finding
  | .ambiguous path kept shadowed =>
    some (.ambiguousPadding (pathText path) kept.symbol (shadowed.map Variant.symbol))
  | .leaf _ _ => none

theorem Stop.result_inspect (s : Stop) :
    s.inspect.result = match s.fault with
      | some e => .error e
      | none => .ok s.finding.toList := by
  match s with
  | .leaf _ [] => rfl
  | .leaf _ [_] => rfl
  | .leaf _ (_ :: _ :: _) => rfl
  | .ambiguous _ _ _ => rfl

/-- A walk fails with the error of its first stop that has one, and else reports all findings. -/
theorem result_inspectAll (ss : List Stop) :
    (inspectAll ss).result = match ss.findSome? Stop.fault with
      | some e => .error e
      | none => .ok (ss.filterMap Stop.finding) := by
  induction ss with
  | nil => rfl
  | cons s rest ih =>
    have hstep : (inspectAll (s :: rest)).result = s.inspect.result.bind fun fs =>
        (inspectAll rest).result.bind fun gs => .ok (fs ++ gs) := by
      rw [inspectAll, Reported.result_bind]
      refine congrArg (s.inspect.result.bind ·) (funext fun fs => ?_)
      rw [Reported.result_bind]
      rfl
    rw [hstep, s.result_inspect, ih, List.findSome?_cons]
    cases s.fault with
    | some e => rfl
    | none =>
      cases rest.findSome? Stop.fault with
      | some e => rfl
      | none => cases hf : s.finding <;> simp [hf, Except.bind]

/-- The stops that one class makes. -/
def classStops (path : List String) (hierarchy : List Param) : List Variant → List Stop
  | [] => []
  | first :: others =>
    let here := path ++ first.path hierarchy
    if admitsEveryPadding hierarchy (first :: others) then
      (match others with
        | [] => []
        | hidden :: more => [Stop.ambiguous here first (hidden :: more)]) ++ [.leaf here [first]]
    else [.leaf here (first :: others)]

theorem admitsEveryPadding_members {vs : List Variant} {g : Group}
    (hg : g ∈ partition .padding vs) :
    admitsEveryPadding [.padding] g.members = g.key.isWildcard := by
  have hkey : ∀ v ∈ g.members, v.paddingCondition.isAlways = g.key.isWildcard := by
    intro v hv
    rw [← ((mem_members_iff hg).mp hv).2, Bool.eq_iff_iff, Variant.paddingCondition,
      PaddingTest.isAlways_condition]
    simp [BranchKey.of, BranchKey.isWildcard]
  obtain ⟨first, others, hmembers⟩ := exists_mem_members hg
  have hmem : first ∈ g.members := hmembers ▸ List.mem_cons_self
  rw [admitsEveryPadding, decide_eq_true (List.mem_singleton.mpr rfl), Bool.true_and,
    Bool.eq_iff_iff, List.all_eq_true]
  constructor
  · intro h
    rw [← hkey first hmem]
    exact h first hmem
  · intro hwild u hu
    rw [hkey u hu]
    exact hwild

/-- Above the deepest level no group hides a member. -/
theorem stops_cons_field (path : List String) (f : Field) (rest : List Param) (vs : List Variant) :
    stops path (.field f :: rest) vs = (partition (.field f) vs).flatMap fun g =>
      stops (path ++ [g.key.label (.field f)]) rest g.members := by
  rw [stops]
  refine List.flatMap_congr fun g _ => ?_
  have hkept : g.kept (.field f) = g.members := Group.kept_of_ne (by simp) g
  have hshadowed : g.shadowed (.field f) = [] := rfl
  rw [hkept, hshadowed]
  cases g.members <;> rfl

/-- At the level of the padding the group of the wildcard is cut to its first member. -/
theorem stops_padding (path : List String) (vs : List Variant) :
    stops path [.padding] vs = (partition .padding vs).flatMap fun g =>
      classStops path [.padding] g.members := by
  rw [stops]
  refine List.flatMap_congr fun g hg => ?_
  have hwild : admitsEveryPadding [.padding] g.members = g.key.isWildcard :=
    admitsEveryPadding_members hg
  obtain ⟨first, others, hmembers⟩ := exists_mem_members hg
  have hfirst : BranchKey.of .padding first = g.key :=
    ((mem_members_iff hg).mp (hmembers ▸ List.mem_cons_self)).2
  have hkeeps : g.keepsFirst .padding = g.key.isWildcard := rfl
  unfold Group.kept Group.shadowed
  rw [hkeeps]
  rw [hmembers] at hwild ⊢
  cases hkind : g.key.isWildcard with
  | true =>
    rw [hkind] at hwild
    cases others <;> simp [classStops, hwild, stops, Variant.path, hfirst]
  | false =>
    rw [hkind] at hwild
    simp [classStops, hwild, stops, Variant.path, hfirst]

theorem stops_eq {hierarchy : List Param} (h : .padding ∉ hierarchy.dropLast)
    {vs : List Variant} (hvs : hierarchy = [] → vs ≠ []) (path : List String) :
    stops path hierarchy vs = (classes hierarchy vs).flatMap (classStops path hierarchy) := by
  induction hierarchy generalizing vs path with
  | nil =>
    obtain ⟨v, rest, rfl⟩ := List.exists_cons_of_ne_nil (hvs rfl)
    rw [stops, classes_nil (hvs rfl)]
    simp [classStops, admitsEveryPadding, Variant.path]
  | cons p rest ih =>
    have hmembers : ∀ g ∈ partition p vs, g.members ≠ [] := by
      intro g hg
      obtain ⟨first, others, hcons⟩ := exists_mem_members hg
      exact hcons ▸ List.cons_ne_nil first others
    cases p with
    | field f =>
      rw [stops_cons_field, classes_cons, List.flatMap_assoc]
      refine List.flatMap_congr fun g hg => ?_
      rw [ih (padding_notMem_dropLast h).1 fun _ => hmembers g hg]
      refine List.flatMap_congr fun c hc => ?_
      obtain ⟨first, others, rfl⟩ := exists_mem_of_mem_classes hc
      have hfirst := ((mem_members_iff hg).mp (mem_of_mem_classes hc List.mem_cons_self)).2
      simp [classStops, admitsEveryPadding, Variant.path, hfirst]
    | padding =>
      obtain rfl : rest = [] := by
        by_contra hrest
        exact (padding_notMem_dropLast h).2 hrest rfl
      rw [stops_padding, classes_cons, List.flatMap_assoc]
      refine List.flatMap_congr fun g hg => ?_
      rw [classes_nil (hmembers g hg), List.flatMap_singleton]

theorem fault_classStops (hierarchy : List Param) (c : List Variant) :
    (classStops [] hierarchy c).filterMap Stop.fault = (unresolved hierarchy c).toList := by
  match c with
  | [] => rfl
  | [first] =>
    cases hany : admitsEveryPadding hierarchy [first] <;>
      simp [classStops, unresolved, hany, Stop.fault]
  | first :: second :: others =>
    cases hany : admitsEveryPadding hierarchy (first :: second :: others) <;>
      simp [classStops, unresolved, hany, Stop.fault]

theorem finding_classStops {hierarchy : List Param} {c : List Variant}
    (h : unresolved hierarchy c = none) :
    (classStops [] hierarchy c).filterMap Stop.finding = (ambiguity hierarchy c).toList := by
  match c with
  | [] => rfl
  | [first] =>
    cases hany : admitsEveryPadding hierarchy [first] <;>
      simp [classStops, ambiguity, hany, Stop.finding]
  | first :: second :: others =>
    have hany : admitsEveryPadding hierarchy (first :: second :: others) = true := by
      simpa [unresolved] using h
    simp [classStops, ambiguity, hany, Stop.finding]

/-- The outcome of building a tree, told from the classes of inseparable variants alone. -/
theorem result_plan {hierarchy : List Param} (h : .padding ∉ hierarchy.dropLast)
    (variants : List Variant) (default : Variant) :
    (plan variants hierarchy default).result =
      match (classes hierarchy variants).findSome? (unresolved hierarchy) with
      | some e => .error e
      | none => .ok ⟨node default hierarchy variants,
          (classes hierarchy variants).filterMap (ambiguity hierarchy)⟩ := by
  have hstops : ∀ {β : Type} (f : Stop → Option β), f (.leaf [] []) = none →
      (stops [] hierarchy variants).filterMap f =
        (classes hierarchy variants).flatMap fun c => (classStops [] hierarchy c).filterMap f := by
    intro β f hf
    by_cases hempty : hierarchy = [] ∧ variants = []
    · obtain ⟨rfl, rfl⟩ := hempty
      simp [stops, classes, Flat.order, hf]
    · rw [stops_eq h (not_and.mp hempty), List.filterMap_flatMap]
  have hfault : (stops [] hierarchy variants).findSome? Stop.fault =
      (classes hierarchy variants).findSome? (unresolved hierarchy) := by
    rw [← List.head?_filterMap, ← List.head?_filterMap, hstops Stop.fault rfl,
      List.filterMap_eq_flatMap_toList]
    exact congrArg List.head? (List.flatMap_congr fun c _ => fault_classStops hierarchy c)
  have hfinding : (classes hierarchy variants).findSome? (unresolved hierarchy) = none →
      (stops [] hierarchy variants).filterMap Stop.finding =
        (classes hierarchy variants).filterMap (ambiguity hierarchy) := by
    intro hnone
    rw [hstops Stop.finding rfl, List.filterMap_eq_flatMap_toList]
    exact List.flatMap_congr fun c hc =>
      finding_classStops (List.findSome?_eq_none_iff.mp hnone c hc)
  rw [plan, Reported.result_bind, result_inspectAll, hfault]
  cases hall : (classes hierarchy variants).findSome? (unresolved hierarchy) with
  | some e => rfl
  | none =>
    rw [← hfinding hall]
    rfl

section Outcome
variable {hierarchy : List Param} {variants : List Variant} {default : Variant}

theorem result_plan_eq_error_iff (h : .padding ∉ hierarchy.dropLast) {e : ConfigError} :
    (plan variants hierarchy default).result = .error e ↔
      (classes hierarchy variants).findSome? (unresolved hierarchy) = some e := by
  rw [result_plan h]
  cases (classes hierarchy variants).findSome? (unresolved hierarchy) <;> simp

theorem unresolved_eq_none (h : .padding ∉ hierarchy.dropLast) {p : Plan}
    (hp : (plan variants hierarchy default).result = .ok p) :
    ∀ c ∈ classes hierarchy variants, unresolved hierarchy c = none := by
  rw [← List.findSome?_eq_none_iff]
  by_contra hsome
  obtain ⟨e, he⟩ := Option.ne_none_iff_exists'.mp hsome
  rw [(result_plan_eq_error_iff h).mpr he] at hp
  exact nomatch hp

theorem findings_of_result_plan (h : .padding ∉ hierarchy.dropLast) {p : Plan}
    (hp : (plan variants hierarchy default).result = .ok p) :
    p.findings = (classes hierarchy variants).filterMap (ambiguity hierarchy) := by
  have hnone := List.findSome?_eq_none_iff.mpr (unresolved_eq_none h hp)
  rw [result_plan h, hnone] at hp
  exact congrArg Plan.findings (Except.ok.inj hp).symm

end Outcome

end Tree

end KernelDispatch
