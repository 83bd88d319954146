import KernelDispatch.Plan.Dispatch
import KernelDispatch.Proofs.Selection
import Mathlib

/-! Routing by a tree. Each level narrows down the variants that are left, and no level takes back
what another one has decided. -/
namespace KernelDispatch

/-- The first of some padding tests, in the order in which they are tried, that a padding passes. -/
def PaddingTest.first? (m : Margins) (tests : List PaddingTest) : Option PaddingTest :=
  tests.find? fun t => t.Holds m ∧ ∀ s ∈ tests, s.Holds m → ¬ s.Precedes t

/-- The variants that are left after a level: those with the value of the call or, if there are
none, those without a value. At a level of paddings, those with the first test that the call
passes. -/
def narrow (r : Runtime) (vs : List Variant) : Param → List Variant
  | .field f =>
    let fixed := vs.filter fun v => v.value f = r.value f
    if fixed = [] then vs.filter fun v => v.value f = 0 else fixed
  | .padding =>
    match PaddingTest.first? r.padding (vs.map Variant.paddingTest) with
    | some t => vs.filter fun v => v.paddingTest = t
    | none => []

/-- The first declared variant that is left after all levels of a hierarchy, or the default. -/
def route (hierarchy : List Param) (variants : List Variant) (default : Variant) (r : Runtime) :
    Variant :=
  (hierarchy.foldl (narrow r) variants).headD default

/-- The first test that a padding passes is one that no other passed test precedes. -/
theorem PaddingTest.first?_eq_some {m : Margins} {tests : List PaddingTest} {t : PaddingTest}
    (ht : t ∈ tests) (hm : t.Holds m) (h : ∀ s ∈ tests, s.Holds m → ¬ s.Precedes t) :
    first? m tests = some t := by
  cases hf : first? m tests with
  | none => exact absurd (decide_eq_true ⟨hm, h⟩) (List.find?_eq_none.mp hf t ht)
  | some s =>
    unfold first? at hf
    have hpass := List.find?_some hf
    obtain ⟨hs, hts⟩ := of_decide_eq_true hpass
    rw [eq_of_not_precedes (h s (List.mem_of_find?_eq_some hf) hs) (hts t ht hm)]

private theorem narrow_field (f : Field) (vs : List Variant) (r : Runtime) :
    narrow r vs (.field f) = (branchOf (.field f) vs r).elim [] Group.members := by
  cases hg : branchOf (.field f) vs r with
  | none =>
    have hnot := branchOf_eq_none hg
    have hfixed : vs.filter (fun v => v.value f = r.value f) = [] :=
      List.filter_eq_nil_iff.mpr fun v hv h => hnot v hv (.inr (of_decide_eq_true h))
    have hopen : vs.filter (fun v => v.value f = 0) = [] :=
      List.filter_eq_nil_iff.mpr fun v hv h => hnot v hv (.inl (of_decide_eq_true h))
    simp [narrow, hfixed, hopen]
  | some g =>
    obtain ⟨hmembers, ⟨v, hv, hfit⟩, hfirst⟩ := branchOf_eq_some hg
    rw [hmembers] at hv
    obtain ⟨hvs, hkey⟩ := List.mem_filter.mp hv
    have hkey : BranchKey.of (.field f) v = g.key := of_decide_eq_true hkey
    have hsame : g.members = vs.filter fun u => u.value f = v.value f := by
      rw [hmembers, ← hkey]
      simp [BranchKey.of]
    rw [Option.elim_some, hsame]
    by_cases heq : v.value f = r.value f
    · have hfixed : vs.filter (fun u => u.value f = r.value f) ≠ [] :=
        List.ne_nil_of_mem (List.mem_filter.mpr ⟨hvs, decide_eq_true heq⟩)
      simp only [narrow, if_neg hfixed, heq]
    · -- a variant with the value of the call would come before this wildcard
      have hopen : v.value f = 0 := hfit.resolve_right heq
      have hfixed : vs.filter (fun u => u.value f = r.value f) = [] := by
        refine List.filter_eq_nil_iff.mpr fun u hu hur => heq ?_
        have hur : u.value f = r.value f := of_decide_eq_true hur
        have hb := hfirst u hu (.inr hur)
        rw [← hkey, BranchKey.of, BranchKey.of, hopen] at hb
        have hr : r.value f = 0 := by simpa [BranchKey.before, BranchKey.isWildcard, hur] using hb
        exact hopen.trans hr.symm
      simp only [narrow, hfixed, if_true, hopen]

private theorem narrow_padding (vs : List Variant) (r : Runtime) :
    narrow r vs .padding = (branchOf .padding vs r).elim [] Group.members := by
  cases hg : branchOf .padding vs r with
  | none =>
    have hnot := branchOf_eq_none hg
    have hfirst : PaddingTest.first? r.padding (vs.map Variant.paddingTest) = none := by
      refine List.find?_eq_none.mpr fun t ht h => ?_
      obtain ⟨v, hv, rfl⟩ := List.mem_map.mp ht
      exact hnot v hv (of_decide_eq_true h).1
    simp [narrow, hfirst]
  | some g =>
    obtain ⟨hmembers, ⟨v, hv, hfit⟩, hfirst⟩ := branchOf_eq_some hg
    rw [hmembers] at hv
    obtain ⟨hvs, hkey⟩ := List.mem_filter.mp hv
    have hkey : .padding v.paddingTest = g.key := of_decide_eq_true hkey
    have hnone : ∀ s ∈ vs.map Variant.paddingTest, s.Holds r.padding →
        ¬ s.Precedes v.paddingTest := by
      intro s hs hholds
      obtain ⟨u, hu, rfl⟩ := List.mem_map.mp hs
      rw [← BranchKey.before_padding_iff, hkey, Bool.not_eq_true]
      exact hfirst u hu hholds
    have htest : PaddingTest.first? r.padding (vs.map Variant.paddingTest) =
        some v.paddingTest := PaddingTest.first?_eq_some (List.mem_map_of_mem hvs) hfit hnone
    rw [Option.elim_some, hmembers, ← hkey]
    simp [narrow, htest, BranchKey.of]

theorem narrow_eq_members (r : Runtime) (vs : List Variant) (p : Param) :
    narrow r vs p = (branchOf p vs r).elim [] Group.members := by
  cases p with
  | field f => exact narrow_field f vs r
  | padding => exact narrow_padding vs r

theorem narrow_nil (r : Runtime) (p : Param) : narrow r [] p = [] := by
  cases p with
  | field f => rfl
  | padding => rfl

theorem route_nil (hierarchy : List Param) (default : Variant) (r : Runtime) :
    route hierarchy [] default r = default := by
  have hleft : hierarchy.foldl (narrow r) [] = [] := by
    induction hierarchy with
    | nil => rfl
    | cons p rest ih => rw [List.foldl_cons, narrow_nil, ih]
  rw [route, hleft]
  rfl

/-- Where the padding is tested at the deepest level only, a tree leads where the levels do. -/
theorem Tree.select_node {hierarchy : List Param} (h : .padding ∉ hierarchy.dropLast)
    (vs : List Variant) (default : Variant) (r : Runtime) :
    (node default hierarchy vs).select r = route hierarchy vs default r := by
  induction hierarchy generalizing vs with
  | nil => rfl
  | cons p rest ih =>
    rw [select_node_cons_members h, route, List.foldl_cons, narrow_eq_members, ← route]
    cases hg : branchOf p vs r with
    | none => exact (route_nil rest default r).symm
    | some g => exact ih (padding_notMem_dropLast h).1 g.members

/-- A tree routes every call as its levels narrow down the variants. It calls the default or a
declared variant that fits the call at every level. -/
theorem Tree.select_plan {variants : List Variant} {hierarchy : List Param} {default : Variant}
    {p : Plan} (hh : requireHierarchy hierarchy = .ok ())
    (hp : (plan variants hierarchy default).result = .ok p) (r : Runtime) :
    p.select r = route hierarchy variants default r ∧
      (p.select r = default ∨
        p.select r ∈ variants ∧ ∀ q ∈ hierarchy, (p.select r).FitsAt r q) := by
  unfold Plan.select
  rw [root_of_plan hp]
  exact ⟨select_node (requireHierarchy_eq_ok_iff.mp hh).2 variants default r,
    select_node_eq_or_mem default hierarchy variants r⟩

/-- A call with a kernel of width three and a padding that no variant of that width admits gets the
default, although `wide` fits it. -/
theorem Tree.select_plan_does_not_backtrack :
    let identity : Identity := ⟨"krn", .avePool, .chw, .fx16, []⟩
    let same : Variant :=
      { identity, kernelW := 3, kernelH := 3, strideW := 1, strideH := 1, padding := .krnPad }
    let valid : Variant := { identity, kernelW := 3, kernelH := 2, padding := .noPad }
    let wide : Variant := { identity, strideW := 1 }
    let default : Variant := .fallback identity []
    let hierarchy : List Param := [.field .kernelW, .padding]
    let r : Runtime := ⟨1, 1, 3, 3, 8, ⟨1, 1, 2, 1⟩⟩
    let p : Plan := ⟨node default hierarchy [same, valid, wide], []⟩
    requireHierarchy hierarchy = .ok () ∧
      (plan [same, valid, wide] hierarchy default).result = .ok p ∧
      wide.Fits r ∧ p.select r = default := by
  intro identity same valid wide default hierarchy r p
  have hh : requireHierarchy hierarchy = .ok () := by decide
  have hstops : stops [] hierarchy [same, valid, wide] =
      [.leaf ["kernel_w=3", "padding:(padding_top == 0) && (padding_bot == 0) && " ++
          "(padding_left == 0) && (padding_right == 0)"] [valid],
        .leaf ["kernel_w=3", "padding:(padding_top == 1) && (padding_bot == 1) && " ++
          "(padding_left == 1) && (padding_right == 1)"] [same],
        .leaf ["kernel_w=*", "padding=*"] [wide]] := by
    cbv
  have hp : (plan [same, valid, wide] hierarchy default).result = .ok p := by
    rw [plan, hstops]
    rfl
  exact ⟨hh, hp, by decide, (select_plan hh hp r).1.trans (by decide)⟩

end KernelDispatch
