import KernelDispatch.Plan.Tree
import KernelDispatch.Proofs.Partition

/-! The branch of a level that a call takes, and what a tree makes of it. -/
namespace KernelDispatch

@[simp] theorem Arms.select_ofList (arms : List (Condition × Node)) (last : Node) (r : Runtime) :
    (Arms.ofList arms last).select r =
      ((arms.find? fun a => a.1.eval r).map Prod.snd |>.getD last).select r := by
  induction arms with
  | nil => rfl
  | cons a rest ih =>
    change (if a.1.eval r then a.2.select r else (Arms.ofList rest last).select r) = _
    cases h : a.1.eval r with
    | true => simp [h]
    | false => simp [h, ih]

/-- The first wildcard or fitting element of a list, where nothing follows a wildcard. -/
private theorem find?_or_find? {α : Type} {wild fits : α → Bool} {as : List α}
    (h : as.Pairwise fun a _ => wild a = false) :
    ((as.filter fun a => !wild a).find? fits).or (as.find? wild) =
      as.find? fun a => wild a || fits a := by
  induction as with
  | nil => rfl
  | cons a rest ih =>
    obtain ⟨ha, hrest⟩ := List.pairwise_cons.mp h
    cases hw : wild a with
    | true =>
      cases rest with
      | nil => simp [hw]
      | cons b _ => exact absurd (ha b List.mem_cons_self) (by simp [hw])
    | false =>
      cases hf : fits a with
      | true => simp [hw, hf]
      | false => simpa [hw, hf] using ih hrest

/-- The group of a level that a call falls into: the first whose test it passes. -/
def branchOf (p : Param) (vs : List Variant) (r : Runtime) : Option Group :=
  (partition p vs).find? fun g => g.key.Admits p r

theorem branchOf_eq_none {p : Param} {vs : List Variant} {r : Runtime}
    (h : branchOf p vs r = none) : ∀ v ∈ vs, ¬ v.FitsAt r p := by
  intro v hv hfit
  obtain ⟨g, hg, hkey⟩ := exists_mem_partition (p := p) hv
  refine List.find?_eq_none.mp h g hg ?_
  rw [hkey]
  exact (BranchKey.admits_of_iff p v r).mpr hfit

/-- The group that a call falls into has every variant of one key. The call passes the test of that
key, and of no key that comes before it. -/
theorem branchOf_eq_some {p : Param} {vs : List Variant} {r : Runtime} {g : Group}
    (h : branchOf p vs r = some g) :
    g.members = vs.filter (fun v => BranchKey.of p v = g.key) ∧
      (∃ v ∈ g.members, v.FitsAt r p) ∧
      ∀ u ∈ vs, u.FitsAt r p → (BranchKey.of p u).before g.key = false := by
  obtain ⟨hadmits, before, after, hsplit, hnot⟩ := List.find?_eq_some_iff_append.mp h
  have hmem : g ∈ partition p vs := by simp [hsplit]
  obtain ⟨⟨v, hv, hkey⟩, hmembers⟩ := mem_partition hmem
  refine ⟨hmembers, ⟨v, ?_, ?_⟩, ?_⟩
  · rw [hmembers]
    exact List.mem_filter.mpr ⟨hv, decide_eq_true hkey⟩
  · rw [← BranchKey.admits_of_iff, hkey]
    exact hadmits
  · intro u hu hfit
    obtain ⟨k, hk, huk⟩ := exists_mem_partition (p := p) hu
    have hka : k.key.Admits p r = true := huk ▸ (BranchKey.admits_of_iff p u r).mpr hfit
    have hsorted := pairwise_partition p vs
    rw [hsplit] at hk hsorted
    rw [← huk]
    -- a group before `g` is not admitted, and one after `g` does not come before it
    rcases List.mem_append.mp hk with hk | hk
    · exact absurd hka (by simpa using hnot k hk)
    · rcases List.mem_cons.mp hk with rfl | hk
      · exact BranchKey.before_irrefl _
      · have hgk := (List.pairwise_cons.mp (List.pairwise_append.mp hsorted).2.1).1 k hk
        exact BranchKey.not_before_of_before hgk

theorem fitsAt_of_mem_branchOf {p : Param} {vs : List Variant} {r : Runtime} {g : Group}
    (h : branchOf p vs r = some g) {v : Variant} (hv : v ∈ g.members) : v ∈ vs ∧ v.FitsAt r p := by
  obtain ⟨hmembers, ⟨u, hu, hfit⟩, -⟩ := branchOf_eq_some h
  rw [hmembers] at hv hu
  obtain ⟨hmem, hkey⟩ := List.mem_filter.mp hv
  have hsame : BranchKey.of p v = BranchKey.of p u :=
    (of_decide_eq_true hkey).trans (of_decide_eq_true (List.mem_filter.mp hu).2).symm
  rw [← BranchKey.admits_of_iff] at hfit ⊢
  exact ⟨hmem, hsame ▸ hfit⟩

theorem Group.kept_sublist (p : Param) (g : Group) : (g.kept p).Sublist g.members := by
  unfold Group.kept
  split_ifs
  · exact List.take_sublist 1 g.members
  · exact List.Sublist.refl _

/-- What a group keeps has the same first variant, and is the whole group above the level of the
padding. -/
theorem Group.headD_kept (p : Param) (g : Group) (default : Variant) :
    (g.kept p).headD default = g.members.headD default := by
  unfold Group.kept
  split_ifs
  · cases g.members <;> rfl
  · rfl

theorem Group.kept_of_ne {p : Param} (hp : p ≠ .padding) (g : Group) : g.kept p = g.members := by
  simp [Group.kept, Group.keepsFirst, hp]

/-- Below a level that is not the deepest one, the padding is still tested at the deepest only. -/
theorem padding_notMem_dropLast {p : Param} {rest : List Param}
    (h : .padding ∉ (p :: rest).dropLast) :
    .padding ∉ rest.dropLast ∧ (rest ≠ [] → p ≠ .padding) := by
  cases rest with
  | nil => exact ⟨List.not_mem_nil, fun hne => absurd rfl hne⟩
  | cons q rest =>
    rw [List.dropLast_cons_of_ne_nil (List.cons_ne_nil q rest), List.mem_cons, not_or] at h
    exact ⟨h.2, fun _ => Ne.symm h.1⟩

namespace Tree

/-- Where the padding is tested at the deepest level only, a tree does not show what an ambiguous
group hides. -/
theorem node_kept {p : Param} {rest : List Param} (h : .padding ∉ (p :: rest).dropLast)
    (default : Variant) (g : Group) :
    node default rest (g.kept p) = node default rest g.members := by
  cases rest with
  | nil => rw [node, node, g.headD_kept p default]
  | cons q rest => rw [Group.kept_of_ne ((padding_notMem_dropLast h).2 (List.cons_ne_nil q rest))]

/-- A level hands a call to the tree of the group that the call falls into. -/
theorem select_node_cons (default : Variant) (p : Param) (rest : List Param) (vs : List Variant)
    (r : Runtime) :
    (node default (p :: rest) vs).select r =
      (branchOf p vs r).elim default fun g => (node default rest (g.kept p)).select r := by
  have hlast : (partition p vs).Pairwise fun g _ => g.key.isWildcard = false :=
    (pairwise_partition p vs).imp BranchKey.isWildcard_of_before
  have hfind : (((partition p vs).filter fun g => !g.key.isWildcard).find?
      fun g => (g.key.condition p).eval r).or ((partition p vs).find? fun g => g.key.isWildcard) =
        branchOf p vs r := find?_or_find? hlast
  rw [← hfind]
  simp only [node, Node.select, Arms.select_ofList, List.find?_map, Function.comp_def]
  cases ((partition p vs).filter fun g => !g.key.isWildcard).find?
      fun g => (g.key.condition p).eval r with
  | some g => rfl
  | none => cases (partition p vs).find? fun g => g.key.isWildcard <;> rfl

/-- Where the padding is tested at the deepest level only, dropping the members that an ambiguous
group hides changes no choice. -/
theorem select_node_cons_members {default : Variant} {p : Param} {rest : List Param}
    (h : .padding ∉ (p :: rest).dropLast) (vs : List Variant) (r : Runtime) :
    (node default (p :: rest) vs).select r =
      (branchOf p vs r).elim default fun g => (node default rest g.members).select r := by
  simp only [select_node_cons, node_kept h]

theorem root_of_plan {variants : List Variant} {hierarchy : List Param} {default : Variant}
    {p : Plan} (h : (plan variants hierarchy default).result = .ok p) :
    p.root = node default hierarchy variants := by
  unfold plan at h
  rw [Reported.result_bind] at h
  cases hf : (inspectAll (stops [] hierarchy variants)).result with
  | error e => rw [hf] at h; exact nomatch h
  | ok findings =>
    rw [hf] at h
    exact congrArg Plan.root (Except.ok.inj h).symm

/-- A tree calls the default or a variant that fits the call at every level. -/
theorem select_node_eq_or_mem (default : Variant) (hierarchy : List Param) (vs : List Variant)
    (r : Runtime) :
    (node default hierarchy vs).select r = default ∨
      (node default hierarchy vs).select r ∈ vs ∧
        ∀ p ∈ hierarchy, ((node default hierarchy vs).select r).FitsAt r p := by
  induction hierarchy generalizing vs with
  | nil =>
    cases vs with
    | nil => exact .inl rfl
    | cons v _ => exact .inr ⟨List.mem_cons_self, nofun⟩
  | cons p rest ih =>
    rw [select_node_cons]
    cases hg : branchOf p vs r with
    | none => exact .inl rfl
    | some g =>
      rw [Option.elim_some]
      refine (ih (g.kept p)).imp_right fun ⟨hmem, hfits⟩ => ?_
      obtain ⟨hvs, hfit⟩ := fitsAt_of_mem_branchOf hg ((g.kept_sublist p).subset hmem)
      refine ⟨hvs, fun q hq => ?_⟩
      rcases List.mem_cons.mp hq with rfl | hq
      · exact hfit
      · exact hfits q hq

end Tree
end KernelDispatch
