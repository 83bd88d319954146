import KernelDispatch.Proofs.StableOrder
import Mathlib

/-! Variants are grouped one after another, each behind those of its key. The groups are then sorted
by a comparison of their keys, which tells all keys of one level apart. -/
namespace KernelDispatch

/-- The rank of a condition on the padding, told from its bounds alone. -/
def Condition.paddingRank (c : Condition) : PaddingRank where
  padded := !c.bounds.all fun b => b.1 == .eq && b.2 == 0
  loose := c.bounds.any fun b => b.1 == .le
  limits := c.bounds.map Prod.snd

/-- Ranks compare by their flags, then by descending limits. -/
def PaddingRank.ordering (a b : PaddingRank) : Ordering :=
  (compare a.padded b.padded).then
    ((compare a.loose b.loose).then (compare b.limits a.limits))

/-- How two keys compare, with the padding told from the conditions. Wildcards come last. -/
def BranchKey.ordering (a b : BranchKey) : Ordering :=
  match a.isWildcard, b.isWildcard with
  | true, true => .eq
  | true, false => .gt
  | false, true => .lt
  | false, false =>
    match a, b with
    | .value m, .value n => compare n m
    | .padding s, .padding t => s.condition.paddingRank.ordering t.condition.paddingRank
    | .value _, .padding _ => .lt
    | .padding _, .value _ => .gt

theorem compare_limits_eq_lt_iff {as bs : List UInt32} : compare as bs = .lt ↔ as < bs := by
  induction as generalizing bs with
  | nil => cases bs <;> simp
  | cons a as ih =>
    cases bs with
    | nil => simp
    | cons b bs =>
      rw [List.compare_cons_cons, Ordering.then_eq_lt, Std.compare_eq_lt, Std.compare_eq_iff_eq,
        ih, List.cons_lt_cons_iff]

namespace PaddingRank

theorem ordering_eq_lt_iff {a b : PaddingRank} : a.ordering b = .lt ↔ a.before b = true := by
  obtain ⟨padded, loose, limits⟩ := a
  obtain ⟨padded', loose', limits'⟩ := b
  have hlt : compare false true = .lt := rfl
  have hgt : compare true false = .gt := rfl
  unfold ordering before
  -- the limits count only where both flags agree
  cases padded <;> cases padded' <;> cases loose <;> cases loose' <;>
    simp [hlt, hgt, compare_limits_eq_lt_iff]

theorem ordering_swap (a b : PaddingRank) : a.ordering b = (b.ordering a).swap := by
  unfold ordering
  rw [Ordering.swap_then, Ordering.swap_then, ← Std.OrientedOrd.eq_swap, ← Std.OrientedOrd.eq_swap,
    ← Std.OrientedOrd.eq_swap]

end PaddingRank

namespace PaddingTest

/-- The condition that states a test has the rank of the test. -/
theorem paddingRank_condition (t : PaddingTest) : t.condition.paddingRank = t.rank := by
  cases t with
  | any => rfl
  | exact m =>
    have hzero : (∀ s ∈ Side.all, m.get s = 0) ↔ m = .zero := by
      refine ⟨fun h => Margins.eq_of_get_eq fun s => ?_, fun h s _ => ?_⟩
      · rw [h s s.mem_all]
        cases s <;> rfl
      · rw [h]
        cases s <;> rfl
    have hpadded : (condition (.exact m)).paddingRank.padded = decide (m ≠ .zero) := by
      have hbounds : (condition (.exact m)).bounds = Side.all.map fun s => (.eq, m.get s) := rfl
      rw [Condition.paddingRank, hbounds, List.all_map, Bool.eq_iff_iff]
      simp only [Bool.not_eq_true', decide_eq_true_eq, ne_eq, ← hzero, ← Bool.not_eq_true,
        List.all_eq_true, Function.comp_apply, beq_self_eq_true, Bool.true_and, beq_iff_eq]
    rw [rank, ← hpadded]
    rfl
  | atMost m => rfl

theorem snd_bounds_condition (t : PaddingTest) : t.condition.bounds.map Prod.snd = t.limits := by
  cases t <;> rfl

/-- Different tests are stated by different conditions. -/
theorem condition_inj {s t : PaddingTest} (h : s.condition = t.condition) : s = t := by
  have hlimits : s.limits = t.limits := by
    rw [← snd_bounds_condition, ← snd_bounds_condition, h]
  have hrelations : s.condition.bounds.map Prod.fst = t.condition.bounds.map Prod.fst := by rw [h]
  cases s <;> cases t
  case any.any => rfl
  case exact.exact m n => rw [Margins.limits_inj hlimits]
  case atMost.atMost m n => rw [Margins.limits_inj hlimits]
  all_goals exact nomatch hrelations

end PaddingTest

namespace BranchKey

/-- The two flags of a comparison tell it. -/
theorem ordering_eq_ite {o : Ordering} {less more : Bool} (hless : o = .lt ↔ less = true)
    (hmore : o = .gt ↔ more = true) : (if less then .lt else if more then .gt else .eq) = o := by
  cases o <;> simp_all

/-- The order of the keys is that of the comparison by parts. -/
theorem specificity_eq_ordering (a b : BranchKey) : a.specificity b = a.ordering b := by
  unfold specificity before ordering
  cases a.isWildcard <;> cases b.isWildcard
  case false.false =>
    cases a with
    | value m =>
      cases b with
      | value n =>
        exact ordering_eq_ite (Std.compare_eq_lt.trans decide_eq_true_iff.symm)
          (Std.compare_eq_gt.trans decide_eq_true_iff.symm)
      | padding t => rfl
    | padding s =>
      cases b with
      | value n => rfl
      | padding t =>
        simp only [PaddingTest.paddingRank_condition]
        refine ordering_eq_ite PaddingRank.ordering_eq_lt_iff ?_
        rw [PaddingRank.ordering_swap, Ordering.swap_eq_gt]
        exact PaddingRank.ordering_eq_lt_iff
  all_goals rfl

end BranchKey

/-- Puts a variant behind the members of its group. A new key gets a group behind the others. -/
def fileUnder (p : Param) (v : Variant) : List Group → List Group
  | [] => [⟨.of p v, [v]⟩]
  | g :: rest =>
    if g.key = .of p v then ⟨g.key, g.members ++ [v]⟩ :: rest else g :: fileUnder p v rest

/-- Variants grouped one after another. -/
def gather (p : Param) (vs : List Variant) : List Group :=
  vs.foldl (fun groups v => fileUnder p v groups) []

section Gather
variable {p : Param} {v : Variant} {vs : List Variant} {groups : List Group}

/-- The keys are those of the variants, in the order in which they were first met. -/
structure Gathers (p : Param) (vs : List Variant) (groups : List Group) : Prop where
  keys : groups.map Group.key = (vs.map (BranchKey.of p)).eraseDups
  members : ∀ g ∈ groups, g.members = withKey p vs g.key

theorem map_key_fileUnder : (fileUnder p v groups).map Group.key =
    if BranchKey.of p v ∈ groups.map Group.key then groups.map Group.key
    else groups.map Group.key ++ [BranchKey.of p v] := by
  induction groups with
  | nil => simp [fileUnder]
  | cons g rest ih =>
    by_cases hkey : g.key = BranchKey.of p v
    · simp [fileUnder, hkey]
    · have hmem : BranchKey.of p v ∈ (g :: rest).map Group.key ↔
          BranchKey.of p v ∈ rest.map Group.key := by
        rw [List.map_cons, List.mem_cons]
        exact or_iff_right fun h => hkey h.symm
      rw [fileUnder, if_neg hkey, List.map_cons, ih]
      by_cases hold : BranchKey.of p v ∈ rest.map Group.key
      · rw [if_pos hold, if_pos (hmem.mpr hold), List.map_cons]
      · rw [if_neg hold, if_neg (mt hmem.mp hold), List.map_cons, List.cons_append]

/-- A variant joins the group of its key and changes no other one. -/
theorem mem_fileUnder {g : Group} (h : g ∈ fileUnder p v groups)
    (hnodup : (groups.map Group.key).Nodup) :
    g ∈ groups ∧ g.key ≠ BranchKey.of p v ∨
      (∃ old ∈ groups, old.key = BranchKey.of p v ∧ g = ⟨old.key, old.members ++ [v]⟩) ∨
        BranchKey.of p v ∉ groups.map Group.key ∧ g = ⟨BranchKey.of p v, [v]⟩ := by
  induction groups with
  | nil => exact .inr (.inr ⟨List.not_mem_nil, List.mem_singleton.mp h⟩)
  | cons first rest ih =>
    obtain ⟨hfresh, hrest⟩ := List.nodup_cons.mp hnodup
    by_cases hkey : first.key = BranchKey.of p v
    · rw [fileUnder, if_pos hkey] at h
      rcases List.mem_cons.mp h with rfl | hg
      · exact .inr (.inl ⟨first, List.mem_cons_self, hkey, rfl⟩)
      · refine .inl ⟨List.mem_cons_of_mem first hg, fun heq => hfresh ?_⟩
        rw [hkey, ← heq]
        exact List.mem_map_of_mem hg
    · rw [fileUnder, if_neg hkey] at h
      rcases List.mem_cons.mp h with rfl | hg
      · exact .inl ⟨List.mem_cons_self, hkey⟩
      · rcases ih hg hrest with ⟨hold, hother⟩ | ⟨old, hold, hjoin⟩ | ⟨hnew, hg⟩
        · exact .inl ⟨List.mem_cons_of_mem first hold, hother⟩
        · exact .inr (.inl ⟨old, List.mem_cons_of_mem first hold, hjoin⟩)
        · refine .inr (.inr ⟨fun hmem => ?_, hg⟩)
          rcases List.mem_cons.mp hmem with heq | hlater
          · exact hkey heq.symm
          · exact hnew hlater

theorem withKey_concat {k : BranchKey} : withKey p (vs ++ [v]) k =
    if BranchKey.of p v = k then withKey p vs k ++ [v] else withKey p vs k := by
  rw [withKey_append]
  by_cases hkey : BranchKey.of p v = k
  · simp [withKey, hkey]
  · simp [withKey, hkey]

/-- Grouping one more variant keeps what the groups are. -/
theorem Gathers.fileUnder (h : Gathers p vs groups) (v : Variant) :
    Gathers p (vs ++ [v]) (fileUnder p v groups) where
  keys := by
    rw [map_key_fileUnder, h.keys, List.map_append, List.map_singleton, eraseDups_concat]
    simp only [List.mem_eraseDups]
  members := by
    have hnodup : (groups.map Group.key).Nodup := by
      rw [h.keys]
      exact nodup_eraseDups _
    intro g hg
    rcases mem_fileUnder hg hnodup with ⟨hold, hother⟩ | ⟨old, hold, hkey, rfl⟩ | ⟨hnew, rfl⟩
    · rw [withKey_concat, if_neg (Ne.symm hother)]
      exact h.members g hold
    · rw [withKey_concat, if_pos hkey.symm, h.members old hold]
    · have hnone : withKey p vs (BranchKey.of p v) = [] := by
        refine withKey_eq_nil fun hmem => hnew ?_
        rw [h.keys, List.mem_eraseDups, List.mem_map]
        exact mem_levelKeys.mp hmem
      rw [withKey_concat, if_pos rfl, hnone, List.nil_append]

theorem gathers_gather (p : Param) (vs : List Variant) : Gathers p vs (gather p vs) := by
  induction vs using List.reverseRecOn with
  | nil => exact ⟨rfl, nofun⟩
  | append_singleton vs v ih =>
    have hstep : gather p (vs ++ [v]) = KernelDispatch.fileUnder p v (gather p vs) :=
      List.foldl_concat _ _ _ _
    rw [hstep]
    exact ih.fileUnder v

theorem gather_eq_map (p : Param) (vs : List Variant) :
    gather p vs = ((vs.map (BranchKey.of p)).eraseDups).map fun k => ⟨k, withKey p vs k⟩ := by
  have h := gathers_gather p vs
  rw [← h.keys, List.map_map]
  refine (List.map_id _).symm.trans (List.map_congr_left fun g hg => ?_)
  rw [Function.comp_apply, ← h.members g hg]
  rfl

/-- A partition is what grouping one variant after another gives, sorted by the keys. -/
theorem partition_eq_mergeSort (p : Param) (vs : List Variant) : partition p vs =
    (gather p vs).mergeSort fun g h => (g.key.ordering h.key).isLE := by
  rw [gather_eq_map]
  refine List.map_mergeSort fun a _ b _ => ?_
  rw [← BranchKey.specificity_eq_ordering, BranchKey.isLE_specificity]

end Gather

namespace BranchKey

theorem ordering_eq_lt_iff {a b : BranchKey} : a.ordering b = .lt ↔ a.before b = true := by
  rw [← specificity_eq_ordering, specificity_swap, Ordering.swap_eq_lt, specificity_eq_gt_iff]

theorem ordering_swap (a b : BranchKey) : a.ordering b = (b.ordering a).swap := by
  rw [← specificity_eq_ordering, ← specificity_eq_ordering, specificity_swap]

theorem ordering_of_eq_iff {p : Param} {u v : Variant} :
    (of p u).ordering (of p v) = .eq ↔ of p u = of p v := by
  rw [← specificity_eq_ordering, specificity_of_eq_iff]

theorem of_padding_eq_iff (u v : Variant) :
    of .padding u = of .padding v ↔ u.paddingCondition = v.paddingCondition := by
  constructor
  · intro h
    have htest : u.paddingTest = v.paddingTest := BranchKey.padding.inj h
    rw [Variant.paddingCondition, Variant.paddingCondition, htest]
  · intro h
    exact congrArg BranchKey.padding (PaddingTest.condition_inj h)

end BranchKey

section Partition
variable {p : Param} {vs : List Variant}

theorem existsUnique_group {v : Variant} (hv : v ∈ vs) :
    ∃! g, g ∈ partition p vs ∧ v ∈ g.members := by
  obtain ⟨g, hg, hkey⟩ := exists_mem_partition (p := p) hv
  refine ⟨g, ⟨hg, (mem_members_iff hg).mpr ⟨hv, hkey.symm⟩⟩, ?_⟩
  rintro h ⟨hh, hmem⟩
  have hsame : h.key = g.key := by
    rw [hkey]
    exact ((mem_members_iff hh).mp hmem).2.symm
  have hmembers : h.members = g.members := by
    rw [(mem_partition hh).2, (mem_partition hg).2, hsame]
  cases g
  cases h
  exact congrArg₂ Group.mk hsame hmembers

/-- A group with another one behind it is not that of a wildcard. -/
theorem isWildcard_of_mem_dropLast {g : Group} (hg : g ∈ (partition p vs).dropLast) :
    g.key.isWildcard = false := by
  have hne : partition p vs ≠ [] := by
    intro hnil
    rw [hnil] at hg
    exact List.not_mem_nil hg
  have hsorted := pairwise_partition p vs
  rw [← List.dropLast_append_getLast hne, List.pairwise_append] at hsorted
  have hbefore := hsorted.2.2 g hg _ (List.mem_singleton_self _)
  exact BranchKey.isWildcard_of_before hbefore

end Partition

/-- The comparison of keys is a strict total order on what variants present to one level, and keys
of the padding are the same exactly if the conditions on the padding are. A partition is sorted by
it. Its groups have different keys, each has the variants of its key as they are declared, every
variant is in one group, and only the last group can be that of a wildcard. -/
theorem partition_lossless (p : Param) (vs : List Variant) :
    (∀ u v w : Variant, let a := BranchKey.of p u; let b := BranchKey.of p v
      let c := BranchKey.of p w
      (a.ordering b = .eq ↔ a = b) ∧ a.ordering b = (b.ordering a).swap ∧
        (a.ordering b = .lt → b.ordering c = .lt → a.ordering c = .lt)) ∧
    (∀ u v : Variant, BranchKey.of .padding u = .of .padding v ↔
      u.paddingCondition = v.paddingCondition) ∧
    partition p vs = (gather p vs).mergeSort (fun g h => (g.key.ordering h.key).isLE) ∧
    ((partition p vs).Pairwise fun g h => g.key ≠ h.key ∧ g.key.ordering h.key = .lt) ∧
    (∀ g ∈ partition p vs, g.members ≠ [] ∧
      g.members = vs.filter fun v => BranchKey.of p v = g.key) ∧
    (∀ v ∈ vs, ∃! g, g ∈ partition p vs ∧ v ∈ g.members) ∧
    ((partition p vs).flatMap Group.members).Perm vs ∧
    ∀ g ∈ (partition p vs).dropLast, g.key.isWildcard = false := by
  refine ⟨fun u v w => ⟨BranchKey.ordering_of_eq_iff, BranchKey.ordering_swap _ _, ?_⟩,
    BranchKey.of_padding_eq_iff, partition_eq_mergeSort p vs, ?_, fun g hg => ?_,
    fun v => existsUnique_group, Flat.order_perm [p] vs, fun g => isWildcard_of_mem_dropLast⟩
  · intro huv hvw
    rw [BranchKey.ordering_eq_lt_iff] at huv hvw ⊢
    exact BranchKey.before_trans huv hvw
  · refine (pairwise_partition p vs).imp fun {g h} hbefore => ?_
    refine ⟨fun hsame => ?_, BranchKey.ordering_eq_lt_iff.mpr hbefore⟩
    rw [hsame, BranchKey.before_irrefl] at hbefore
    exact Bool.noConfusion hbefore
  · obtain ⟨first, others, hmembers⟩ := exists_mem_members hg
    refine ⟨?_, (mem_partition hg).2⟩
    rw [hmembers]
    exact List.cons_ne_nil first others

/-- A single pixel asks for no padding at all, so that two schemes of padding share a group. -/
theorem partition_lossless_single_pixel :
    let identity : Identity := ⟨"krn", .avePool, .chw, .fx16, []⟩
    let same : Variant :=
      { identity, kernelW := 3, kernelH := 3, strideW := 1, strideH := 1, padding := .krnPad }
    let strided : Variant := { same with strideW := 2 }
    let pixel : Variant := { same with kernelW := 1, kernelH := 1 }
    let unpadded : Variant := { same with padding := .noPad }
    let free : Variant := { same with padding := .any }
    let vs := [free, strided, pixel, same, unpadded]
    (partition .padding vs).map Group.members = [[pixel, unpadded], [same], [strided], [free]] ∧
      (∃! g, g ∈ partition .padding vs ∧ unpadded ∈ g.members) ∧
      (BranchKey.of .padding pixel).ordering (.of .padding free) = .lt ∧
      pixel.paddingCondition = unpadded.paddingCondition := by
  intro identity same strided pixel unpadded free vs
  have hgroups : (partition .padding vs).map Group.members =
      [[pixel, unpadded], [same], [strided], [free]] := by
    cbv
  obtain ⟨hlaws, hconditions, -, -, -, hunique, -, -⟩ := partition_lossless .padding vs
  obtain ⟨-, -, htrans⟩ := hlaws pixel same free
  have hmem : unpadded ∈ vs := by simp [vs]
  exact ⟨hgroups, hunique unpadded hmem, htrans (by decide) (by decide),
    (hconditions pixel unpadded).mp (by decide)⟩

end KernelDispatch
