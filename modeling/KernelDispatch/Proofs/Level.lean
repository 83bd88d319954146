import KernelDispatch.Proofs.Classes
import Mathlib

/-! A level of a hierarchy told from its keys. Which keys the variants present decides on the
branches and their order, and each branch has the variants of its key. -/
namespace KernelDispatch

/-- The keys that some variants present to a level, most specific key first. -/
def levelKeys (p : Param) (vs : List Variant) : List BranchKey := (partition p vs).map Group.key

/-- The variants that present one key to a level, as they are declared. -/
def withKey (p : Param) (vs : List Variant) (k : BranchKey) : List Variant :=
  vs.filter fun v => BranchKey.of p v = k

section Keys
variable {p : Param} {us vs : List Variant} {v : Variant} {k : BranchKey}

theorem mem_levelKeys : k ∈ levelKeys p vs ↔ ∃ v ∈ vs, BranchKey.of p v = k := by
  rw [levelKeys, List.mem_map]
  constructor
  · rintro ⟨g, hg, rfl⟩
    exact (mem_partition hg).1
  · rintro ⟨v, hv, rfl⟩
    exact exists_mem_partition hv

theorem pairwise_levelKeys (p : Param) (vs : List Variant) :
    (levelKeys p vs).Pairwise fun a b => a.before b = true :=
  List.pairwise_map.mpr (pairwise_partition p vs)

theorem levelKeys_subset (h : us ⊆ vs) : levelKeys p us ⊆ levelKeys p vs := by
  intro k hk
  obtain ⟨v, hv, hvk⟩ := mem_levelKeys.mp hk
  exact mem_levelKeys.mpr ⟨v, h hv, hvk⟩

theorem withKey_insert_self : withKey p (us ++ v :: vs) (BranchKey.of p v) =
    withKey p us (BranchKey.of p v) ++ v :: withKey p vs (BranchKey.of p v) := by
  rw [withKey, List.filter_append, List.filter_cons_of_pos (by simp)]
  rfl

/-- A variant changes nothing about the variants of other keys. -/
theorem withKey_insert_of_ne (h : BranchKey.of p v ≠ k) :
    withKey p (us ++ v :: vs) k = withKey p (us ++ vs) k := by
  rw [withKey, withKey, List.filter_append, List.filter_append,
    List.filter_cons_of_neg (by simpa using h)]

theorem withKey_append : withKey p (us ++ vs) k = withKey p us k ++ withKey p vs k :=
  List.filter_append us vs

theorem withKey_eq_nil (h : k ∉ levelKeys p vs) : withKey p vs k = [] := by
  rw [withKey, List.filter_eq_nil_iff]
  intro v hv hvk
  exact h (mem_levelKeys.mpr ⟨v, hv, of_decide_eq_true hvk⟩)

theorem BranchKey.nodup_of_pairwise {ks : List BranchKey}
    (h : ks.Pairwise fun a b => a.before b = true) : ks.Nodup := by
  refine h.imp fun {a b} hab hne => ?_
  rw [hne, before_irrefl] at hab
  exact Bool.noConfusion hab

/-- Keys that are listed in their order are determined by which keys they are. -/
theorem BranchKey.eq_of_mem_iff {as bs : List BranchKey}
    (ha : as.Pairwise fun a b => a.before b = true)
    (hb : bs.Pairwise fun a b => a.before b = true) (h : ∀ k, k ∈ as ↔ k ∈ bs) : as = bs := by
  have hperm : as.Perm bs :=
    (List.perm_ext_iff_of_nodup (nodup_of_pairwise ha) (nodup_of_pairwise hb)).mpr h
  refine hperm.eq_of_pairwise (fun a b _ _ hab hba => ?_) ha hb
  rw [not_before_of_before hab] at hba
  exact Bool.noConfusion hba

theorem partition_eq_map (p : Param) (vs : List Variant) :
    partition p vs = (levelKeys p vs).map fun k => ⟨k, withKey p vs k⟩ := by
  rw [levelKeys, List.map_map]
  refine (List.map_id _).symm.trans (List.map_congr_left fun g hg => ?_)
  rw [Function.comp_apply, withKey, ← (mem_partition hg).2]
  rfl

theorem flatMap_partition {β : Type} (f : List Variant → List β) (p : Param) (vs : List Variant) :
    ((partition p vs).flatMap fun g => f g.members) =
      (levelKeys p vs).flatMap fun k => f (withKey p vs k) := by
  rw [partition_eq_map, List.flatMap_map]

theorem Flat.order_cons (p : Param) (rest : List Param) (vs : List Variant) :
    order (p :: rest) vs = (levelKeys p vs).flatMap fun k => order rest (withKey p vs k) :=
  flatMap_partition (order rest) p vs

end Keys

namespace Tree

/-- The chain of a level, made from the keys of its branches and the trees below them. -/
def ofBranches (default : Variant) (p : Param) (branches : List (BranchKey × Node)) : Node :=
  .chain (.ofList
    ((branches.filter fun b => !b.1.isWildcard).map fun b => (b.1.condition p, b.2))
    (((branches.find? fun b => b.1.isWildcard).map Prod.snd).getD (.call default)))

theorem node_cons (default : Variant) (p : Param) (rest : List Param) (vs : List Variant) :
    node default (p :: rest) vs = ofBranches default p
      ((partition p vs).map fun g => (g.key, node default rest (g.kept p))) := by
  simp only [node, ofBranches, List.filter_map, List.find?_map, List.map_map, Option.map_map,
    Function.comp_def]

/-- A level is told from the keys that the variants present and the trees for the variants of
each. -/
theorem node_cons_levelKeys {p : Param} {rest : List Param} (h : .padding ∉ (p :: rest).dropLast)
    (default : Variant) (vs : List Variant) :
    node default (p :: rest) vs = ofBranches default p
      ((levelKeys p vs).map fun k => (k, node default rest (withKey p vs k))) := by
  simp only [node_cons, node_kept h, partition_eq_map, List.map_map, Function.comp_def]

end Tree
end KernelDispatch
