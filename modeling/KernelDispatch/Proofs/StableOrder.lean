import KernelDispatch.Proofs.Insertion
import KernelDispatch.Proofs.Order
import Mathlib

/-! Ordering variants along a hierarchy is one stable sort. The levels group the variants one after
another, but the outcome is the lexicographic order of what the variants present to all levels. -/
namespace KernelDispatch

/-- How specific a key is against another one, as a comparison. -/
def BranchKey.specificity (a b : BranchKey) : Ordering :=
  if a.before b then .lt else if b.before a then .gt else .eq

/-- The lexicographic comparison of what two variants present to the levels of a hierarchy. -/
def Variant.specificity (hierarchy : List Param) (u v : Variant) : Ordering :=
  List.compareLex BranchKey.specificity (u.keys hierarchy) (v.keys hierarchy)

namespace BranchKey

theorem isLE_specificity (a b : BranchKey) : (a.specificity b).isLE = !b.before a := by
  unfold specificity
  cases hab : a.before b with
  | true => simp [not_before_of_before hab]
  | false => cases b.before a <;> rfl

theorem specificity_swap (a b : BranchKey) : a.specificity b = (b.specificity a).swap := by
  unfold specificity
  cases hab : a.before b with
  | true => simp [not_before_of_before hab]
  | false => cases b.before a <;> rfl

instance : Std.TransCmp specificity where
  eq_swap {a b} := specificity_swap a b
  isLE_trans {a b c} hab hbc := by
    rw [isLE_specificity] at hab hbc ⊢
    exact not_before_trans a b c hab hbc

theorem specificity_eq_gt_iff {a b : BranchKey} :
    a.specificity b = .gt ↔ b.before a = true := by
  have hle := isLE_specificity a b
  cases h : a.specificity b <;> simp_all

/-- The keys that two variants present to one level compare as equal only if they are. -/
theorem specificity_of_eq_iff {p : Param} {u v : Variant} :
    (of p u).specificity (of p v) = .eq ↔ of p u = of p v := by
  constructor
  · intro h
    unfold specificity at h
    by_contra hne
    rcases before_or_before_of_ne hne with hb | hb <;> simp [hb] at h
  · intro h
    simp [h, specificity, before_irrefl]

end BranchKey

namespace Variant
variable {hierarchy : List Param} {u v : Variant}

instance (hierarchy : List Param) : Std.TransCmp (specificity hierarchy) where
  eq_swap {u v} := by
    unfold specificity
    exact Std.OrientedCmp.eq_swap
  isLE_trans {u v w} huv hvw := by
    unfold specificity at huv hvw ⊢
    exact Std.TransCmp.isLE_trans huv hvw

theorem specificity_cons (p : Param) (rest : List Param) (u v : Variant) :
    specificity (p :: rest) u v = ((BranchKey.of p u).specificity (BranchKey.of p v)).then
      (specificity rest u v) :=
  List.compareLex_cons_cons

theorem specificity_eq_eq_iff :
    specificity hierarchy u v = .eq ↔ u.keys hierarchy = v.keys hierarchy := by
  induction hierarchy with
  | nil => exact iff_of_true rfl rfl
  | cons p rest ih =>
    rw [specificity_cons, Ordering.then_eq_eq, BranchKey.specificity_of_eq_iff, ih, keys_cons,
      keys_cons, List.cons.injEq]

theorem specificity_eq_gt_iff : specificity hierarchy u v = .gt ↔ v.Precedes hierarchy u := by
  induction hierarchy with
  | nil => exact iff_of_false nofun (not_precedes_nil v u)
  | cons p rest ih =>
    rw [specificity_cons, Ordering.then_eq_gt, precedes_cons, ih, BranchKey.specificity_eq_gt_iff,
      BranchKey.specificity_of_eq_iff, eq_comm (a := BranchKey.of p u)]

theorem isLE_specificity_iff :
    (specificity hierarchy u v).isLE = true ↔ ¬ v.Precedes hierarchy u := by
  rw [← specificity_eq_gt_iff]
  cases specificity hierarchy u v <;> simp

end Variant

/-- A sorted list is determined by its sublists of elements with the same key. -/
theorem eq_of_pairwise_of_filter_eq {α κ : Type} [DecidableEq κ] {key : α → κ} {le : α → α → Prop}
    (hle : ∀ a b, le a b → le b a → key a = key b) {as bs : List α} (has : as.Pairwise le)
    (hbs : bs.Pairwise le)
    (h : ∀ k, as.filter (fun a => key a = k) = bs.filter fun b => key b = k) : as = bs := by
  have hmem : ∀ {as bs : List α} {a : α},
      (∀ k, as.filter (fun a => key a = k) = bs.filter fun b => key b = k) → a ∈ as → a ∈ bs := by
    intro as bs a h ha
    have hkey : a ∈ as.filter fun c => key c = key a := List.mem_filter.mpr ⟨ha, by simp⟩
    rw [h] at hkey
    exact List.mem_of_mem_filter hkey
  induction as generalizing bs with
  | nil =>
    refine (List.eq_nil_iff_forall_not_mem.mpr fun b hb => ?_).symm
    exact List.not_mem_nil (hmem (fun k => (h k).symm) hb)
  | cons a as ih =>
    cases bs with
    | nil => exact absurd (hmem h List.mem_cons_self) List.not_mem_nil
    | cons b bs =>
      obtain ⟨hfirst, has⟩ := List.pairwise_cons.mp has
      obtain ⟨hfirst', hrest⟩ := List.pairwise_cons.mp hbs
      -- each head is in the other list, so that it comes no later than the head there
      have hkey : key a = key b := by
        rcases List.mem_cons.mp (hmem h List.mem_cons_self) with rfl | hab
        · rfl
        · rcases List.mem_cons.mp (hmem (fun k => (h k).symm) List.mem_cons_self) with rfl | hba
          · rfl
          · exact hle a b (hfirst b hba) (hfirst' a hab)
      have hhead := h (key a)
      rw [List.filter_cons_of_pos (by simp), List.filter_cons_of_pos (by simp [hkey])] at hhead
      obtain rfl : a = b := (List.cons.inj hhead).1
      refine congrArg (a :: ·) (ih has hrest fun k => ?_)
      have hk := h k
      by_cases hak : key a = k
      · rw [List.filter_cons_of_pos (by simp [hak]), List.filter_cons_of_pos (by simp [hak])] at hk
        exact (List.cons.inj hk).2
      · rwa [List.filter_cons_of_neg (by simp [hak]), List.filter_cons_of_neg (by simp [hak])] at hk

/-- Sorting keeps elements that come in no order of their own where they stand to each other. -/
theorem filter_mergeSort {α : Type} {le : α → α → Bool}
    (htrans : ∀ a b c, le a b = true → le b c = true → le a c = true)
    (htotal : ∀ a b, (le a b || le b a) = true) {P : α → Bool}
    (hties : ∀ a b, P a = true → P b = true → le a b = true) (as : List α) :
    (as.mergeSort le).filter P = as.filter P := by
  have htied : (as.filter P).Pairwise fun a b => le a b = true := by
    rw [List.pairwise_filter]
    exact List.pairwise_of_forall hties
  have hsub := (List.sublist_mergeSort htrans htotal htied List.filter_sublist).filter P
  rw [List.filter_filter] at hsub
  simp only [Bool.and_self] at hsub
  exact (hsub.eq_of_length ((List.mergeSort_perm as le).filter P).length_eq.symm).symm

theorem flatMap_ite {α β : Type} [DecidableEq α] {as : List α} (has : as.Nodup) (a : α)
    (bs : List β) : (as.flatMap fun c => if c = a then bs else []) = if a ∈ as then bs else [] := by
  induction as with
  | nil => rfl
  | cons c rest ih =>
    obtain ⟨hc, hrest⟩ := List.nodup_cons.mp has
    rw [List.flatMap_cons, ih hrest]
    by_cases hca : c = a
    · subst hca
      simp [hc]
    · simp [hca, Ne.symm hca]

namespace Flat

/-- The levels keep variants that they do not tell apart in the order in which they are declared. -/
theorem filter_keys_order (hierarchy : List Param) (vs : List Variant) (keys : List BranchKey) :
    (order hierarchy vs).filter (fun v => v.keys hierarchy = keys) =
      vs.filter fun v => v.keys hierarchy = keys := by
  induction hierarchy generalizing vs keys with
  | nil => rfl
  | cons p rest ih =>
    cases keys with
    | nil => simp [Variant.keys_cons]
    | cons key keys =>
      have hbranch : ∀ k, (order rest (withKey p vs k)).filter
          (fun v => v.keys (p :: rest) = key :: keys) =
            if k = key then (withKey p vs key).filter fun v => v.keys rest = keys else [] := by
        intro k
        have hkey : ∀ v ∈ order rest (withKey p vs k), BranchKey.of p v = k := fun v hv =>
          of_decide_eq_true (List.mem_filter.mp (mem_order.mp hv)).2
        split_ifs with hk
        · subst hk
          rw [← ih]
          refine List.filter_congr fun v hv => ?_
          simp [Variant.keys_cons, hkey v hv]
        · refine List.filter_eq_nil_iff.mpr fun v hv => ?_
          simp [Variant.keys_cons, hkey v hv, hk]
      have hall : vs.filter (fun v => v.keys (p :: rest) = key :: keys) =
          (withKey p vs key).filter fun v => v.keys rest = keys := by
        rw [withKey, List.filter_filter]
        refine List.filter_congr fun v _ => ?_
        simp [Variant.keys_cons, Bool.and_comm]
      rw [order_cons, List.filter_flatMap, List.flatMap_congr fun k _ => hbranch k,
        flatMap_ite (BranchKey.nodup_of_pairwise (pairwise_levelKeys p vs)), hall]
      split_ifs with hmem
      · rfl
      · rw [withKey_eq_nil hmem, List.filter_nil]

/-- Ordering variants along any levels sorts them by what they present to all levels, the more
specific key first at each. The sort is stable, loses and adds no variant, and changes nothing when
it is done again. -/
theorem order_eq_mergeSort (hierarchy : List Param) (vs : List Variant) :
    order hierarchy vs = vs.mergeSort (fun u v => (Variant.specificity hierarchy u v).isLE) ∧
      (order hierarchy vs).Perm vs ∧
      (∀ keys : List BranchKey, (order hierarchy vs).filter (fun v => v.keys hierarchy = keys) =
        vs.filter fun v => v.keys hierarchy = keys) ∧
      order hierarchy (order hierarchy vs) = order hierarchy vs := by
  let le (u v : Variant) : Bool := (Variant.specificity hierarchy u v).isLE
  have htrans : ∀ u v w, le u v = true → le v w = true → le u w = true := fun _ _ _ =>
    Std.TransCmp.isLE_trans
  have htotal : ∀ u v, (le u v || le v u) = true := by
    intro u v
    have hswap : Variant.specificity hierarchy u v = (Variant.specificity hierarchy v u).swap :=
      Std.OrientedCmp.eq_swap
    simp only [le, hswap]
    cases Variant.specificity hierarchy v u <;> rfl
  have hties : ∀ u v, u.keys hierarchy = v.keys hierarchy → le u v = true := by
    intro u v h
    rw [← Variant.specificity_eq_eq_iff] at h
    simp [le, h]
  have hantisymm : ∀ u v, le u v = true → le v u = true → u.keys hierarchy = v.keys hierarchy :=
    fun u v huv hvu => Variant.specificity_eq_eq_iff.mp (Std.OrientedCmp.isLE_antisymm huv hvu)
  have hsorted : ∀ vs, (order hierarchy vs).Pairwise fun u v => le u v = true := fun vs =>
    (pairwise_order hierarchy vs).imp Variant.isLE_specificity_iff.mpr
  have hsort : ∀ vs, order hierarchy vs = vs.mergeSort le := by
    intro vs
    refine eq_of_pairwise_of_filter_eq hantisymm (hsorted vs)
      (List.pairwise_mergeSort htrans htotal vs) fun keys => ?_
    rw [filter_keys_order, filter_mergeSort htrans htotal]
    intro u v hu hv
    exact hties u v ((of_decide_eq_true hu).trans (of_decide_eq_true hv).symm)
  refine ⟨hsort vs, order_perm hierarchy vs, filter_keys_order hierarchy vs, ?_⟩
  rw [hsort (order hierarchy vs), List.mergeSort_of_pairwise (hsorted vs)]

end Flat
end KernelDispatch
