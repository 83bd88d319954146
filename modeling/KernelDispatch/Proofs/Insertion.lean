import KernelDispatch.Proofs.Level
import Mathlib

/-! One more variant in a family. It takes a place among the other variants and moves none of them,
so a flat chain hands no call to a variant that did not get it before, unless it is the new one. -/
namespace KernelDispatch.Flat

@[simp] theorem order_nil (hierarchy : List Param) : order hierarchy [] = [] :=
  List.eq_nil_iff_forall_not_mem.mpr fun _ hv => List.not_mem_nil (mem_order.mp hv)

private theorem flatMap_filter_eq {α β : Type} {P : α → Bool} {f : α → List β} {as : List α}
    (h : ∀ a, P a = false → f a = []) : (as.filter P).flatMap f = as.flatMap f := by
  induction as with
  | nil => rfl
  | cons a rest ih =>
    rw [List.filter_cons]
    split_ifs with ha
    · rw [List.flatMap_cons, List.flatMap_cons, ih]
    · rw [List.flatMap_cons, h a (Bool.eq_false_iff.mpr ha), List.nil_append, ih]

/-- Keys that no variant presents add nothing to an ordering. -/
theorem order_cons_of_subset {p : Param} {vs : List Variant} {ks : List BranchKey}
    (rest : List Param) (hks : ks.Pairwise fun a b => a.before b = true)
    (hsub : levelKeys p vs ⊆ ks) :
    order (p :: rest) vs = ks.flatMap fun k => order rest (withKey p vs k) := by
  have hkeys : levelKeys p vs = ks.filter fun k => k ∈ levelKeys p vs := by
    refine BranchKey.eq_of_mem_iff (pairwise_levelKeys p vs) (hks.filter _) fun k => ?_
    rw [List.mem_filter, decide_eq_true_iff]
    exact ⟨fun hk => ⟨hsub hk, hk⟩, And.right⟩
  rw [order_cons, hkeys]
  apply flatMap_filter_eq
  intro k hk
  rw [withKey_eq_nil (of_decide_eq_false hk), order_nil]

/-- Wherever a variant is put into a list, it takes one place in the order of the list, and the
others keep theirs. -/
theorem order_insert (hierarchy : List Param) (xs ys : List Variant) (v : Variant) :
    ∃ before after, order hierarchy (xs ++ v :: ys) = before ++ v :: after ∧
      order hierarchy (xs ++ ys) = before ++ after := by
  induction hierarchy generalizing xs ys with
  | nil => exact ⟨xs, ys, rfl, rfl⟩
  | cons p rest ih =>
    let key := BranchKey.of p v
    have hsub : levelKeys p (xs ++ ys) ⊆ levelKeys p (xs ++ v :: ys) :=
      levelKeys_subset ((List.sublist_cons_self v ys).append_left xs).subset
    have hkey : key ∈ levelKeys p (xs ++ v :: ys) := mem_levelKeys.mpr ⟨v, by simp, rfl⟩
    have hsorted := pairwise_levelKeys p (xs ++ v :: ys)
    have hwith := order_cons p rest (xs ++ v :: ys)
    have hwithout := order_cons_of_subset rest hsorted hsub
    obtain ⟨earlier, later, hsplit⟩ := List.append_of_mem hkey
    rw [hsplit] at hsorted hwith hwithout
    obtain ⟨-, hlater, hdisjoint⟩ := List.nodup_append.mp (BranchKey.nodup_of_pairwise hsorted)
    have hearlier : key ∉ earlier := fun h => hdisjoint key h key List.mem_cons_self rfl
    -- the branches of the other keys have the variants that they had without `v`
    have hother : ∀ ks : List BranchKey, key ∉ ks →
        (ks.flatMap fun k => order rest (withKey p (xs ++ v :: ys) k)) =
          ks.flatMap fun k => order rest (withKey p (xs ++ ys) k) := by
      intro ks hks
      refine List.flatMap_congr fun k hk => ?_
      have hne : BranchKey.of p v ≠ k := by
        rintro rfl
        exact hks hk
      rw [withKey_insert_of_ne hne]
    obtain ⟨before, after, hnew, hold⟩ := ih (withKey p xs key) (withKey p ys key)
    rw [List.flatMap_append, List.flatMap_cons, hother earlier hearlier,
      hother later (List.nodup_cons.mp hlater).1, withKey_insert_self, hnew] at hwith
    rw [List.flatMap_append, List.flatMap_cons, withKey_append, hold] at hwithout
    refine ⟨(earlier.flatMap fun k => order rest (withKey p (xs ++ ys) k)) ++ before,
      after ++ later.flatMap fun k => order rest (withKey p (xs ++ ys) k), ?_, ?_⟩
    · rw [hwith]
      simp
    · rw [hwithout]
      simp

/-- An ordering neither loses nor repeats a variant. -/
theorem order_perm (hierarchy : List Param) (vs : List Variant) :
    (order hierarchy vs).Perm vs := by
  induction vs with
  | nil => rw [order_nil]
  | cons v rest ih =>
    obtain ⟨before, after, hwith, hwithout⟩ := order_insert hierarchy [] rest v
    rw [List.nil_append] at hwith hwithout
    rw [hwith]
    rw [hwithout] at ih
    exact List.perm_middle.trans (ih.cons v)

/-- A variant put into a family gets some of the calls that it fits, unless it is generic. All other
calls go where they went without it. -/
theorem plan_insert (hierarchy : List Param) (default : Variant) (xs ys : List Variant)
    (v : Variant) :
    ∃ p q, (plan (xs ++ [v] ++ ys) hierarchy default).result = .ok p ∧
      (plan (xs ++ ys) hierarchy default).result = .ok q ∧ ∀ r,
        (p.select r = v ∨ p.select r = q.select r) ∧
        (v.generic = true ∨ v.condition.eval r = false → p.select r = q.select r) := by
  refine ⟨⟨node default (candidates hierarchy (xs ++ [v] ++ ys)), _⟩,
    ⟨node default (candidates hierarchy (xs ++ ys)), _⟩, rfl, rfl, fun r => ?_⟩
  obtain ⟨before, after, hwith, hwithout⟩ := order_insert hierarchy xs ys v
  have hsplit : xs ++ [v] ++ ys = xs ++ v :: ys := by simp
  rw [Plan.select, Plan.select, select_node_candidates, select_node_candidates, hsplit, hwith,
    hwithout, List.find?_append, List.find?_append]
  cases before.find? fun u => !u.generic && u.condition.eval r with
  | some u => exact ⟨.inr rfl, fun _ => rfl⟩
  | none =>
    rw [Option.none_or, Option.none_or]
    cases hv : !v.generic && v.condition.eval r with
    | false =>
      rw [List.find?_cons_of_neg (by simp [hv])]
      exact ⟨.inr rfl, fun _ => rfl⟩
    | true =>
      rw [List.find?_cons_of_pos (by simpa using hv)]
      obtain ⟨hgeneric, hfits⟩ := Bool.and_eq_true_iff.mp hv
      refine ⟨.inl rfl, fun h => ?_⟩
      rcases h with h | h
      · simp [h] at hgeneric
      · exact absurd hfits (Bool.eq_false_iff.mp h)

end KernelDispatch.Flat
