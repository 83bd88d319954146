import KernelDispatch.Plan.Partition
import KernelDispatch.Proofs.Matching
import KernelDispatch.Repeated

/-! The order of the branches of a level, and the groups that a partition makes. -/
namespace KernelDispatch

theorem Margins.limits_inj {m n : Margins} (h : m.limits = n.limits) : m = n :=
  Margins.eq_of_get_eq fun s => List.map_inj_left.mp h s s.mem_all

namespace PaddingTest

/-- The kinds of test in the order in which they are tried: no padding at all, exact limits, upper
bounds, no test. -/
def stage : PaddingTest → Nat
  | .exact m => if m = .zero then 0 else 1
  | .atMost _ => 2
  | .any => 3

def limits : PaddingTest → List UInt32
  | .exact m | .atMost m => m.limits
  | .any => []

/-- Tests of one kind are tried by descending limits. -/
def Precedes (s t : PaddingTest) : Prop :=
  s.stage < t.stage ∨ s.stage = t.stage ∧ t.limits < s.limits

instance (s t : PaddingTest) : Decidable (s.Precedes t) :=
  inferInstanceAs (Decidable (_ ∨ _))

theorem stage_le (t : PaddingTest) : t.stage ≤ 3 := by
  cases t with
  | any => exact Nat.le_refl 3
  | exact m => rw [stage]; split_ifs <;> omega
  | atMost m => rw [stage]; omega

theorem stage_eq_three_iff (t : PaddingTest) : t.stage = 3 ↔ t = .any := by
  cases t with
  | any => exact iff_of_true rfl rfl
  | exact m => by_cases hm : m = .zero <;> simp [stage, hm]
  | atMost m => simp [stage]

/-- Tests of one kind with the same limits are the same test. -/
theorem eq_of_stage_eq {s t : PaddingTest} (hs : s.stage = t.stage) (hl : s.limits = t.limits) :
    s = t := by
  cases s <;> cases t
  case any.any => rfl
  case exact.exact m n => rw [Margins.limits_inj hl]
  case atMost.atMost m n => rw [Margins.limits_inj hl]
  all_goals grind [stage]

/-- Of two different tests one is tried before the other. -/
theorem eq_of_not_precedes {s t : PaddingTest} (hst : ¬ s.Precedes t) (hts : ¬ t.Precedes s) :
    s = t := by
  simp only [Precedes, not_or, not_and] at hst hts
  have hs : s.stage = t.stage := by omega
  exact eq_of_stage_eq hs (List.le_antisymm (hst.2 hs) (hts.2 hs.symm))

theorem rank_before_iff {s t : PaddingTest} (hs : s ≠ .any) (ht : t ≠ .any) :
    s.rank.before t.rank = true ↔ s.Precedes t := by
  cases s <;> cases t
  case exact.exact m n =>
    by_cases hm : m = .zero <;> by_cases hn : n = .zero <;>
      simp [rank, PaddingRank.before, Precedes, stage, limits, hm, hn]
  case exact.atMost m n =>
    by_cases hm : m = .zero <;> simp [rank, PaddingRank.before, Precedes, stage, hm]
  case atMost.exact m n =>
    by_cases hn : n = .zero <;> simp [rank, PaddingRank.before, Precedes, stage, hn]
  case atMost.atMost m n =>
    simp only [Precedes, stage, limits, Nat.lt_irrefl, false_or, true_and]
    exact decide_eq_true_iff
  all_goals contradiction

end PaddingTest

namespace BranchKey

/-- Where the keys of one kind come, the wildcard last. -/
def stage : BranchKey → Nat
  | .value n => if n = 0 then 4 else 0
  | .padding t => t.stage + 1

def limits : BranchKey → List UInt32
  | .value n => if n = 0 then [] else [n]
  | .padding t => t.limits

theorem isWildcard_iff (k : BranchKey) : k.isWildcard = true ↔ k.stage = 4 := by
  cases k with
  | value n => by_cases h : n = 0 <;> simp [isWildcard, stage, h]
  | padding t => simp [isWildcard, stage, PaddingTest.stage_eq_three_iff]

theorem stage_le (k : BranchKey) : k.stage ≤ 4 := by
  cases k with
  | value n => rw [stage]; split_ifs <;> omega
  | padding t => exact Nat.succ_le_succ t.stage_le

theorem limits_of_isWildcard {k : BranchKey} (h : k.isWildcard = true) : k.limits = [] := by
  cases k with
  | value n => simp [limits, eq_of_beq h]
  | padding t => simp [limits, eq_of_beq h, PaddingTest.limits]

/-- Keys come by their kind, and those of one kind by descending limits. -/
theorem before_iff (a b : BranchKey) :
    a.before b = true ↔ a.stage < b.stage ∨ a.stage = b.stage ∧ b.limits < a.limits := by
  have hale := a.stage_le
  have hble := b.stage_le
  unfold before
  split_ifs with ha hb
  · have hs := (isWildcard_iff a).mp ha
    have hl := limits_of_isWildcard ha
    refine iff_of_false nofun ?_
    rintro (h | ⟨-, h⟩)
    · omega
    · rw [hl] at h
      exact List.not_lt_nil _ h
  · have hs := (isWildcard_iff b).mp hb
    have hne : a.stage ≠ 4 := mt (isWildcard_iff a).mpr ha
    exact iff_of_true rfl (.inl (by omega))
  · have hna : a.stage ≠ 4 := mt (isWildcard_iff a).mpr ha
    have hnb : b.stage ≠ 4 := mt (isWildcard_iff b).mpr hb
    cases a with
    | value m =>
      have hm : m ≠ 0 := by simpa [isWildcard] using ha
      cases b with
      | value n =>
        have hn : n ≠ 0 := by simpa [isWildcard] using hb
        simp [stage, limits, hm, hn, List.cons_lt_cons_iff]
      | padding t => simp [stage, hm]
    | padding s =>
      have hs : s ≠ .any := by simpa [isWildcard] using ha
      cases b with
      | value n =>
        have hn : n ≠ 0 := by simpa [isWildcard] using hb
        simp [stage, hn]
      | padding t =>
        have ht : t ≠ .any := by simpa [isWildcard] using hb
        rw [PaddingTest.rank_before_iff hs ht]
        simp [PaddingTest.Precedes, stage, limits]

theorem before_padding_iff {s t : PaddingTest} :
    (BranchKey.padding s).before (.padding t) = true ↔ s.Precedes t := by
  rw [before_iff]
  simp [stage, limits, PaddingTest.Precedes]

theorem before_irrefl (a : BranchKey) : a.before a = false := by
  rw [Bool.eq_false_iff, ne_eq, before_iff]
  rintro (h | ⟨-, h⟩)
  · exact Nat.lt_irrefl _ h
  · exact List.lt_irrefl _ h

theorem before_trans {a b c : BranchKey} (hab : a.before b = true) (hbc : b.before c = true) :
    a.before c = true := by
  rw [before_iff] at hab hbc ⊢
  rcases hab with hab | ⟨hab, hlab⟩ <;> rcases hbc with hbc | ⟨hbc, hlbc⟩
  · exact .inl (Nat.lt_trans hab hbc)
  · exact .inl (hbc ▸ hab)
  · exact .inl (hab ▸ hbc)
  · exact .inr ⟨hab.trans hbc, List.lt_trans hlbc hlab⟩

/-- Keys of which none comes before the other are of one kind and have the same limits. -/
theorem not_before_iff (a b : BranchKey) :
    a.before b = false ∧ b.before a = false ↔ a.stage = b.stage ∧ a.limits = b.limits := by
  simp only [Bool.eq_false_iff, ne_eq, before_iff, not_or, not_and]
  constructor
  · rintro ⟨⟨hab, hlab⟩, hba, hlba⟩
    have hs : a.stage = b.stage := by omega
    exact ⟨hs, List.le_antisymm (hlab hs) (hlba hs.symm)⟩
  · rintro ⟨hs, hl⟩
    simp [hs, hl]

/-- A key that comes before another also comes before what does not come before that one. -/
theorem before_of_before_of_not_before {a b c : BranchKey} (hab : a.before b = true)
    (hcb : c.before b = false) : a.before c = true := by
  cases hbc : b.before c with
  | true => exact before_trans hab hbc
  | false =>
    obtain ⟨hs, hl⟩ := (not_before_iff b c).mp ⟨hbc, hcb⟩
    rw [before_iff] at hab ⊢
    rwa [← hs, ← hl]

theorem not_before_trans (a b c : BranchKey) (hab : (!b.before a) = true)
    (hbc : (!c.before b) = true) : (!c.before a) = true := by
  rw [Bool.not_eq_true'] at hab hbc ⊢
  by_contra hca
  rw [Bool.not_eq_false] at hca
  rw [before_of_before_of_not_before hca hab] at hbc
  exact Bool.noConfusion hbc

theorem not_before_of_before {a b : BranchKey} (h : a.before b = true) : b.before a = false := by
  by_contra hba
  have hself := before_trans h ((Bool.not_eq_false _).mp hba)
  rw [before_irrefl] at hself
  exact Bool.noConfusion hself

theorem not_before_total (a b : BranchKey) : (!b.before a || !a.before b) = true := by
  cases hab : a.before b with
  | false => simp
  | true => simp [not_before_of_before hab]

/-- Nothing comes after a wildcard. -/
theorem isWildcard_of_before {a b : BranchKey} (h : a.before b = true) : a.isWildcard = false := by
  by_contra hw
  simp [before, hw] at h

/-- Two keys that variants present to one level are the same or one comes before the other. -/
theorem before_or_before_of_ne {p : Param} {u v : Variant} (h : of p u ≠ of p v) :
    (of p u).before (of p v) = true ∨ (of p v).before (of p u) = true := by
  by_contra hnot
  obtain ⟨huv, hvu⟩ := not_or.mp hnot
  obtain ⟨hs, hl⟩ := (not_before_iff (of p u) (of p v)).mp
    ⟨Bool.eq_false_iff.mpr huv, Bool.eq_false_iff.mpr hvu⟩
  cases p with
  | field f =>
    simp only [of, stage, limits] at hs hl h
    grind
  | padding =>
    exact h (congrArg padding (PaddingTest.eq_of_stage_eq (Nat.succ.inj hs) hl))

/-- Whether a call passes the test of a key. A wildcard tests nothing. -/
def Admits (k : BranchKey) (p : Param) (r : Runtime) : Bool :=
  k.isWildcard || (k.condition p).eval r

end BranchKey

/-- What a level asks of a call for a variant. -/
def Variant.FitsAt (v : Variant) (r : Runtime) : Param → Prop
  | .field f => v.value f = 0 ∨ v.value f = r.value f
  | .padding => v.paddingTest.Holds r.padding

/-- A variant fits a call exactly if it fits it at every level that there can be. -/
theorem Variant.fits_iff_fitsAt {v : Variant} {r : Runtime} : v.Fits r ↔ ∀ p, v.FitsAt r p := by
  constructor
  · rintro ⟨hvalue, hpadding⟩ p
    cases p with
    | field f => exact or_iff_not_imp_left.mpr (hvalue f)
    | padding => exact hpadding
  · intro h
    exact ⟨fun f hf => (h (.field f)).resolve_left hf, h .padding⟩

theorem BranchKey.admits_of_iff (p : Param) (v : Variant) (r : Runtime) :
    (of p v).Admits p r = true ↔ v.FitsAt r p := by
  cases p with
  | field f =>
    simp only [Admits, isWildcard, of, condition, Bool.or_eq_true, beq_iff_eq, Condition.eval_eq,
      Operand.value, Variant.FitsAt]
    exact or_congr_right eq_comm
  | padding =>
    simp only [Admits, isWildcard, of, condition, Bool.or_eq_true, beq_iff_eq,
      PaddingTest.eval_condition, Variant.FitsAt]
    exact or_iff_right_of_imp fun h => h ▸ trivial

theorem mem_partition {p : Param} {vs : List Variant} {g : Group} (h : g ∈ partition p vs) :
    (∃ v ∈ vs, BranchKey.of p v = g.key) ∧ g.members = vs.filter fun v => BranchKey.of p v = g.key := by
  obtain ⟨k, hk, rfl⟩ := List.mem_map.mp h
  rw [List.mem_mergeSort, List.mem_eraseDups, List.mem_map] at hk
  exact ⟨hk, rfl⟩

theorem mem_members_iff {p : Param} {vs : List Variant} {g : Group} (h : g ∈ partition p vs)
    {v : Variant} : v ∈ g.members ↔ v ∈ vs ∧ BranchKey.of p v = g.key := by
  rw [(mem_partition h).2, List.mem_filter, decide_eq_true_iff]

/-- Every group of a partition has a member. -/
theorem exists_mem_members {p : Param} {vs : List Variant} {g : Group} (h : g ∈ partition p vs) :
    ∃ first others, g.members = first :: others := by
  obtain ⟨⟨v, hv, hkey⟩, -⟩ := mem_partition h
  exact List.exists_cons_of_ne_nil (List.ne_nil_of_mem ((mem_members_iff h).mpr ⟨hv, hkey⟩))

theorem exists_mem_partition {p : Param} {vs : List Variant} {v : Variant} (h : v ∈ vs) :
    ∃ g ∈ partition p vs, g.key = BranchKey.of p v := by
  refine ⟨_, List.mem_map.mpr ⟨BranchKey.of p v, ?_, rfl⟩, rfl⟩
  rw [List.mem_mergeSort, List.mem_eraseDups]
  exact List.mem_map_of_mem h

/-- The groups of a partition have different keys, and the more specific ones come first. -/
theorem pairwise_partition (p : Param) (vs : List Variant) :
    (partition p vs).Pairwise fun g h => g.key.before h.key = true := by
  let keys := (vs.map (BranchKey.of p)).eraseDups
  have hsorted : (keys.mergeSort fun a b => !b.before a).Pairwise fun a b => (!b.before a) = true :=
    List.pairwise_mergeSort BranchKey.not_before_trans BranchKey.not_before_total keys
  have hnodup : (keys.mergeSort fun a b => !b.before a).Nodup :=
    (List.mergeSort_perm keys _).nodup_iff.mpr (nodup_eraseDups _)
  have hof : ∀ k ∈ keys.mergeSort fun a b => !b.before a, ∃ v, BranchKey.of p v = k := by
    intro k hk
    rw [List.mem_mergeSort, List.mem_eraseDups, List.mem_map] at hk
    obtain ⟨v, -, hv⟩ := hk
    exact ⟨v, hv⟩
  refine List.pairwise_map.mpr ((hsorted.and hnodup).imp_of_mem ?_)
  rintro a b ha hb ⟨hle, hne⟩
  obtain ⟨u, rfl⟩ := hof a ha
  obtain ⟨v, rfl⟩ := hof b hb
  exact (BranchKey.before_or_before_of_ne hne).resolve_right (by simpa using hle)

end KernelDispatch
