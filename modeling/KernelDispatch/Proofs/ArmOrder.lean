import KernelDispatch.Proofs.Chains
import KernelDispatch.Proofs.Specificity

/-! The order of the arms in the chains of a tree against the strength of their conditions. -/
namespace KernelDispatch

namespace PaddingTest

theorem isStronger_condition_iff (s t : PaddingTest) :
    s.condition.IsStronger t.condition ↔
      (∀ m, s.Holds m → t.Holds m) ∧ ¬ ∀ m, t.Holds m → s.Holds m := by
  have himp : ∀ s t : PaddingTest, (∀ r, s.condition.eval r = true → t.condition.eval r = true) ↔
      ∀ m, s.Holds m → t.Holds m := by
    intro s t
    simp only [eval_condition]
    constructor
    · intro h m
      exact h (.ofValues (fun _ => 0) m)
    · intro h r
      exact h r.padding
  rw [Condition.IsStronger, himp, himp]

theorem limits_le_of_get_le {a b : Margins} (h : ∀ s, a.get s ≤ b.get s) :
    a.limits ≤ b.limits := by
  unfold Margins.limits
  induction Side.all with
  | nil => exact List.le_refl []
  | cons s rest ih =>
    rw [List.map_cons, List.map_cons, List.cons_le_cons_iff]
    exact (UInt32.lt_or_eq_of_le (h s)).imp_right fun hs => ⟨hs, ih⟩

/-- Of two upper bounds the weaker one is tried first. -/
theorem precedes_of_narrower_bounds {a b : Margins}
    (himp : ∀ m, (atMost a).Holds m → (atMost b).Holds m)
    (hnot : ¬ ∀ m, (atMost b).Holds m → (atMost a).Holds m) : (atMost b).Precedes (atMost a) := by
  have hle : a.limits ≤ b.limits := limits_le_of_get_le (himp a fun s => UInt32.le_refl _)
  have hne : a ≠ b := by
    rintro rfl
    exact hnot himp
  refine .inr ⟨rfl, ?_⟩
  by_contra hlt
  exact hne (Margins.limits_inj (List.le_antisymm hle (List.not_lt.mp hlt)))

end PaddingTest

/-- A condition that bounds the padding from above. -/
def Condition.IsUpperBound (c : Condition) : Prop := ∃ m, c = (PaddingTest.atMost m).condition

theorem PaddingTest.isUpperBound_condition_iff (t : PaddingTest) :
    t.condition.IsUpperBound ↔ ∃ m, t = .atMost m := by
  constructor
  · rintro ⟨m, hm⟩
    cases t with
    | any => exact nomatch hm
    | exact limits => exact nomatch hm
    | atMost limits => exact ⟨limits, rfl⟩
  · rintro ⟨m, rfl⟩
    exact ⟨m, rfl⟩

namespace BranchKey

/-- No value that a level tests for implies another one. -/
theorem not_isStronger_field (f : Field) (m n : UInt32) :
    ¬ (Condition.eq (.field f) m).IsStronger (.eq (.field f) n) := by
  rintro ⟨himp, hnot⟩
  have hmn : m = n := by
    have hn := himp (.ofValues (fun _ => m) .zero)
    simpa [Operand.value] using hn
  rw [hmn] at hnot
  exact hnot fun r h => h

variable {p : Param} {u v : Variant}

/-- A key with a stronger condition than another one comes before it, unless both are upper bounds
on the padding, which come the other way round. -/
theorem before_of_isStronger
    (h : ((of p u).condition p).IsStronger ((of p v).condition p)) :
    (¬ (((of p u).condition p).IsUpperBound ∧ ((of p v).condition p).IsUpperBound) →
      (of p u).before (of p v) = true) ∧
    (((of p u).condition p).IsUpperBound ∧ ((of p v).condition p).IsUpperBound →
      (of p v).before (of p u) = true) := by
  cases p with
  | field f => exact absurd h (not_isStronger_field f _ _)
  | padding =>
    change (u.paddingTest.condition).IsStronger v.paddingTest.condition at h
    obtain ⟨himp, hnot⟩ := (PaddingTest.isStronger_condition_iff _ _).mp h
    simp only [of, condition, before_padding_iff, PaddingTest.isUpperBound_condition_iff]
    constructor
    · intro hbounds
      exact PaddingTest.precedes_of_narrower himp hnot fun a b ha hb =>
        absurd ⟨⟨a, ha⟩, b, hb⟩ hbounds
    · rintro ⟨⟨a, ha⟩, b, hb⟩
      rw [ha, hb] at himp hnot ⊢
      exact PaddingTest.precedes_of_narrower_bounds himp hnot

end BranchKey

/-- In a list in the order of the keys, what comes before by its key stands before. -/
theorem lt_of_before {gs : List Group}
    (hsorted : gs.Pairwise fun g k => g.key.before k.key = true) {i j : Nat} {g k : Group}
    (hi : gs[i]? = some g) (hj : gs[j]? = some k) (h : g.key.before k.key = true) : i < j := by
  obtain ⟨hilt, rfl⟩ := List.getElem?_eq_some_iff.mp hi
  obtain ⟨hjlt, rfl⟩ := List.getElem?_eq_some_iff.mp hj
  by_contra hij
  rcases Nat.lt_or_eq_of_le (Nat.not_lt.mp hij) with hlt | rfl
  · have hback := List.pairwise_iff_getElem.mp hsorted j i hjlt hilt hlt
    rw [BranchKey.not_before_of_before h] at hback
    exact Bool.noConfusion hback
  · rw [BranchKey.before_irrefl] at h
    exact Bool.noConfusion h

namespace Tree
variable {variants : List Variant} {hierarchy : List Param} {default : Variant} {p : Plan}
  {c : Arms} {i j : Nat} {a b : Condition × Node}

theorem exists_group_of_getElem?_levelArms {q : Param} {rest : List Param} {us : List Variant}
    (h : (levelArms default q rest us)[i]? = some a) :
    ∃ g, ((partition q us).filter fun g => !g.key.isWildcard)[i]? = some g ∧
      g.key.condition q = a.1 ∧ ∃ u ∈ us, BranchKey.of q u = g.key := by
  rw [levelArms, List.getElem?_map, Option.map_eq_some_iff] at h
  obtain ⟨g, hg, rfl⟩ := h
  have hmem : g ∈ partition q us := (List.mem_filter.mp (List.mem_of_getElem? hg)).1
  exact ⟨g, hg, rfl, (mem_partition hmem).1⟩

/-- Under a hierarchy that fixes the kernel first, one chain has no two upper bounds that differ. -/
theorem paddingTest_eq_of_upperBounds {passed : List Param} {u v : Variant}
    (hw : .field .kernelW ∈ passed) (hh : .field .kernelH ∈ passed)
    (hsame : ∀ q ∈ passed, BranchKey.of q u = BranchKey.of q v)
    (hu : u.paddingTest.condition.IsUpperBound) (hv : v.paddingTest.condition.IsUpperBound) :
    u.paddingTest = v.paddingTest := by
  obtain ⟨l, hl⟩ := (PaddingTest.isUpperBound_condition_iff _).mp hu
  obtain ⟨m, hm⟩ := (PaddingTest.isUpperBound_condition_iff _).mp hv
  have hkernelW : u.kernelW = v.kernelW := BranchKey.value.inj (hsame _ hw)
  have hkernelH : u.kernelH = v.kernelH := BranchKey.value.inj (hsame _ hh)
  have hmargins : u.kernelMargins = v.kernelMargins :=
    Variant.kernelMargins_congr hkernelW hkernelH
  rw [hl, hm, Variant.eq_kernelMargins_of_atMost hl, Variant.eq_kernelMargins_of_atMost hm, hmargins]

/-- Where the padding is tested at the deepest level, all other levels are above it. -/
theorem mem_above_padding {passed rest : List Param} {f : Field}
    (h : .padding ∉ (passed ++ .padding :: rest).dropLast)
    (hf : .field f ∈ passed ++ .padding :: rest) : .field f ∈ passed := by
  have hrest : rest = [] := by
    by_contra hne
    rw [List.dropLast_append_of_ne_nil (List.cons_ne_nil _ _),
      List.dropLast_cons_of_ne_nil hne] at h
    exact h (List.mem_append_right _ List.mem_cons_self)
  rw [hrest] at hf
  simpa using hf

/-- In the chains of a tree an arm with a stronger condition comes before one with a weaker
condition, unless both conditions are upper bounds on the padding. These come by descending limits,
so the weaker one is first. They meet only where the hierarchy leaves a side of the kernel open. -/
theorem plan_tests_stronger_first (hh : requireHierarchy hierarchy = .ok ())
    (hp : (plan variants hierarchy default).result = .ok p) (hc : c ∈ p.root.chains)
    (ha : c.toList[i]? = some a) (hb : c.toList[j]? = some b) (h : a.1.IsStronger b.1) :
    (¬ (a.1.IsUpperBound ∧ b.1.IsUpperBound) → i < j) ∧
      (a.1.IsUpperBound ∧ b.1.IsUpperBound → j < i) ∧
      (.field .kernelW ∈ hierarchy → .field .kernelH ∈ hierarchy → i < j) := by
  rw [root_of_plan hp] at hc
  obtain ⟨passed, q, rest, us, hlevels, -, harms, hsame⟩ := exists_level_of_mem_chains hc
  rw [harms] at ha hb
  obtain ⟨g, hg, hga, u, hu, hgu⟩ := exists_group_of_getElem?_levelArms ha
  obtain ⟨k, hk, hkb, v, hv, hkv⟩ := exists_group_of_getElem?_levelArms hb
  have hsorted : ((partition q us).filter fun g => !g.key.isWildcard).Pairwise
      fun g k => g.key.before k.key = true := (pairwise_partition q us).filter _
  rw [← hga, ← hkb, ← hgu, ← hkv] at h ⊢
  obtain ⟨hforth, hback⟩ := BranchKey.before_of_isStronger h
  rw [hgu, hkv] at hforth hback ⊢
  have hlt : ¬ (_ ∧ _) → i < j := fun hbounds => lt_of_before hsorted hg hk (hforth hbounds)
  have hgt : (_ ∧ _) → j < i := fun hbounds => lt_of_before hsorted hk hg (hback hbounds)
  refine ⟨hlt, hgt, fun hkw hkh => hlt ?_⟩
  rintro ⟨hbu, hbv⟩
  rw [← hgu] at hbu
  rw [← hkv] at hbv
  cases q with
  | field f => exact BranchKey.not_isStronger_field f _ _ h
  | padding =>
    have hdeepest := (requireHierarchy_eq_ok_iff.mp hh).2
    rw [hlevels] at hdeepest hkw hkh
    have htest : u.paddingTest = v.paddingTest :=
      paddingTest_eq_of_upperBounds (mem_above_padding hdeepest hkw)
        (mem_above_padding hdeepest hkh) (fun q hq => hsame q hq u hu v hv) hbu hbv
    change (u.paddingTest.condition).IsStronger v.paddingTest.condition at h
    rw [htest] at h
    exact h.2 fun r hr => hr

/-- The arm for no padding comes before the one for an upper bound, which is declared first. -/
theorem plan_tests_stronger_first_no_padding :
    let identity : Identity := ⟨"krn", .avePool, .chw, .fx16, []⟩
    let bounded : Variant :=
      { identity, kernelW := 3, kernelH := 3, strideW := 2, strideH := 2, padding := .krnPad }
    let valid : Variant := { identity, strideW := 2, strideH := 2, padding := .noPad }
    let default : Variant := .fallback identity []
    let none := PaddingTest.exact .zero
    let atMostOne := PaddingTest.atMost ⟨1, 1, 1, 1⟩
    let p : Plan := ⟨node default [.padding] [bounded, valid], []⟩
    let c : Arms :=
      .ofList [(none.condition, .call valid), (atMostOne.condition, .call bounded)] (.call default)
    requireHierarchy [.padding] = .ok () ∧
      (plan [bounded, valid] [.padding] default).result = .ok p ∧ c ∈ p.root.chains ∧
      c.toList[0]? = some (none.condition, .call valid) ∧
      c.toList[1]? = some (atMostOne.condition, .call bounded) ∧
      none.condition.IsStronger atMostOne.condition ∧
      ¬ (none.condition.IsUpperBound ∧ atMostOne.condition.IsUpperBound) ∧ 0 < 1 := by
  intro identity bounded valid default none atMostOne p c
  have hh : requireHierarchy [.padding] = .ok () := by decide
  have hstops : stops [] [.padding] [bounded, valid] =
      [.leaf ["padding:" ++ none.condition.text] [valid],
        .leaf ["padding:" ++ atMostOne.condition.text] [bounded]] := by
    cbv
  have hp : (plan [bounded, valid] [.padding] default).result = .ok p := by
    rw [plan, hstops]
    rfl
  have hroot : p.root = .chain c := by cbv
  have hc : c ∈ p.root.chains := by
    rw [hroot]
    exact List.mem_cons_self
  have hstronger : none.condition.IsStronger atMostOne.condition := by
    refine (PaddingTest.isStronger_condition_iff _ _).mpr ⟨?_, fun hback => ?_⟩
    · rintro m rfl
      exact PaddingTest.holds_zero_atMost _
    · have hone : none.Holds ⟨1, 1, 1, 1⟩ := hback _ (by decide)
      exact absurd hone (by decide)
  have hbounds : ¬ (none.condition.IsUpperBound ∧ atMostOne.condition.IsUpperBound) := by
    rintro ⟨hnone, -⟩
    obtain ⟨m, hm⟩ := (PaddingTest.isUpperBound_condition_iff _).mp hnone
    exact PaddingTest.noConfusion hm
  exact ⟨hh, hp, hc, rfl, rfl, hstronger, hbounds,
    (plan_tests_stronger_first hh hp hc rfl rfl hstronger).1 hbounds⟩

/-- The bound of the larger kernel comes first, although that of the smaller kernel is stronger. So
no call reaches the smaller kernel. -/
theorem plan_tests_weaker_bound_first :
    let identity : Identity := ⟨"krn", .avePool, .chw, .fx16, []⟩
    let small : Variant :=
      { identity, kernelW := 3, kernelH := 3, strideW := 2, strideH := 2, padding := .krnPad }
    let large : Variant :=
      { identity, kernelW := 5, kernelH := 5, strideW := 2, strideH := 2, padding := .krnPad }
    let default : Variant := .fallback identity []
    ∃ (p : Plan) (c : Arms) (i j : Nat) (a b : Condition × Node),
      requireHierarchy [.padding] = .ok () ∧
      (plan [small, large] [.padding] default).result = .ok p ∧ c ∈ p.root.chains ∧
      c.toList[i]? = some a ∧ c.toList[j]? = some b ∧ a.1.IsStronger b.1 ∧ ¬ i < j ∧
      ∀ r, p.select r ≠ small := by
  intro identity small large default
  let atMostOne := PaddingTest.atMost ⟨1, 1, 1, 1⟩
  let atMostTwo := PaddingTest.atMost ⟨2, 2, 2, 2⟩
  let p : Plan := ⟨node default [.padding] [small, large], []⟩
  let c : Arms :=
    .ofList [(atMostTwo.condition, .call large), (atMostOne.condition, .call small)] (.call default)
  have hstops : stops [] [.padding] [small, large] =
      [.leaf ["padding:" ++ atMostTwo.condition.text] [large],
        .leaf ["padding:" ++ atMostOne.condition.text] [small]] := by
    cbv
  have hp : (plan [small, large] [.padding] default).result = .ok p := by
    rw [plan, hstops]
    rfl
  have hroot : p.root = .chain c := by cbv
  have hc : c ∈ p.root.chains := by
    rw [hroot]
    exact List.mem_cons_self
  have himp : ∀ m, atMostOne.Holds m → atMostTwo.Holds m := by
    intro m hm s
    refine UInt32.le_trans (hm s) ?_
    cases s <;> decide
  have hstronger : atMostOne.condition.IsStronger atMostTwo.condition := by
    refine (PaddingTest.isStronger_condition_iff _ _).mpr ⟨himp, fun hback => ?_⟩
    have htwo : atMostOne.Holds ⟨2, 2, 2, 2⟩ := hback _ (by decide)
    exact absurd htwo (by decide)
  refine ⟨p, c, 1, 0, _, _, by decide, hp, hc, rfl, rfl, hstronger, by decide, fun r => ?_⟩
  have hselect : p.select r = if atMostTwo.condition.eval r then large
      else if atMostOne.condition.eval r then small else default := by
    rw [Plan.select, hroot]
    rfl
  rw [hselect]
  split_ifs with htwo hone
  · decide
  · exact absurd (hstronger.1 r hone) htwo
  · decide

end Tree
end KernelDispatch
