import KernelDispatch.Variant.Match
import Mathlib.Tactic.Common

/-! The calls that a variant fits, said apart from the condition that a wrapper tests. -/
namespace KernelDispatch

@[simp] theorem Field.mem_all (f : Field) : f ∈ Field.all := by cases f <;> decide

@[simp] theorem Side.mem_all (s : Side) : s ∈ Side.all := by cases s <;> decide

theorem Param.mem_all (p : Param) : p ∈ Param.all := by
  cases p with
  | field f => exact List.mem_append_left _ (List.mem_map_of_mem f.mem_all)
  | padding => decide

theorem Margins.eq_of_get_eq {m n : Margins} (h : ∀ s, m.get s = n.get s) : m = n := by
  obtain ⟨mt, mb, ml, mr⟩ := m
  obtain ⟨nt, nb, nl, nr⟩ := n
  have ht : mt = nt := h .top
  have hb : mb = nb := h .bottom
  have hl : ml = nl := h .left
  have hr : mr = nr := h .right
  rw [ht, hb, hl, hr]

/-- More padding at the top than the kernel of any variant implies. -/
def Margins.beyond : Margins := ⟨0x80000000, 0, 0, 0⟩

/-- The call that only the variants without any condition fit. -/
def Runtime.outlying : Runtime := ⟨0, 0, 0, 0, 0, .beyond⟩

/-- The padding that a test admits. -/
def PaddingTest.Holds : PaddingTest → Margins → Prop
  | .any, _ => True
  | .exact limits, m => m = limits
  | .atMost limits, m => ∀ s, m.get s ≤ limits.get s

instance (t : PaddingTest) (m : Margins) : Decidable (t.Holds m) :=
  match t with
  | .any => inferInstanceAs (Decidable True)
  | .exact limits => inferInstanceAs (Decidable (m = limits))
  | .atMost limits =>
    decidable_of_iff (∀ s ∈ Side.all, m.get s ≤ limits.get s) (by simp [PaddingTest.Holds])

/-- A variant fits the calls that have every value it is fixed to and a padding it admits. -/
def Variant.Fits (v : Variant) (r : Runtime) : Prop :=
  (∀ f, v.value f ≠ 0 → v.value f = r.value f) ∧ v.paddingTest.Holds r.padding

instance (v : Variant) (r : Runtime) : Decidable (v.Fits r) :=
  decidable_of_iff
    ((∀ f ∈ Field.all, v.value f ≠ 0 → v.value f = r.value f) ∧ v.paddingTest.Holds r.padding)
    (by simp [Variant.Fits])

namespace Condition

@[simp] theorem eval_always (r : Runtime) : always.eval r = true := rfl

@[simp] theorem eval_all (r : Runtime) (ts : List Condition) :
    (all ts).eval r = ts.all (eval r) := evalAll_eq r ts

@[simp] theorem isAlways_all (ts : List Condition) : (all ts).isAlways = ts.all isAlways :=
  areAlways_eq ts

@[simp] theorem eval_eq (r : Runtime) (o : Operand) (n : UInt32) :
    (eq o n).eval r = true ↔ o.value r = n := by
  simp [eq, eval, Comparison.eval, Relation.holds]

@[simp] theorem eval_le (r : Runtime) (o : Operand) (n : UInt32) :
    (le o n).eval r = true ↔ o.value r ≤ n := by
  simp [le, eval, Comparison.eval, Relation.holds]

@[simp] theorem isAlways_eq (o : Operand) (n : UInt32) : (eq o n).isAlways = false := rfl

@[simp] theorem isAlways_le (o : Operand) (n : UInt32) : (le o n).isAlways = false := rfl

mutual
/-- A condition holds where all comparisons in it do. -/
theorem eval_eq_all_comparisons (r : Runtime) :
    ∀ c : Condition, c.eval r = c.comparisons.all fun d => d.eval r
  | .always => rfl
  | .compare _ => (Bool.and_true _).symm
  | .all ts => evalAll_eq_all_comparisons r ts

private theorem evalAll_eq_all_comparisons (r : Runtime) :
    ∀ ts : List Condition, evalAll r ts = (comparisonsAll ts).all fun d => d.eval r
  | [] => rfl
  | t :: ts => by
    rw [evalAll, comparisonsAll, List.all_append, eval_eq_all_comparisons r t,
      evalAll_eq_all_comparisons r ts]
end

mutual
theorem isAlways_eq_isEmpty : ∀ c : Condition, c.isAlways = c.comparisons.isEmpty
  | .always => rfl
  | .compare _ => rfl
  | .all ts => areAlways_eq_isEmpty ts

private theorem areAlways_eq_isEmpty :
    ∀ ts : List Condition, areAlways ts = (comparisonsAll ts).isEmpty
  | [] => rfl
  | t :: ts => by
    rw [areAlways, comparisonsAll, isAlways_eq_isEmpty t, areAlways_eq_isEmpty ts]
    cases t.comparisons <;> rfl
end

/-- A tautology by its form holds for every call. -/
theorem eval_of_isAlways (r : Runtime) {c : Condition} (h : c.isAlways = true) :
    c.eval r = true := by
  rw [isAlways_eq_isEmpty, List.isEmpty_iff] at h
  rw [eval_eq_all_comparisons, h, List.all_nil]

/-- Leaving the tautologies out does not change a conjunction. -/
theorem eval_conj (r : Runtime) (parts : List Condition) :
    (conj parts).eval r = parts.all (eval r) := by
  have hdrop : (parts.filter fun c => !c.isAlways).all (eval r) = parts.all (eval r) := by
    rw [List.all_filter, Bool.eq_iff_iff, List.all_eq_true, List.all_eq_true]
    refine forall₂_congr fun c _ => ?_
    cases h : c.isAlways with
    | true => simp [eval_of_isAlways r h]
    | false => simp
  rw [← hdrop]
  unfold conj
  split
  · next h => rw [h]; rfl
  · next c h => rw [h]; simp
  · rw [eval_all]

theorem isAlways_conj (parts : List Condition) :
    (conj parts).isAlways = parts.all isAlways := by
  have hall : parts.all isAlways = (parts.filter fun c => !c.isAlways).isEmpty := by
    rw [Bool.eq_iff_iff, List.isEmpty_iff, List.filter_eq_nil_iff, List.all_eq_true]
    simp
  rw [hall]
  unfold conj
  cases hleft : parts.filter fun c => !c.isAlways with
  | nil => rfl
  | cons c cs =>
    have hmem : c ∈ parts.filter fun c => !c.isAlways := hleft ▸ List.mem_cons_self
    have hc : c.isAlways = false := by simpa using (List.mem_filter.mp hmem).2
    cases cs with
    | nil => exact hc
    | cons d ds => simp [hc]

end Condition

namespace PaddingTest

theorem eval_condition (t : PaddingTest) (r : Runtime) :
    t.condition.eval r = true ↔ t.Holds r.padding := by
  cases t with
  | any => simp [condition, Holds]
  | exact limits =>
    simp only [condition, Condition.eval_all, List.all_map, List.all_eq_true, Holds,
      Function.comp_apply, Condition.eval_eq, Operand.value, Side.mem_all, true_implies]
    exact ⟨fun h => Margins.eq_of_get_eq h, fun h s => congrArg (·.get s) h⟩
  | atMost limits =>
    simp [condition, Holds, List.all_map, Operand.value]

@[simp] theorem isAlways_condition (t : PaddingTest) :
    t.condition.isAlways = true ↔ t = .any := by
  cases t with
  | any => exact iff_of_true rfl rfl
  | exact limits => exact iff_of_false (by simp [condition, Side.all]) nofun
  | atMost limits => exact iff_of_false (by simp [condition, Side.all]) nofun

@[simp] theorem holds_any (m : Margins) : any.Holds m ↔ True := Iff.rfl

@[simp] theorem holds_exact {limits m : Margins} : (exact limits).Holds m ↔ m = limits := Iff.rfl

theorem holds_zero_atMost (limits : Margins) : (atMost limits).Holds .zero := by
  intro s
  have hzero : Margins.zero.get s = 0 := by cases s <;> rfl
  rw [hzero]
  exact UInt32.zero_le

/-- Only no padding at all is at most none. -/
theorem holds_atMost_zero_iff {m : Margins} : (atMost .zero).Holds m ↔ m = .zero := by
  constructor
  · intro h
    refine Margins.eq_of_get_eq fun s => ?_
    have hs := h s
    cases s <;> exact UInt32.le_antisymm hs UInt32.zero_le
  · rintro rfl
    exact holds_zero_atMost .zero

end PaddingTest

namespace Variant

/-- The condition of a variant tests what the variant fits. -/
theorem eval_condition (v : Variant) (r : Runtime) : v.condition.eval r = true ↔ v.Fits r := by
  simp only [condition, Condition.eval_conj, List.all_append, List.all_map, List.all_filter,
    Bool.and_eq_true, List.all_eq_true, List.mem_singleton, forall_eq, Function.comp_apply,
    Field.mem_all, true_implies, Fits]
  refine and_congr (forall_congr' fun f => ?_) (v.paddingTest.eval_condition r)
  by_cases hf : v.value f = 0
  · simp [hf]
  · simp only [ne_eq, hf, not_false_eq_true, decide_true, Bool.not_true, Bool.false_or,
      Condition.eval_eq, Operand.value, true_implies]
    exact eq_comm

theorem isAlways_condition (v : Variant) :
    v.condition.isAlways = true ↔ (∀ f, v.value f = 0) ∧ v.paddingTest = .any := by
  simp only [condition, Condition.isAlways_conj, List.all_append, List.all_map, List.all_filter,
    Bool.and_eq_true, List.all_eq_true, List.mem_singleton, forall_eq, Function.comp_apply,
    Field.mem_all, true_implies]
  refine and_congr (forall_congr' fun f => ?_) v.paddingTest.isAlways_condition
  simp

theorem top_kernelMargins_lt (v : Variant) : v.kernelMargins.top < 0x80000000 := by
  have hlt : (v.kernelH - 1).toNat < 2 ^ 32 := UInt32.toNat_lt _
  rw [UInt32.lt_iff_toNat_lt]
  change ((v.kernelH - 1) / 2).toNat < 2 ^ 31
  rw [UInt32.toNat_div]
  change (v.kernelH - 1).toNat / 2 < 2 ^ 31
  omega

/-- The limits of a padding test are half a kernel at most, so that a test that lets more padding
than that pass is a tautology by its form already. -/
theorem paddingTest_eq_any_of_holds {v : Variant} (h : v.paddingTest.Holds .beyond) :
    v.paddingTest = .any := by
  have hlt := v.top_kernelMargins_lt
  unfold paddingTest at h ⊢
  split at h
  · rfl
  · exact absurd h (by decide)
  · split_ifs at h with hk hs
    · rw [← congrArg Margins.top h] at hlt
      exact absurd hlt (by decide)
    · exact absurd hlt (UInt32.not_lt.mpr (h .top))
    · rw [if_neg hk]

theorem paddingTest_eq_any_iff (v : Variant) :
    v.paddingTest = .any ↔ ∀ m, v.paddingTest.Holds m :=
  ⟨fun h _ => h ▸ trivial, fun h => paddingTest_eq_any_of_holds (h .beyond)⟩

theorem fits_outlying_iff (v : Variant) :
    v.Fits .outlying ↔ (∀ f, v.value f = 0) ∧ v.paddingTest = .any := by
  constructor
  · rintro ⟨hvalue, hpadding⟩
    refine ⟨fun f => ?_, paddingTest_eq_any_of_holds hpadding⟩
    by_contra hf
    have hopen := hvalue f hf
    cases f <;> exact hf hopen
  · rintro ⟨hvalue, hpadding⟩
    exact ⟨fun f hf => absurd (hvalue f) hf, hpadding ▸ trivial⟩

theorem isAlways_condition_iff_fits (v : Variant) :
    v.condition.isAlways = true ↔ ∀ r, v.Fits r := by
  constructor
  · intro h r
    exact (v.eval_condition r).mp (Condition.eval_of_isAlways r h)
  · intro h
    exact v.isAlways_condition.mpr (v.fits_outlying_iff.mp (h .outlying))

end Variant
end KernelDispatch
