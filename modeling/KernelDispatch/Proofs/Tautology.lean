import KernelDispatch.Condition.Guard
import KernelDispatch.Proofs.Matching

/-! Tautologies: conditions without a comparison have the text `(1)`, and among the conditions of
variants they are those that every call fits. -/
namespace KernelDispatch

/-- The name of no wrapper variable begins like the text of a tautology. -/
theorem Operand.exists_word_eq_cons (o : Operand) :
    ∃ c cs, o.word.toList = c :: cs ∧ c ≠ '1' := by
  cases o with
  | field f => cases f <;> exact ⟨_, _, rfl, by decide⟩
  | padding s => cases s <;> exact ⟨_, _, rfl, by decide⟩

namespace Condition

theorem exists_text_eq_append {c : Condition} {first : Comparison} {rest : List Comparison}
    (h : c.comparisons = first :: rest) :
    ∃ after, c.text = "(" ++ first.operand.word ++ after := by
  have hfirst : ∃ after, first.text = "(" ++ first.operand.word ++ after :=
    ⟨" " ++ first.relation.word ++ " " ++ Text.decimal first.limit ++ ")",
      by simp only [Comparison.text, String.append_assoc]⟩
  obtain ⟨after, hafter⟩ := hfirst
  unfold text
  rw [h]
  cases rest with
  | nil => exact ⟨after, (String.intercalate_singleton).trans hafter⟩
  | cons second more =>
    refine ⟨after ++ " && " ++ " && ".intercalate ((second :: more).map Comparison.text), ?_⟩
    simp only [List.map_cons, String.intercalate_cons_cons, hafter, String.append_assoc]

theorem isAlways_iff_text (c : Condition) : c.isAlways = true ↔ c.text = "(1)" := by
  rw [isAlways_eq_isEmpty, List.isEmpty_iff]
  constructor
  · intro h
    rw [text, h]
  · intro h
    cases hcs : c.comparisons with
    | nil => rfl
    | cons first rest =>
      obtain ⟨after, htext⟩ := exists_text_eq_append hcs
      obtain ⟨letter, letters, hword, hne⟩ := first.operand.exists_word_eq_cons
      rw [h, ← String.toList_inj, String.toList_append, String.toList_append, hword] at htext
      have hletter : '1' = letter := (List.cons.inj (List.cons.inj htext).2).1
      exact absurd hletter.symm hne

/-- A term that stands alone stays as it is, unless it is a tautology. -/
theorem conj_singleton (c : Condition) : conj [c] = if c.isAlways then .always else c := by
  cases h : c.isAlways with
  | true => simp [conj, h]
  | false => simp [conj, h]

/-- A conjunction that is a tautology is the plain one. -/
theorem conj_eq_always {parts : List Condition} (h : (conj parts).isAlways = true) :
    conj parts = .always := by
  rw [isAlways_conj, List.all_eq_true] at h
  have hnone : (parts.filter fun c => !c.isAlways) = [] := by
    refine List.filter_eq_nil_iff.mpr fun c hc => ?_
    simp [h c hc]
  rw [conj, hnone]

theorem conj_conj (parts : List Condition) : conj [conj parts] = conj parts := by
  rw [conj_singleton]
  split
  · next h => exact (conj_eq_always h).symm
  · rfl

end Condition

/-- Only the test that asks for nothing passes every padding. -/
theorem Variant.isAlways_paddingCondition_iff (v : Variant) :
    v.paddingCondition.isAlways = true ↔ ∀ r, v.paddingCondition.eval r = true := by
  rw [paddingCondition, PaddingTest.isAlways_condition, paddingTest_eq_any_iff]
  simp only [PaddingTest.eval_condition]
  exact ⟨fun h r => h r.padding, fun h m => h { Runtime.outlying with padding := m }⟩

theorem Variant.isAlways_condition_iff_eval (v : Variant) :
    v.condition.isAlways = true ↔ ∀ r, v.condition.eval r = true := by
  simp only [isAlways_condition_iff_fits, eval_condition]

/-- The test for a tautology by form is the test whether the text is `(1)`, and what passes it holds
for every call. A conjunction means all its parts, passes the test if they all do, and does not
change when it is conjoined again. On the padding conditions and the conditions of variants the test
is exact. -/
theorem Condition.isAlways_exact :
    (∀ c : Condition, (c.isAlways = true ↔ c.text = "(1)") ∧
      (c.isAlways = true → ∀ r, c.eval r = true) ∧
      conj [c] = if c.isAlways then .always else c) ∧
    (∀ parts : List Condition, (∀ r, (conj parts).eval r = true ↔ ∀ c ∈ parts, c.eval r = true) ∧
      ((conj parts).isAlways = true ↔ ∀ c ∈ parts, c.isAlways = true) ∧
      conj [conj parts] = conj parts ∧
      ((conj parts).isAlways = true → conj [conj parts] = .always)) ∧
    ∀ v : Variant,
      (v.paddingCondition.isAlways = true ↔ ∀ r, v.paddingCondition.eval r = true) ∧
      (v.condition.isAlways = true ↔ ∀ r, v.condition.eval r = true) := by
  refine ⟨fun c => ⟨c.isAlways_iff_text, fun h r => eval_of_isAlways r h, conj_singleton c⟩,
    fun parts => ⟨fun r => ?_, ?_, conj_conj parts, fun h => ?_⟩,
    fun v => ⟨v.isAlways_paddingCondition_iff, v.isAlways_condition_iff_eval⟩⟩
  · rw [eval_conj, List.all_eq_true]
  · rw [isAlways_conj, List.all_eq_true]
  · rw [conj_conj, conj_eq_always h]

/-- On other conditions the test is not exact: no value of a word exceeds the greatest, which the
form of a comparison does not tell. -/
theorem Condition.exists_eval_of_not_isAlways :
    ∃ c : Condition, c.isAlways = false ∧ ∀ r, c.eval r = true := by
  refine ⟨.le (.padding .top) 0xFFFFFFFF, rfl, fun r => (eval_le r _ _).mpr ?_⟩
  exact UInt32.le_iff_toNat_le.mpr (Nat.le_of_lt_succ (UInt32.toNat_lt _))

end KernelDispatch
