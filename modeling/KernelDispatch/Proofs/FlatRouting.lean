import KernelDispatch.Plan.Flat
import KernelDispatch.Proofs.Selection
import Mathlib.Data.List.TakeWhile

/-! Routing by a flat chain: the first candidate whose condition holds is called. A candidate that
fits every call closes the chain, and those after it are reported. -/
namespace KernelDispatch

/-- Ordering the variants along a hierarchy neither loses nor adds one. -/
@[simp] theorem Flat.mem_order {hierarchy : List Param} {vs : List Variant} {v : Variant} :
    v ∈ order hierarchy vs ↔ v ∈ vs := by
  induction hierarchy generalizing vs with
  | nil => rfl
  | cons p rest ih =>
    rw [order, List.mem_flatMap]
    simp only [ih]
    constructor
    · rintro ⟨g, hg, hv⟩
      exact ((mem_members_iff hg).mp hv).1
    · intro hv
      obtain ⟨g, hg, hkey⟩ := exists_mem_partition (p := p) hv
      exact ⟨g, hg, (mem_members_iff hg).mpr ⟨hv, hkey.symm⟩⟩

theorem Flat.key_of_mem_order {p : Param} {rest : List Param} {vs : List Variant} {g : Group}
    (hg : g ∈ partition p vs) {v : Variant} (hv : v ∈ order rest g.members) :
    BranchKey.of p v = g.key :=
  ((mem_members_iff hg).mp (mem_order.mp hv)).2

theorem Flat.mem_candidates {hierarchy : List Param} {vs : List Variant} {v : Variant} :
    v ∈ candidates hierarchy vs ↔ v ∈ vs ∧ v.generic = false := by
  simp [candidates]

namespace Flat

theorem isConditional_iff (v : Variant) : isConditional v = true ↔ ¬ ∀ r, v.Fits r := by
  rw [← v.isAlways_condition_iff_fits]
  simp [isConditional]

/-- Closing the chain at a candidate that fits every call changes no choice. -/
theorem select_node (default : Variant) (candidates : List Variant) (r : Runtime) :
    (node default candidates).select r =
      (candidates.find? fun v => v.condition.eval r).getD default := by
  rw [node, Node.select, Arms.select_ofList, List.find?_map]
  induction candidates with
  | nil => rfl
  | cons v rest ih =>
    cases hc : isConditional v with
    | false =>
      have halways : v.condition.eval r = true :=
        Condition.eval_of_isAlways r (by simpa [isConditional] using hc)
      simp [hc, halways, ending, Node.select]
    | true =>
      cases hv : v.condition.eval r with
      | true => simp [hc, hv, Node.select]
      | false =>
        have hending : ending default (v :: rest) = ending default rest := by simp [ending, hc]
        rw [hending, List.takeWhile_cons_of_pos hc, List.find?_cons_of_neg (by simp [hv]),
          List.find?_cons_of_neg (by simp [hv])]
        exact ih

theorem select_node_candidates (default : Variant) (hierarchy : List Param) (vs : List Variant)
    (r : Runtime) :
    (node default (candidates hierarchy vs)).select r =
      ((order hierarchy vs).find? fun v => !v.generic && v.condition.eval r).getD default := by
  rw [select_node, candidates, List.find?_filter]
  simp only [Bool.decide_and, Bool.decide_eq_true]

/-- A chain calls the default only where no candidate fits. -/
theorem select_node_eq_or_mem (default : Variant) (candidates : List Variant) (r : Runtime) :
    (node default candidates).select r = default ∧
        (∀ v ∈ candidates, v.condition.eval r = false) ∨
      (node default candidates).select r ∈ candidates ∧
        ((node default candidates).select r).condition.eval r = true := by
  rw [select_node]
  cases hfind : candidates.find? fun v => v.condition.eval r with
  | none => exact .inl ⟨rfl, fun v hv => by simpa using List.find?_eq_none.mp hfind v hv⟩
  | some v =>
    have hfits := List.find?_some hfind
    exact .inr ⟨List.mem_of_find?_eq_some hfind, hfits⟩

theorem finding_eq_none {candidates : List Variant} (h : ∀ v ∈ candidates, ¬ ∀ r, v.Fits r) :
    finding candidates = none := by
  have hdrop : candidates.dropWhile isConditional = [] :=
    List.dropWhile_eq_nil_iff.mpr fun v hv => (isConditional_iff v).mpr (h v hv)
  rw [finding, hdrop]

/-- What follows the first candidate that fits every call is reported. -/
theorem finding_append {before after : List Variant} {v : Variant}
    (hbefore : ∀ u ∈ before, ¬ ∀ r, u.Fits r) (hv : ∀ r, v.Fits r) :
    finding (before ++ v :: after) =
      if after = [] then none else some (.unreachable v.symbol (after.map Variant.symbol)) := by
  have hclosing : isConditional v = false := by
    rw [Bool.eq_false_iff, ne_eq, isConditional_iff]
    exact not_not_intro hv
  have hdrop : (before ++ v :: after).dropWhile isConditional = v :: after := by
    rw [List.dropWhile_append_of_pos fun u hu => (isConditional_iff u).mpr (hbefore u hu),
      List.dropWhile_cons_of_neg (by simp [hclosing])]
  rw [finding, hdrop]
  cases after with
  | nil => rfl
  | cons u us => rfl

/-- A flat plan always exists and calls the first candidate whose condition holds, so a call that
some candidate fits never falls to the default. The only finding names the candidates after the
first that fits every call. -/
theorem plan_selects_first_match (variants : List Variant) (hierarchy : List Param)
    (default : Variant) :
    ∃ p, (plan variants hierarchy default).result = .ok p ∧
      (∀ r, p.select r = (((order hierarchy variants).filter fun v => !v.generic).find?
        fun v => v.condition.eval r).getD default) ∧
      (∀ (v : Variant) (r : Runtime), v.condition.eval r = true ↔
        (∀ f, v.value f ≠ 0 → v.value f = r.value f) ∧ v.paddingCondition.eval r = true) ∧
      (∀ v ∈ variants, v.generic = false → ∀ r, v.condition.eval r = true →
        p.select r ∈ variants ∧ (p.select r).generic = false ∧
          (p.select r).condition.eval r = true) ∧
      ((∀ v ∈ variants, v.generic = false → ¬ ∀ r, v.condition.eval r = true) →
        p.findings = []) ∧
      ∀ before v after, ((order hierarchy variants).filter fun v => !v.generic) =
          before ++ v :: after →
        (∀ u ∈ before, ¬ ∀ r, u.condition.eval r = true) → (∀ r, v.condition.eval r = true) →
        p.findings = if after = [] then []
          else [.unreachable v.symbol (after.map Variant.symbol)] := by
  refine ⟨⟨node default (candidates hierarchy variants), _⟩, rfl, fun r => ?_, fun v r => ?_,
    fun v hv hgeneric r hfit => ?_, fun hnone => ?_, fun before v after hsplit hbefore hfit => ?_⟩
  · exact select_node default _ r
  · rw [v.eval_condition, Variant.Fits, Variant.paddingCondition, PaddingTest.eval_condition]
  · rw [Plan.select, select_node]
    cases hfind : (candidates hierarchy variants).find? fun v => v.condition.eval r with
    | none =>
      exact absurd hfit (List.find?_eq_none.mp hfind v (mem_candidates.mpr ⟨hv, hgeneric⟩))
    | some u =>
      obtain ⟨hu, hug⟩ := mem_candidates.mp (List.mem_of_find?_eq_some hfind)
      have hfits := List.find?_some hfind
      exact ⟨hu, hug, hfits⟩
  · have hcandidates : ∀ v ∈ candidates hierarchy variants, ¬ ∀ r, v.Fits r := by
      intro v hv hfit
      obtain ⟨hmem, hgeneric⟩ := mem_candidates.mp hv
      exact hnone v hmem hgeneric fun r => (v.eval_condition r).mpr (hfit r)
    rw [finding_eq_none hcandidates]
    rfl
  · simp only [Variant.eval_condition] at hbefore hfit
    change (finding (candidates hierarchy variants)).toList = _
    rw [candidates, hsplit, finding_append hbefore hfit]
    split <;> rfl

end Flat
end KernelDispatch
