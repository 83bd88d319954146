import KernelDispatch.Proofs.FlatRouting

/-! The order in which the levels of a hierarchy meet the variants. -/
namespace KernelDispatch

namespace Variant

/-- What a variant presents to the levels of a hierarchy. -/
def keys (hierarchy : List Param) (v : Variant) : List BranchKey :=
  hierarchy.map fun p => BranchKey.of p v

/-- A variant precedes another if its key does at the first level that tells the two apart. -/
def Precedes (hierarchy : List Param) (u v : Variant) : Prop :=
  List.Lex (fun a b => a.before b = true) (u.keys hierarchy) (v.keys hierarchy)

theorem keys_cons (p : Param) (rest : List Param) (v : Variant) :
    v.keys (p :: rest) = BranchKey.of p v :: v.keys rest := rfl

theorem precedes_cons {p : Param} {rest : List Param} {u v : Variant} :
    u.Precedes (p :: rest) v ↔ (BranchKey.of p u).before (BranchKey.of p v) = true ∨
      BranchKey.of p u = BranchKey.of p v ∧ u.Precedes rest v :=
  List.cons_lex_cons_iff

theorem not_precedes_nil (u v : Variant) : ¬ u.Precedes [] v := List.not_lex_nil

theorem not_precedes_self (hierarchy : List Param) (v : Variant) : ¬ v.Precedes hierarchy v := by
  induction hierarchy with
  | nil => exact not_precedes_nil v v
  | cons p rest ih =>
    rw [precedes_cons, BranchKey.before_irrefl]
    simpa using ih

/-- The deepest level decides where all levels above it present the same keys. -/
theorem precedes_concat {hierarchy : List Param} {p : Param} {u v : Variant} :
    u.Precedes (hierarchy ++ [p]) v ↔ u.Precedes hierarchy v ∨
      u.keys hierarchy = v.keys hierarchy ∧
        (BranchKey.of p u).before (BranchKey.of p v) = true := by
  induction hierarchy with
  | nil =>
    rw [List.nil_append, precedes_cons]
    simp [not_precedes_nil, keys]
  | cons q rest ih =>
    rw [List.cons_append, precedes_cons, precedes_cons, ih, keys_cons, keys_cons, List.cons.injEq]
    tauto

end Variant

namespace Flat

/-- No variant is met after one that it precedes. -/
theorem pairwise_order (hierarchy : List Param) (vs : List Variant) :
    (order hierarchy vs).Pairwise fun u v => ¬ v.Precedes hierarchy u := by
  induction hierarchy generalizing vs with
  | nil => exact List.pairwise_of_forall fun u v => Variant.not_precedes_nil v u
  | cons p rest ih =>
    rw [order, List.pairwise_flatMap]
    constructor
    · intro g hg
      refine (ih g.members).imp_of_mem fun {u v} hu hv hnot => ?_
      rw [Variant.precedes_cons, key_of_mem_order hg hu, key_of_mem_order hg hv,
        BranchKey.before_irrefl]
      simpa using hnot
    · refine (pairwise_partition p vs).imp_of_mem fun {g k} hg hk hgk u hu v hv => ?_
      rw [Variant.precedes_cons, key_of_mem_order hg hu, key_of_mem_order hk hv,
        BranchKey.not_before_of_before hgk]
      have hne : k.key ≠ g.key := by
        intro h
        rw [h, BranchKey.before_irrefl] at hgk
        exact Bool.noConfusion hgk
      simp [hne]

end Flat
end KernelDispatch
