import KernelDispatch.Proofs.Selection

/-! The chains of conditions that a plan consists of, and those of a tree told from its levels. -/
namespace KernelDispatch

mutual
/-- The chains of a plan, each before those that it leads to. -/
def Node.chains : Node → List Arms
  | .call _ => []
  | .chain arms => arms :: arms.innerChains

/-- The chains in the plans that the arms of a chain lead to. -/
def Arms.innerChains : Arms → List Arms
  | .otherwise n => n.chains
  | .arm _ n rest => n.chains ++ rest.innerChains
end

theorem Arms.mem_innerChains_ofList {arms : List (Condition × Node)} {last : Node} {c : Arms} :
    c ∈ (ofList arms last).innerChains ↔ (∃ a ∈ arms, c ∈ a.2.chains) ∨ c ∈ last.chains := by
  induction arms with
  | nil =>
    show c ∈ last.chains ↔ _
    simp
  | cons a rest ih =>
    show c ∈ a.2.chains ++ (ofList rest last).innerChains ↔ _
    rw [List.mem_append, ih]
    simp [or_assoc]

namespace Tree

/-- The arms of the level of a parameter. The group of the wildcard has none. -/
def levelArms (default : Variant) (p : Param) (rest : List Param) (vs : List Variant) :
    List (Condition × Node) :=
  ((partition p vs).filter fun g => !g.key.isWildcard).map fun g =>
    (g.key.condition p, node default rest (g.kept p))

/-- A chain is that of one level, for variants that no level above it tells apart. -/
theorem exists_level_of_mem_chains {default : Variant} {hierarchy : List Param}
    {vs : List Variant} {c : Arms} (h : c ∈ (node default hierarchy vs).chains) :
    ∃ passed p rest us, hierarchy = passed ++ p :: rest ∧ us ⊆ vs ∧
      c.toList = levelArms default p rest us ∧
      ∀ q ∈ passed, ∀ u ∈ us, ∀ v ∈ us, BranchKey.of q u = BranchKey.of q v := by
  induction hierarchy generalizing vs with
  | nil => exact absurd h List.not_mem_nil
  | cons p rest ih =>
    have hbelow : ∀ g ∈ partition p vs, c ∈ (node default rest (g.kept p)).chains →
        ∃ passed q below us, p :: rest = passed ++ q :: below ∧ us ⊆ vs ∧
          c.toList = levelArms default q below us ∧
          ∀ q ∈ passed, ∀ u ∈ us, ∀ v ∈ us, BranchKey.of q u = BranchKey.of q v := by
      intro g hg hc
      obtain ⟨passed, q, below, us, hrest, hus, harms, hsame⟩ := ih hc
      have hmembers : ∀ u ∈ us, u ∈ vs ∧ BranchKey.of p u = g.key := fun u hu =>
        (mem_members_iff hg).mp ((g.kept_sublist p).subset (hus hu))
      refine ⟨p :: passed, q, below, us, by rw [hrest, List.cons_append],
        fun u hu => (hmembers u hu).1, harms, ?_⟩
      intro q' hq' u hu v hv
      rcases List.mem_cons.mp hq' with rfl | hq'
      · exact (hmembers u hu).2.trans (hmembers v hv).2.symm
      · exact hsame q' hq' u hu v hv
    rw [node, Node.chains, List.mem_cons, Arms.mem_innerChains_ofList] at h
    rcases h with rfl | ⟨a, ha, hc⟩ | hc
    · exact ⟨[], p, rest, vs, rfl, List.Subset.refl vs, Arms.toList_ofList _ _,
        fun _ hq => absurd hq List.not_mem_nil⟩
    · obtain ⟨g, hg, rfl⟩ := List.mem_map.mp ha
      exact hbelow g (List.mem_filter.mp hg).1 hc
    · cases hfind : (partition p vs).find? fun g => g.key.isWildcard with
      | none =>
        rw [hfind] at hc
        exact absurd hc List.not_mem_nil
      | some g =>
        rw [hfind] at hc
        exact hbelow g (List.mem_of_find?_eq_some hfind) hc

end Tree
end KernelDispatch
