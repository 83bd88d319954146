/-! Repetitions in a list. -/
namespace KernelDispatch

/-- The first element of a list that is in `seen` or earlier in the list. -/
def firstRepeated {α : Type} [DecidableEq α] (seen : List α) : List α → Option α
  | [] => none
  | a :: rest => if a ∈ seen then some a else firstRepeated (a :: seen) rest

theorem firstRepeated_eq_none_iff {α : Type} [DecidableEq α] {seen as : List α} :
    firstRepeated seen as = none ↔ as.Nodup ∧ ∀ a ∈ as, a ∉ seen := by
  induction as generalizing seen with
  | nil => simp [firstRepeated]
  | cons a rest ih =>
    by_cases h : a ∈ seen
    · simp [firstRepeated, h]
    · simp only [firstRepeated, h, if_false, ih, List.nodup_cons, List.mem_cons, not_or]
      constructor
      · rintro ⟨hd, hs⟩
        refine ⟨⟨fun hm => (hs a hm).1 rfl, hd⟩, ?_⟩
        rintro b (rfl | hb)
        · exact h
        · exact (hs b hb).2
      · rintro ⟨⟨ha, hd⟩, hs⟩
        exact ⟨hd, fun b hb => ⟨fun e => ha (e ▸ hb), hs b (.inr hb)⟩⟩

/-- The first repetition follows a part without repetitions, in which or before which it is. -/
theorem firstRepeated_eq_some_iff {α : Type} [DecidableEq α] {seen as : List α} {a : α} :
    firstRepeated seen as = some a ↔ ∃ before after, as = before ++ a :: after ∧
      firstRepeated seen before = none ∧ (a ∈ seen ∨ a ∈ before) := by
  induction as generalizing seen with
  | nil => simp [firstRepeated]
  | cons x rest ih =>
    by_cases hx : x ∈ seen
    · rw [firstRepeated, if_pos hx]
      constructor
      · intro h
        obtain rfl := Option.some.inj h
        exact ⟨[], rest, rfl, rfl, .inl hx⟩
      · rintro ⟨before, after, hsplit, hnone, -⟩
        cases before with
        | nil => rw [(List.cons.inj hsplit).1]
        | cons b before =>
          rw [← (List.cons.inj hsplit).1, firstRepeated, if_pos hx] at hnone
          exact nomatch hnone
    · rw [firstRepeated, if_neg hx, ih]
      constructor
      · rintro ⟨before, after, rfl, hnone, hmem⟩
        refine ⟨x :: before, after, rfl, by rw [firstRepeated, if_neg hx, hnone], ?_⟩
        simpa [or_assoc, or_comm, or_left_comm] using hmem
      · rintro ⟨before, after, hsplit, hnone, hmem⟩
        cases before with
        | nil =>
          rw [← (List.cons.inj hsplit).1] at hmem
          exact absurd hmem (by simp [hx])
        | cons b before =>
          obtain ⟨rfl, hrest⟩ := List.cons.inj hsplit
          rw [firstRepeated, if_neg hx] at hnone
          refine ⟨before, after, hrest, hnone, ?_⟩
          simpa [or_assoc, or_comm, or_left_comm] using hmem

theorem nodup_eraseDups {α : Type} [BEq α] [LawfulBEq α] : ∀ as : List α, as.eraseDups.Nodup
  | [] => List.nodup_nil
  | a :: rest => by
    rw [List.eraseDups_cons]
    refine List.nodup_cons.mpr ⟨fun h => ?_, nodup_eraseDups _⟩
    have hne := (List.mem_filter.mp (List.mem_eraseDups.mp h)).2
    simp at hne
termination_by as => as.length
decreasing_by exact Nat.lt_succ_of_le (List.length_filter_le _ rest)

/-- An element at the end of a list counts unless it is there before. -/
theorem eraseDups_concat {α : Type} [DecidableEq α] (as : List α) (c : α) :
    (as ++ [c]).eraseDups = if c ∈ as then as.eraseDups else as.eraseDups ++ [c] := by
  rw [List.eraseDups_append]
  split
  · next hc =>
    have hnone : [c].removeAll as = [] := by simp [List.removeAll, hc]
    rw [hnone, List.eraseDups_nil, List.append_nil]
  · next hc =>
    have hone : [c].removeAll as = [c] := by simp [List.removeAll, hc]
    rw [hone]
    rfl

/-- Repetitions stay within the parts of a list that have no element in common. -/
theorem eraseDups_flatMap {α β : Type} [BEq β] [LawfulBEq β] {f : α → List β} {as : List α}
    (h : as.Pairwise fun a a' => ∀ b ∈ f a, b ∉ f a') :
    (as.flatMap f).eraseDups = as.flatMap fun a => (f a).eraseDups := by
  induction as with
  | nil => rfl
  | cons a rest ih =>
    obtain ⟨ha, hrest⟩ := List.pairwise_cons.mp h
    have hdisjoint : (rest.flatMap f).removeAll (f a) = rest.flatMap f := by
      refine List.filter_eq_self.mpr fun b hb => ?_
      obtain ⟨a', ha', hba'⟩ := List.mem_flatMap.mp hb
      simpa using fun hba => ha a' ha' b hba hba'
    rw [List.flatMap_cons, List.eraseDups_append, hdisjoint, ih hrest, List.flatMap_cons]

end KernelDispatch
