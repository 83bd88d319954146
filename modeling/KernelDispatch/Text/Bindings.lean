/-! Texts bound to names, kept in the order of the names. -/
namespace KernelDispatch

/-- Puts a pair at its place in a list that is ordered by names, in place of one of that name. -/
def insertPair (name value : String) : List (String × String) → List (String × String)
  | [] => [(name, value)]
  | (n, v) :: rest =>
    if name < n then (name, value) :: (n, v) :: rest
    else if name = n then (name, value) :: rest
    else (n, v) :: insertPair name value rest

theorem of_mem_insertPair {name value : String} {p : String × String} :
    ∀ {ps : List (String × String)}, p ∈ insertPair name value ps → p = (name, value) ∨ p ∈ ps
  | [], h => .inl (List.mem_singleton.1 h)
  | (n, v) :: rest, h => by
    unfold insertPair at h
    split at h
    · simpa using h
    · split at h
      · rcases List.mem_cons.1 h with h | h
        · exact .inl h
        · exact .inr (List.mem_cons_of_mem _ h)
      · rcases List.mem_cons.1 h with h | h
        · exact .inr (h ▸ List.mem_cons_self)
        · exact (of_mem_insertPair h).imp_right (List.mem_cons_of_mem _)

theorem pairwise_insertPair (name value : String) :
    ∀ {ps : List (String × String)}, ps.Pairwise (fun a b => a.1 < b.1) →
      (insertPair name value ps).Pairwise fun a b => a.1 < b.1
  | [], _ => List.pairwise_singleton _ _
  | (n, v) :: rest, h => by
    obtain ⟨hn, hrest⟩ := List.pairwise_cons.1 h
    unfold insertPair
    split
    · next hlt =>
      refine List.pairwise_cons.2 ⟨fun p hp => ?_, h⟩
      rcases List.mem_cons.1 hp with rfl | hp
      · exact hlt
      · exact String.lt_trans hlt (hn p hp)
    · split
      · next heq => exact List.pairwise_cons.2 ⟨fun p hp => heq ▸ hn p hp, hrest⟩
      · next hge hne =>
        refine List.pairwise_cons.2 ⟨fun p hp => ?_, pairwise_insertPair name value hrest⟩
        rcases of_mem_insertPair hp with rfl | hp
        · have hle : n ≤ name := String.not_lt.1 hge
          exact Std.lt_of_le_of_ne hle fun h => hne h.symm
        · exact hn p hp

theorem insertPair_of_forall_lt {name value : String} {ps : List (String × String)}
    (h : ∀ p ∈ ps, p.1 < name) : insertPair name value ps = ps ++ [(name, value)] := by
  induction ps with
  | nil => rfl
  | cons p rest ih =>
    obtain ⟨hp, hrest⟩ := List.forall_mem_cons.mp h
    have hlt : ¬ name < p.1 := String.lt_asymm hp
    have hne : name ≠ p.1 := fun heq => String.lt_irrefl p.1 (heq ▸ hp)
    rw [insertPair, if_neg hlt, if_neg hne, ih hrest, List.cons_append]

private theorem lookup_cons_eq_ite (name : String) (p : String × String)
    (rest : List (String × String)) :
    (p :: rest).lookup name = if name = p.1 then some p.2 else rest.lookup name := by
  obtain ⟨n, v⟩ := p
  by_cases h : name = n
  · simp [h]
  · simp [List.lookup_cons, beq_eq_false_iff_ne.mpr h, h]

theorem lookup_insertPair (name value other : String) :
    ∀ ps : List (String × String), (insertPair name value ps).lookup other =
      if other = name then some value else ps.lookup other
  | [] => lookup_cons_eq_ite other (name, value) []
  | (n, v) :: rest => by
    unfold insertPair
    split
    · exact lookup_cons_eq_ite other (name, value) _
    · split
      · next heq =>
        rw [lookup_cons_eq_ite, lookup_cons_eq_ite, heq]
        split <;> rfl
      · next hne =>
        rw [lookup_cons_eq_ite, lookup_cons_eq_ite, lookup_insertPair name value other rest]
        by_cases h : other = n
        · simp [h, Ne.symm hne]
        · simp [h]

/-- Texts bound to names. Two bindings of the same names to the same texts are equal. -/
structure Bindings where
  pairs : List (String × String)
  ordered : pairs.Pairwise fun a b => a.1 < b.1
  deriving DecidableEq, Repr

namespace Bindings

def empty : Bindings := ⟨[], .nil⟩

instance : EmptyCollection Bindings := ⟨empty⟩
instance : Inhabited Bindings := ⟨empty⟩

/-- Binds a name, in place of what it was bound to. -/
def insert (b : Bindings) (name value : String) : Bindings :=
  ⟨insertPair name value b.pairs, pairwise_insertPair name value b.ordered⟩

def insertAll (b : Bindings) (pairs : List (String × String)) : Bindings :=
  pairs.foldl (fun b p => b.insert p.1 p.2) b

def ofList (pairs : List (String × String)) : Bindings := empty.insertAll pairs

def get? (b : Bindings) (name : String) : Option String := b.pairs.lookup name

def binds (b : Bindings) (name : String) : Bool := (b.get? name).isSome

@[simp] theorem get?_insert (b : Bindings) (name value other : String) :
    (b.insert name value).get? other = if other = name then some value else b.get? other :=
  lookup_insertPair name value other b.pairs

/-- Where some pairs bind a name more than once, the last of them holds. -/
theorem get?_insertAll (b : Bindings) (pairs : List (String × String)) (name : String) :
    (b.insertAll pairs).get? name = (pairs.reverse.lookup name).or (b.get? name) := by
  induction pairs generalizing b with
  | nil => rfl
  | cons p rest ih =>
    change ((b.insert p.1 p.2).insertAll rest).get? name = _
    rw [ih, get?_insert, List.reverse_cons, List.lookup_append, Option.or_assoc,
      lookup_cons_eq_ite]
    by_cases h : name = p.1 <;> simp [h]

/-- A name that some pairs bind once has the text of its pair. -/
theorem get?_ofList {pairs : List (String × String)} (h : (pairs.map Prod.fst).Nodup)
    {name value : String} (hmem : (name, value) ∈ pairs) :
    (ofList pairs).get? name = some value := by
  have hlookup : pairs.reverse.lookup name = some value := by
    obtain ⟨before, after, hsplit⟩ := List.append_of_mem (List.mem_reverse.mpr hmem)
    refine List.lookup_eq_some_iff.mpr ⟨before, after, hsplit, fun p hp => ?_⟩
    have hnodup : ((before ++ (name, value) :: after).map Prod.fst).Nodup := by
      rw [← hsplit, List.map_reverse]
      exact (List.reverse_perm _).nodup_iff.mpr h
    rw [List.map_append, List.nodup_append] at hnodup
    simpa using (hnodup.2.2 p.1 (List.mem_map_of_mem hp) name (by simp)).symm
  rw [ofList, get?_insertAll, hlookup]
  rfl

private theorem isSome_lookup_iff {pairs : List (String × String)} {name : String} :
    (pairs.lookup name).isSome = true ↔ name ∈ pairs.map Prod.fst := by
  simp [List.lookup_isSome_iff]

theorem binds_insertAll (b : Bindings) (pairs : List (String × String)) (name : String) :
    (b.insertAll pairs).binds name = true ↔ name ∈ pairs.map Prod.fst ∨ b.binds name = true := by
  rw [binds, get?_insertAll, Option.isSome_or, Bool.or_eq_true, isSome_lookup_iff,
    List.map_reverse, List.mem_reverse, binds]

theorem binds_ofList (pairs : List (String × String)) (name : String) :
    (ofList pairs).binds name = true ↔ name ∈ pairs.map Prod.fst :=
  (binds_insertAll empty pairs name).trans (or_iff_left nofun)

/-- Bindings under further ones, which hold where both bind a name. -/
def override (b more : Bindings) : Bindings := b.insertAll more.pairs

theorem binds_override (b more : Bindings) (name : String) :
    (b.override more).binds name = true ↔ more.binds name = true ∨ b.binds name = true := by
  rw [override, binds_insertAll, ← isSome_lookup_iff]
  rfl

/-- Pairs in the order of their names are bound as they stand. -/
theorem pairs_insertAll (b : Bindings) (pairs : List (String × String))
    (h : (b.pairs ++ pairs).Pairwise fun p q => p.1 < q.1) :
    (b.insertAll pairs).pairs = b.pairs ++ pairs := by
  induction pairs generalizing b with
  | nil => exact (List.append_nil b.pairs).symm
  | cons p rest ih =>
    have hlast : ∀ q ∈ b.pairs, q.1 < p.1 :=
      fun q hq => (List.pairwise_append.mp h).2.2 q hq p List.mem_cons_self
    have hinsert : (b.insert p.1 p.2).pairs = b.pairs ++ [p] := insertPair_of_forall_lt hlast
    have hrest := ih (b.insert p.1 p.2) (by rwa [hinsert, List.append_assoc])
    rw [hinsert, List.append_assoc] at hrest
    exact hrest

theorem eq_of_pairs_eq {b b' : Bindings} (h : b.pairs = b'.pairs) : b = b' := by
  cases b
  cases b'
  cases h
  rfl

theorem ofList_pairs (b : Bindings) : ofList b.pairs = b :=
  eq_of_pairs_eq (pairs_insertAll empty b.pairs b.ordered)

end Bindings
end KernelDispatch
