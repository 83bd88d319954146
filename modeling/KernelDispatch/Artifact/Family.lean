import KernelDispatch.Variant.Symbol

/-! Families: the variants of one operation and the default that they fall back to. -/
namespace KernelDispatch

structure Family where
  variants : List Variant
  default : Variant
  deriving DecidableEq, Repr

namespace Family

/-- The declared variants, and the default if it is not among them. -/
def members (f : Family) : List Variant :=
  if f.default ∈ f.variants then f.variants else f.variants ++ [f.default]

theorem mem_members {f : Family} {v : Variant} : v ∈ f.members ↔ v ∈ f.default :: f.variants := by
  unfold members
  split
  · next h =>
    rw [List.mem_cons]
    exact ⟨.inr, fun hv => hv.elim (fun hd => hd ▸ h) id⟩
  · rw [List.mem_append, List.mem_singleton, List.mem_cons, or_comm]

/-- Everything that gets a symbol: the members and the two wrappers. -/
def declared (f : Family) : List Variant :=
  f.members ++ [f.default.wrapper false, f.default.wrapper true]

theorem forM_eq_ok_iff {ε α : Type} {check : α → Except ε Unit} {as : List α} :
    as.forM check = .ok () ↔ ∀ a ∈ as, check a = .ok () := by
  induction as with
  | nil => exact iff_of_true rfl nofun
  | cons a rest ih =>
    rw [List.forall_mem_cons, ← ih]
    change (check a).bind (fun _ => rest.forM check) = .ok () ↔ _
    cases check a with
    | error e => exact iff_of_false nofun nofun
    | ok u => exact (and_iff_right rfl).symm

/-- The first check that fails ends a traversal with its error. -/
theorem forM_eq_error_iff {ε α : Type} {check : α → Except ε Unit} {as : List α} {e : ε} :
    as.forM check = .error e ↔ ∃ before a after, as = before ++ a :: after ∧
      (∀ b ∈ before, check b = .ok ()) ∧ check a = .error e := by
  induction as with
  | nil => exact iff_of_false nofun (by simp)
  | cons x rest ih =>
    change (check x).bind (fun _ => rest.forM check) = .error e ↔ _
    cases hx : check x with
    | error e' =>
      constructor
      · intro h
        exact ⟨[], x, rest, rfl, nofun, hx.trans h⟩
      · rintro ⟨before, a, after, hsplit, hbefore, ha⟩
        cases before with
        | nil =>
          rw [← (List.cons.inj hsplit).1, hx] at ha
          exact ha
        | cons b before =>
          have hb := hbefore b List.mem_cons_self
          rw [← (List.cons.inj hsplit).1, hx] at hb
          exact nomatch hb
    | ok u =>
      refine ih.trans ⟨?_, ?_⟩
      · rintro ⟨before, a, after, rfl, hbefore, ha⟩
        exact ⟨x :: before, a, after, rfl, List.forall_mem_cons.mpr ⟨hx, hbefore⟩, ha⟩
      · rintro ⟨before, a, after, hsplit, hbefore, ha⟩
        cases before with
        | nil =>
          rw [← (List.cons.inj hsplit).1, hx] at ha
          exact nomatch ha
        | cons b before =>
          exact ⟨before, a, after, (List.cons.inj hsplit).2,
            fun b hb => hbefore b (List.mem_cons_of_mem _ hb), ha⟩

/-- A family has its default as the only generic variant, its members are valid, and no symbol is
declared twice. -/
def requireConsistent (f : Family) : Except ConfigError Unit := do
  if !f.default.generic then
    throw (.defaultNotGeneric f.default.symbol)
  if let some v := f.variants.find? fun v => v.generic && v != f.default then
    throw (.secondGeneric v.symbol f.default.symbol)
  f.members.forM Variant.requireValid
  Variant.requireDistinct f.declared

theorem requireConsistent_eq_ok_iff (f : Family) :
    f.requireConsistent = .ok () ↔
      f.default.generic = true ∧ (∀ v ∈ f.variants, v.generic = true → v = f.default) ∧
        (∀ v ∈ f.members, v.requireValid = .ok ()) ∧
        Variant.requireDistinct f.declared = .ok () := by
  unfold requireConsistent
  cases hd : f.default.generic with
  | false => exact iff_of_false nofun nofun
  | true =>
    rw [and_iff_right rfl]
    cases hs : f.variants.find? fun v => v.generic && v != f.default with
    | some v =>
      have hmem := List.mem_of_find?_eq_some hs
      have hv := List.find?_some hs
      rw [Bool.and_eq_true, bne_iff_ne] at hv
      exact iff_of_false nofun fun h => hv.2 (h.1 v hmem hv.1)
    | none =>
      have hsecond : ∀ v ∈ f.variants, v.generic = true → v = f.default := by
        simpa using List.find?_eq_none.mp hs
      rw [and_iff_right hsecond, ← forM_eq_ok_iff]
      change (f.members.forM Variant.requireValid).bind
        (fun _ => Variant.requireDistinct f.declared) = .ok () ↔ _
      cases f.members.forM Variant.requireValid with
      | error e => exact iff_of_false nofun nofun
      | ok u => exact (and_iff_right rfl).symm

/-- A consistent family declares no symbol twice. -/
theorem nodup_declared_symbols {f : Family} (h : f.requireConsistent = .ok ()) :
    (f.declared.map Variant.symbol).Nodup :=
  Variant.requireDistinct_eq_ok_iff.mp ((requireConsistent_eq_ok_iff f).mp h).2.2.2

end Family
end KernelDispatch
