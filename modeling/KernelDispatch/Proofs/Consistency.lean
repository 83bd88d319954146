import KernelDispatch.Artifact.Family
import KernelDispatch.Proofs.Matching
import KernelDispatch.Proofs.Traversal
import Mathlib

/-! Consistent families: what the check of a family accepts, and which fault it reports where there
are several. -/
namespace KernelDispatch

namespace Variant

theorem isUnconstrained_iff (v : Variant) :
    v.isUnconstrained = true ↔ (∀ f, v.value f = 0) ∧ v.padding = .any := by
  simp only [isUnconstrained, Bool.and_eq_true, List.all_eq_true, beq_iff_eq, Field.mem_all,
    true_implies]

/-- A variant has room for its core routines, and a generic one fixes nothing. -/
def IsValid (v : Variant) : Prop :=
  v.core.length ≤ 10 ∧ (v.generic = true → (∀ f, v.value f = 0) ∧ v.padding = .any)

theorem requireValid_eq_ok_iff_isValid (v : Variant) : v.requireValid = .ok () ↔ v.IsValid := by
  rw [requireValid_eq_ok_iff, isUnconstrained_iff]
  rfl

/-- A variant that is not valid is reported for its core routines first. -/
theorem requireValid_eq_error_iff {v : Variant} {e : ConfigError} :
    v.requireValid = .error e ↔ ¬ v.IsValid ∧
      (10 < v.core.length ∧ e = .tooManyCoreRoutines v.symbol v.core.length ∨
        v.core.length ≤ 10 ∧ e = .constrainedGeneric v.symbol) := by
  rw [← requireValid_eq_ok_iff_isValid]
  unfold requireValid maxCoreRoutines
  split
  · next h => simp [h, Nat.not_le.mpr h, eq_comm]
  · next h =>
    split
    · simp [h, Nat.not_lt.mp h, eq_comm]
    · simp

end Variant

namespace Family

/-- What is wrong with a family: the first fault, in the order in which faults are looked for. -/
inductive Fault (f : Family) : ConfigError → Prop
  | default (hdefault : f.default.generic = false) : Fault f (.defaultNotGeneric f.default.symbol)
  | second {v : Variant} (hdefault : f.default.generic = true)
      (hv : IsFirst (fun v => v.generic = true ∧ v ≠ f.default) v f.variants) :
      Fault f (.secondGeneric v.symbol f.default.symbol)
  | cores {v : Variant} (hdefault : f.default.generic = true)
      (honly : ∀ v ∈ f.variants, v.generic = true → v = f.default)
      (hv : IsFirst (fun v => ¬ v.IsValid) v f.members) (hcores : 10 < v.core.length) :
      Fault f (.tooManyCoreRoutines v.symbol v.core.length)
  | constrained {v : Variant} (hdefault : f.default.generic = true)
      (honly : ∀ v ∈ f.variants, v.generic = true → v = f.default)
      (hv : IsFirst (fun v => ¬ v.IsValid) v f.members) (hcores : v.core.length ≤ 10) :
      Fault f (.constrainedGeneric v.symbol)
  | collision {before after : List String} {s : String} (hdefault : f.default.generic = true)
      (honly : ∀ v ∈ f.variants, v.generic = true → v = f.default)
      (hvalid : ∀ v ∈ f.members, v.IsValid)
      (hsplit : f.declared.map Variant.symbol = before ++ s :: after) (hnodup : before.Nodup)
      (hs : s ∈ before) : Fault f (.nameCollision s)

variable {f : Family} {e : ConfigError}

/-- Past the checks of the default and of the other generic variants there are two more. -/
theorem requireConsistent_eq_bind (hdefault : f.default.generic = true)
    (honly : ∀ v ∈ f.variants, v.generic = true → v = f.default) :
    f.requireConsistent = (f.members.forM Variant.requireValid).bind
      fun _ => Variant.requireDistinct f.declared := by
  have hnone : f.variants.find? (fun v => v.generic && v != f.default) = none := by
    simpa using honly
  unfold requireConsistent
  rw [hdefault, hnone]
  rfl

theorem forM_requireValid_eq_error_iff {vs : List Variant} :
    vs.forM Variant.requireValid = .error e ↔ ∃ v, IsFirst (fun v => ¬ v.IsValid) v vs ∧
      v.requireValid = .error e := by
  rw [forM_eq_error_iff]
  constructor
  · rintro ⟨before, v, after, hsplit, hbefore, hv⟩
    refine ⟨v, ⟨before, after, hsplit, fun u hu => ?_, ?_⟩, hv⟩
    · exact not_not.mpr (u.requireValid_eq_ok_iff_isValid.mp (hbefore u hu))
    · exact (Variant.requireValid_eq_error_iff.mp hv).1
  · rintro ⟨v, ⟨before, after, hsplit, hbefore, -⟩, hv⟩
    refine ⟨before, v, after, hsplit, fun u hu => ?_, hv⟩
    exact u.requireValid_eq_ok_iff_isValid.mpr (not_not.mp (hbefore u hu))

/-- A fault is what the check reports, whatever else is wrong with the family. -/
theorem Fault.requireConsistent_eq (h : f.Fault e) : f.requireConsistent = .error e := by
  cases h with
  | default hdefault =>
    unfold requireConsistent
    rw [hdefault]
    rfl
  | @second v hdefault hv =>
    have hfind : f.variants.find? (fun v => v.generic && v != f.default) = some v :=
      (isFirst_iff_find? (by simp)).mp hv
    unfold requireConsistent
    rw [hdefault, hfind]
    rfl
  | @cores v hdefault honly hv hcores =>
    have herror := Variant.requireValid_eq_error_iff.mpr ⟨hv.holds, .inl ⟨hcores, rfl⟩⟩
    rw [requireConsistent_eq_bind hdefault honly,
      forM_requireValid_eq_error_iff.mpr ⟨v, hv, herror⟩]
    rfl
  | @constrained v hdefault honly hv hcores =>
    have herror := Variant.requireValid_eq_error_iff.mpr ⟨hv.holds, .inr ⟨hcores, rfl⟩⟩
    rw [requireConsistent_eq_bind hdefault honly,
      forM_requireValid_eq_error_iff.mpr ⟨v, hv, herror⟩]
    rfl
  | @collision before after s hdefault honly hvalid hsplit hnodup hs =>
    have hmembers : f.members.forM Variant.requireValid = .ok () :=
      forM_eq_ok_iff.mpr fun v hv => v.requireValid_eq_ok_iff_isValid.mpr (hvalid v hv)
    rw [requireConsistent_eq_bind hdefault honly, hmembers]
    exact Variant.requireDistinct_eq_error_iff.mpr ⟨before, s, after, hsplit, hnodup, hs, rfl⟩

/-- There is nothing that the check reports but a fault. -/
theorem fault_of_requireConsistent_eq (h : f.requireConsistent = .error e) : f.Fault e := by
  cases hdefault : f.default.generic with
  | false =>
    have hfault := Fault.default hdefault
    rw [hfault.requireConsistent_eq] at h
    exact Except.error.inj h ▸ hfault
  | true =>
    cases hfind : f.variants.find? fun v => v.generic && v != f.default with
    | some v =>
      have hfault := Fault.second hdefault ((isFirst_iff_find? (by simp)).mpr hfind)
      rw [hfault.requireConsistent_eq] at h
      exact Except.error.inj h ▸ hfault
    | none =>
      have honly : ∀ v ∈ f.variants, v.generic = true → v = f.default := by
        simpa using List.find?_eq_none.mp hfind
      rw [requireConsistent_eq_bind hdefault honly] at h
      cases hmembers : f.members.forM Variant.requireValid with
      | error e' =>
        rw [hmembers] at h
        obtain rfl := Except.error.inj h
        obtain ⟨v, hv, herror⟩ := forM_requireValid_eq_error_iff.mp hmembers
        rcases (Variant.requireValid_eq_error_iff.mp herror).2 with ⟨hcores, rfl⟩ | ⟨hcores, rfl⟩
        · exact .cores hdefault honly hv hcores
        · exact .constrained hdefault honly hv hcores
      | ok u =>
        rw [hmembers] at h
        obtain ⟨before, s, after, hsplit, hnodup, hs, rfl⟩ :=
          Variant.requireDistinct_eq_error_iff.mp h
        have hvalid : ∀ v ∈ f.members, v.IsValid := fun v hv =>
          v.requireValid_eq_ok_iff_isValid.mp (forM_eq_ok_iff.mp hmembers v hv)
        exact .collision hdefault honly hvalid hsplit hnodup hs

section Accepted
variable (h : f.requireConsistent = .ok ())
include h

theorem nodup_members : f.members.Nodup := by
  have hsymbols := nodup_declared_symbols h
  rw [declared, List.map_append] at hsymbols
  exact (List.nodup_append.mp hsymbols).1.of_map _

/-- The default is the one generic member of a consistent family. -/
theorem filter_generic_members : f.members.filter (·.generic) = [f.default] := by
  obtain ⟨hdefault, honly, -⟩ := (requireConsistent_eq_ok_iff f).mp h
  have hgeneric : ∀ v ∈ f.members, v.generic = (v == f.default) := by
    intro v hv
    rw [Bool.eq_iff_iff, beq_iff_eq]
    constructor
    · intro hv'
      rcases List.mem_cons.mp (mem_members.mp hv) with rfl | hv
      · rfl
      · exact honly v hv hv'
    · rintro rfl
      exact hdefault
  have hcount : f.members.count f.default = 1 :=
    List.count_eq_one_of_mem (nodup_members h) (mem_members.mpr List.mem_cons_self)
  rw [List.filter_congr hgeneric, List.filter_beq, hcount]
  rfl

theorem count_default_le_one : f.variants.count f.default ≤ 1 := by
  have hsublist : f.variants.Sublist f.members := by
    unfold members
    split_ifs
    · exact .refl _
    · exact List.sublist_append_left _ _
  exact List.nodup_iff_count_le_one.mp ((nodup_members h).sublist hsublist) f.default

/-- A member that looks like the wrapper of a consistent family would have its symbol. -/
theorem not_unconstrained_of_mem_members {v : Variant} (hv : v ∈ f.members)
    (hgeneric : v.generic = false) (hdebug : v.debug = false)
    (hidentity : v.identity = f.default.identity) :
    ¬ ((∀ p, v.value p = 0) ∧ v.padding = .any) := by
  rintro ⟨hvalue, hpadding⟩
  have hwrapper : v.symbol = (f.default.wrapper false).symbol :=
    Variant.symbol_congr hidentity (fun p => (hvalue p).trans (by cases p <;> rfl)) hpadding
      hgeneric hdebug
  have hsymbols := nodup_declared_symbols h
  rw [declared, List.map_append] at hsymbols
  exact (List.nodup_append.mp hsymbols).2.2 _ (List.mem_map_of_mem hv) _ (by simp) hwrapper

end Accepted

/-- The check accepts exactly the families whose default is generic, and the only generic variant,
whose members are valid, and whose members and wrappers have different symbols. Of any other family
it reports the first fault. So an accepted family has one generic member, which is declared at most
once, and no member of the identity of the default takes the place of the wrapper. -/
theorem requireConsistent_exact (f : Family) :
    (f.requireConsistent = .ok () ↔
      f.default.generic = true ∧ (∀ v ∈ f.variants, v.generic = true → v = f.default) ∧
        (∀ v ∈ f.members, v.IsValid) ∧ (f.declared.map Variant.symbol).Nodup) ∧
    (∀ e, f.requireConsistent = .error e ↔ f.Fault e) ∧
    (f.requireConsistent = .ok () →
      f.members.filter (·.generic) = [f.default] ∧ f.variants.count f.default ≤ 1 ∧
      ∀ v ∈ f.members, v.generic = false → v.debug = false → v.identity = f.default.identity →
        ¬ ((∀ p, v.value p = 0) ∧ v.padding = .any)) := by
  refine ⟨?_, fun e => ⟨fault_of_requireConsistent_eq, Fault.requireConsistent_eq⟩, fun h =>
    ⟨filter_generic_members h, count_default_le_one h, fun v hv hgeneric hdebug hidentity =>
      not_unconstrained_of_mem_members h hv hgeneric hdebug hidentity⟩⟩
  rw [requireConsistent_eq_ok_iff, Variant.requireDistinct_eq_ok_iff]
  simp only [Variant.requireValid_eq_ok_iff_isValid]

/-- A family that lists its default is accepted. One with a member of too many core routines between
two of the same symbol is rejected for the former. -/
theorem requireConsistent_exact_two_faults :
    let identity : Identity := ⟨"krn", .avePool, .chw, .fx16, []⟩
    let wide : Variant := { identity, kernelW := 3 }
    let crowded : Variant := { identity, kernelW := 5, core := List.replicate 11 "core" }
    let default : Variant := .fallback identity ["core"]
    let listed : Family := ⟨[wide, default], default⟩
    let faulty : Family := ⟨[wide, crowded, wide], default⟩
    listed.requireConsistent = .ok () ∧ listed.members.filter (·.generic) = [default] ∧
      faulty.requireConsistent = .error (.tooManyCoreRoutines crowded.symbol 11) := by
  intro identity wide crowded default listed faulty
  have haccepted : listed.requireConsistent = .ok () := by decide
  have hfirst : IsFirst (fun v => ¬ v.IsValid) crowded faulty.members := by
    refine ⟨[wide], [wide, default], by decide, fun v hv => not_not.mpr ?_, fun hvalid => ?_⟩
    · obtain rfl := List.mem_singleton.mp hv
      exact ⟨by decide, nofun⟩
    · exact absurd hvalid.1 (by decide)
  have honly : ∀ v ∈ faulty.variants, v.generic = true → v = faulty.default := by decide
  exact ⟨haccepted, ((requireConsistent_exact listed).2.2 haccepted).1,
    ((requireConsistent_exact faulty).2.1 _).mpr (.cores rfl honly hfirst (by decide))⟩

end Family
end KernelDispatch
