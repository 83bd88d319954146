import KernelDispatch.Template
import KernelDispatch.Repeated
import KernelDispatch.Proofs.Traversal
import Mathlib

/-! Strict and lenient filling of a template. They agree where all placeholders are bound, and else the
strict one reports the first that is not. -/
namespace KernelDispatch

section
variable {α : Type} [DecidableEq α]

theorem find?_eraseDups (p : α → Bool) (as : List α) : as.eraseDups.find? p = as.find? p := by
  induction as using List.reverseRecOn with
  | nil => rfl
  | append_singleton as c ih =>
    rw [eraseDups_concat, List.find?_append]
    split
    · next hc =>
      rw [ih]
      cases hfind : as.find? p with
      | some a => rfl
      | none => simp [List.find?_eq_none.mp hfind c hc]
    · rw [List.find?_append, ih]

/-- Without its repetitions, a list is in the order in which its elements first occur. -/
theorem pairwise_idxOf_eraseDups (as : List α) :
    as.eraseDups.Pairwise fun a b => as.idxOf a < as.idxOf b := by
  induction as using List.reverseRecOn with
  | nil => exact .nil
  | append_singleton as c ih =>
    have hinit : as.eraseDups.Pairwise fun a b => (as ++ [c]).idxOf a < (as ++ [c]).idxOf b := by
      refine ih.imp_of_mem fun ha hb hlt => ?_
      rwa [List.idxOf_append_of_mem (List.mem_eraseDups.mp ha),
        List.idxOf_append_of_mem (List.mem_eraseDups.mp hb)]
    rw [eraseDups_concat]
    split
    · exact hinit
    -- A new element occurs first behind all that were there.
    · next hc =>
      refine List.pairwise_append.mpr ⟨hinit, List.pairwise_singleton _ _, fun a ha b hb => ?_⟩
      have hmem := List.mem_eraseDups.mp ha
      obtain rfl := List.mem_singleton.mp hb
      rw [List.idxOf_append_of_mem hmem, List.idxOf_append_of_notMem hc]
      exact Nat.lt_add_right _ (List.idxOf_lt_length_of_mem hmem)

end

namespace Template
variable {t : Template} {values : Bindings}

theorem mem_placeholders {k : String} :
    k ∈ t.placeholders ↔ ∃ key written, .placeholder key written ∈ t.pieces ∧ String.ofList key = k := by
  rw [placeholders, List.mem_eraseDups, List.mem_filterMap]
  constructor
  · rintro ⟨p, hp, hk⟩
    cases p with
    | literal c => exact nomatch hk
    | placeholder key written => exact ⟨key, written, hp, Option.some.inj hk⟩
  · rintro ⟨key, written, hp, rfl⟩
    exact ⟨_, hp, rfl⟩

/-- A strict traversal stops at the first placeholder that is not bound. -/
theorem mapM_expandBound (name : String) (values : Bindings) (ps : List Piece) :
    ps.mapM (expandBound name values) =
      match (ps.filterMap Piece.key?).find? (!values.binds ·) with
      | none => .ok (ps.map (expand values))
      | some k => .error (.unboundPlaceholder name k) := by
  induction ps with
  | nil => rfl
  | cons p ps ih =>
    rw [List.mapM_cons, ih]
    cases p with
    | literal c =>
      rw [List.filterMap_cons_none rfl]
      cases (ps.filterMap Piece.key?).find? (!values.binds ·) <;> rfl
    | placeholder key written =>
      have hkey : (Piece.placeholder key written).key? = some (String.ofList key) := rfl
      rw [List.filterMap_cons_some hkey, List.find?_cons, Bindings.binds, expandBound, List.map_cons,
        expand]
      cases values.get? (String.ofList key) with
      | none => rfl
      | some value => cases (ps.filterMap Piece.key?).find? (!values.binds ·) <;> rfl

theorem fillAll_eq (t : Template) (values : Bindings) : t.fillAll values =
    match t.placeholders.find? (!values.binds ·) with
    | none => .ok (t.fill values)
    | some k => .error (.unboundPlaceholder t.name k) := by
  rw [fillAll, mapM_expandBound, placeholders, find?_eraseDups]
  cases (t.pieces.filterMap Piece.key?).find? (!values.binds ·) with
  | none => rw [fill, List.flatMap_def]; rfl
  | some k => rfl

theorem fillAll_eq_ok_iff {text : String} : t.fillAll values = .ok text ↔
    (∀ k ∈ t.placeholders, values.binds k) ∧ text = t.fill values := by
  rw [fillAll_eq]
  cases h : t.placeholders.find? (!values.binds ·) with
  | none =>
    have hall : ∀ k ∈ t.placeholders, values.binds k = true := by simpa using h
    exact ⟨fun htext => ⟨hall, (Except.ok.inj htext).symm⟩, fun htext => congrArg _ htext.2.symm⟩
  | some k =>
    refine iff_of_false nofun fun hall => ?_
    have hk : values.binds k = false := by simpa using List.find?_some h
    exact Bool.noConfusion (hk.symm.trans (hall.1 k (List.mem_of_find?_eq_some h)))

theorem fillAll_eq_error_iff {e : ConfigError} : t.fillAll values = .error e ↔
    ∃ k, IsFirst (fun k => ¬ values.binds k) k t.placeholders ∧ e = .unboundPlaceholder t.name k := by
  have hfirst : ∀ k, IsFirst (fun k => ¬ values.binds k) k t.placeholders ↔
      t.placeholders.find? (!values.binds ·) = some k := fun k =>
    isFirst_iff_find? fun _ => by simp
  simp only [hfirst]
  rw [fillAll_eq]
  cases t.placeholders.find? (!values.binds ·) with
  | none => exact iff_of_false nofun nofun
  | some k => simp [eq_comm]

section
variable {other : Bindings} (h : ∀ k ∈ t.placeholders, values.get? k = other.get? k)
include h

theorem fill_congr : t.fill values = t.fill other := by
  rw [fill, fill]
  refine congrArg String.ofList (List.flatMap_congr fun p hp => ?_)
  cases p with
  | literal c => rfl
  | placeholder key written =>
    rw [expand, expand, h _ (mem_placeholders.mpr ⟨key, written, hp, rfl⟩)]

theorem fillAll_congr : t.fillAll values = t.fillAll other := by
  have hfind : t.placeholders.find? (!values.binds ·) = t.placeholders.find? (!other.binds ·) :=
    List.find?_congr fun k hk => by rw [Bindings.binds, Bindings.binds, h k hk]
  rw [fillAll_eq, fillAll_eq, hfind, fill_congr h]

end

/-- The placeholders are listed once, in the order of their first use, and strict filling goes through
them: it fills like the lenient one if all are bound, and else reports the first that is not. What is
bound besides them does not matter. -/
theorem fillAll_agrees (t : Template) (values : Bindings) :
    t.placeholders.Nodup ∧
    (∀ k, k ∈ t.placeholders ↔
      ∃ key written, .placeholder key written ∈ t.pieces ∧ String.ofList key = k) ∧
    (t.placeholders.Pairwise fun k l =>
      (t.pieces.filterMap Piece.key?).idxOf k < (t.pieces.filterMap Piece.key?).idxOf l) ∧
    (∀ text, t.fillAll values = .ok text ↔
      (∀ k ∈ t.placeholders, values.binds k) ∧ text = t.fill values) ∧
    (∀ e, t.fillAll values = .error e ↔ ∃ k, IsFirst (fun k => ¬ values.binds k) k t.placeholders ∧
      e = .unboundPlaceholder t.name k) ∧
    ∀ other : Bindings, (∀ k ∈ t.placeholders, values.get? k = other.get? k) →
      t.fill values = t.fill other ∧ t.fillAll values = t.fillAll other := by
  refine ⟨nodup_eraseDups _, fun _ => mem_placeholders, pairwise_idxOf_eraseDups _,
    fun _ => fillAll_eq_ok_iff, fun _ => fillAll_eq_error_iff, fun other h => ?_⟩
  exact ⟨fill_congr h, fillAll_congr h⟩

theorem fillAll_agrees_unbound :
    let t : Template := ⟨"header", "$$x $a $b $\x7ba\x7d"⟩
    let values : Bindings := .ofList [("a", "$b")]
    let other : Bindings := .ofList [("a", "$b"), ("x", "y")]
    (∀ k ∈ t.placeholders, values.get? k = other.get? k) ∧ t.fill values = t.fill other ∧
      t.fillAll values = .error (.unboundPlaceholder "header" "b") := by
  intro t values other
  have hplaceholders : t.placeholders = ["a", "b"] := by cbv
  have hsame : ∀ k ∈ t.placeholders, values.get? k = other.get? k := by
    rw [hplaceholders]
    decide
  have hfirst : IsFirst (fun k => ¬ values.binds k) "b" t.placeholders :=
    ⟨["a"], [], hplaceholders, by decide, by decide⟩
  obtain ⟨-, -, -, -, herror, hother⟩ := fillAll_agrees t values
  exact ⟨hsame, (hother other hsame).1, (herror _).mpr ⟨"b", hfirst, rfl⟩⟩

end Template
end KernelDispatch
