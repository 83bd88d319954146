import Mathlib.Data.List.Forall2

/-! Traversals of a list that may fail, and what stands first in a list. -/
namespace KernelDispatch

/-- An element of a list that has a property which no element before it has. -/
def IsFirst {α : Type} (P : α → Prop) (a : α) (as : List α) : Prop :=
  ∃ before after, as = before ++ a :: after ∧ (∀ b ∈ before, ¬ P b) ∧ P a

theorem IsFirst.holds {α : Type} {P : α → Prop} {a : α} {as : List α} (h : IsFirst P a as) :
    P a := by
  obtain ⟨before, after, -, -, ha⟩ := h
  exact ha

theorem IsFirst.mem {α : Type} {P : α → Prop} {a : α} {as : List α} (h : IsFirst P a as) :
    a ∈ as := by
  obtain ⟨before, after, rfl, -, -⟩ := h
  exact List.mem_append_right before List.mem_cons_self

theorem isFirst_iff_find? {α : Type} {P : α → Prop} {p : α → Bool} (hp : ∀ a, p a = true ↔ P a)
    {a : α} {as : List α} : IsFirst P a as ↔ as.find? p = some a := by
  have hnot : ∀ b, (!p b) = true ↔ ¬ P b := by simp [← hp]
  rw [List.find?_eq_some_iff_append]
  simp only [IsFirst, hp, hnot]
  constructor
  · rintro ⟨before, after, hsplit, hbefore, ha⟩
    exact ⟨ha, before, after, hsplit, hbefore⟩
  · rintro ⟨ha, before, after, hsplit, hbefore⟩
    exact ⟨before, after, hsplit, hbefore, ha⟩

variable {ε α β : Type} {f : α → Except ε β} {as : List α}

theorem mapM_eq_ok_iff {bs : List β} :
    as.mapM f = .ok bs ↔ List.Forall₂ (fun a b => f a = .ok b) as bs := by
  induction as generalizing bs with
  | nil =>
    rw [List.mapM_nil, List.forall₂_nil_left_iff]
    exact ⟨fun h => (Except.ok.inj h).symm, fun h => h ▸ rfl⟩
  | cons a rest ih =>
    rw [List.mapM_cons, List.forall₂_cons_left_iff]
    simp only [← ih]
    cases f a with
    | error e => exact iff_of_false nofun nofun
    | ok b =>
      cases hrest : rest.mapM f with
      | error e => exact iff_of_false nofun nofun
      | ok more => simp [bind, Except.bind, pure, Except.pure, eq_comm]

theorem exists_mapM_eq_ok_iff :
    (∃ bs, as.mapM f = .ok bs) ↔ ∀ a ∈ as, ∃ b, f a = .ok b := by
  simp only [mapM_eq_ok_iff]
  induction as with
  | nil => exact iff_of_true ⟨[], .nil⟩ nofun
  | cons a rest ih =>
    rw [List.forall_mem_cons, ← ih]
    simp only [List.forall₂_cons_left_iff]
    constructor
    · rintro ⟨_, b, more, hb, hmore, rfl⟩
      exact ⟨⟨b, hb⟩, more, hmore⟩
    · rintro ⟨⟨b, hb⟩, more, hmore⟩
      exact ⟨b :: more, b, more, hb, hmore, rfl⟩

theorem exists_of_mapM_eq_error {e : ε}
    (h : as.mapM f = .error e) : ∃ a ∈ as, f a = .error e := by
  induction as with
  | nil => exact nomatch h
  | cons a rest ih =>
    rw [List.mapM_cons] at h
    cases ha : f a with
    | error e' =>
      rw [ha] at h
      exact ⟨a, List.mem_cons_self, ha.trans (congrArg _ (Except.error.inj h))⟩
    | ok b =>
      rw [ha] at h
      cases hrest : rest.mapM f with
      | ok more => rw [hrest] at h; exact nomatch h
      | error e' =>
        rw [hrest] at h
        obtain ⟨c, hc, hfc⟩ := ih (hrest.trans (congrArg _ (Except.error.inj h)))
        exact ⟨c, List.mem_cons_of_mem a hc, hfc⟩

/-- A traversal that undoes what was done to every element. -/
theorem mapM_map_eq_pure {m : Type → Type} [Monad m] [LawfulMonad m] {f : β → m α} {g : α → β}
    (h : ∀ a, f (g a) = pure a) (as : List α) : (as.map g).mapM f = pure as := by
  induction as with
  | nil => rfl
  | cons a rest ih => rw [List.map_cons, List.mapM_cons, h, pure_bind, ih, pure_bind]

end KernelDispatch
