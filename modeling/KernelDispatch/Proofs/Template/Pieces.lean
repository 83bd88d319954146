import KernelDispatch.Template
import Mathlib

/-! What the scanner of templates finds: names, placeholders and pieces, each told by the form of the
text that it is found in. -/
namespace KernelDispatch.Piece

/-- A letter or an underscore, then letters, digits and underscores. -/
def IsName (key : List Char) : Prop :=
  ∃ c cs, key = c :: cs ∧ isNameStart c = true ∧ ∀ d ∈ cs, isNameChar d = true

/-- Before this text a name is at its end. -/
def EndsName (rest : List Char) : Prop := ∀ c ∈ rest.head?, isNameChar c = false

theorem isNameChar_of_isNameStart {c : Char} (h : isNameStart c = true) : isNameChar c = true := by
  unfold isNameStart at h
  unfold isNameChar Char.isAlphanum
  rw [Bool.or_eq_true] at h ⊢
  exact h.imp_left fun hc => by rw [hc, Bool.true_or]

theorem IsName.forall_isNameChar {key : List Char} (h : IsName key) :
    ∀ c ∈ key, isNameChar c = true := by
  obtain ⟨c, cs, rfl, hc, hcs⟩ := h
  exact List.forall_mem_cons.mpr ⟨isNameChar_of_isNameStart hc, hcs⟩

theorem IsName.notMem {key : List Char} (h : IsName key) {c : Char} (hc : isNameChar c = false) :
    c ∉ key := fun hmem => Bool.noConfusion (hc.symm.trans (h.forall_isNameChar c hmem))

theorem EndsName.cons {c : Char} (h : isNameChar c = false) (cs : List Char) : EndsName (c :: cs) := by
  intro d hd
  obtain rfl := Option.some.inj hd
  exact h

theorem endsName_dropWhile (cs : List Char) : EndsName (cs.dropWhile isNameChar) := by
  intro c hc
  have hhead := List.head?_dropWhile_not isNameChar cs
  rw [Option.mem_def.mp hc] at hhead
  exact hhead

theorem takeWhile_append {cs rest : List Char} (hcs : ∀ c ∈ cs, isNameChar c = true)
    (hrest : EndsName rest) : (cs ++ rest).takeWhile isNameChar = cs := by
  rw [List.takeWhile_append_of_pos hcs]
  cases rest with
  | nil => exact List.append_nil cs
  | cons d ds => rw [List.takeWhile_cons_of_neg (by simp [hrest d rfl]), List.append_nil]

theorem dropWhile_append {cs rest : List Char} (hcs : ∀ c ∈ cs, isNameChar c = true)
    (hrest : EndsName rest) : (cs ++ rest).dropWhile isNameChar = rest := by
  rw [List.dropWhile_append_of_pos hcs]
  cases rest with
  | nil => rfl
  | cons d ds => rw [List.dropWhile_cons_of_neg (by simp [hrest d rfl])]

theorem name?_eq_some_iff {cs key rest : List Char} :
    name? cs = some (key, rest) ↔ IsName key ∧ EndsName rest ∧ cs = key ++ rest := by
  constructor
  · intro h
    have happend := (name?_eq_append h).symm
    cases cs with
    | nil => cases h
    | cons c cs =>
      rw [name?] at h
      split at h
      · next hc =>
        obtain ⟨rfl, rfl⟩ := Prod.mk.inj (Option.some.inj h)
        exact ⟨⟨c, _, rfl, hc, fun d hd => List.mem_takeWhile_imp hd⟩, endsName_dropWhile cs, happend⟩
      · cases h
  · rintro ⟨⟨c, cs, rfl, hc, hcs⟩, hrest, rfl⟩
    rw [List.cons_append, name?, if_pos hc, takeWhile_append hcs hrest, dropWhile_append hcs hrest]

theorem name?_of_isNameChar_eq_false {c : Char} (h : isNameChar c = false) (cs : List Char) :
    name? (c :: cs) = none := by
  rw [name?, if_neg]
  exact fun hc => Bool.noConfusion (h.symm.trans (isNameChar_of_isNameStart hc))

/-- What stands behind the end of a name does not change the name. -/
theorem name?_append_cons {d : Char} (hd : isNameChar d = false) (cs ds : List Char) :
    name? (cs ++ d :: ds) = (name? cs).map fun p => (p.1, p.2 ++ d :: ds) := by
  cases hn : name? cs with
  | none =>
    cases cs with
    | nil => exact name?_of_isNameChar_eq_false hd ds
    | cons c cs =>
      rw [name?] at hn
      split at hn
      · cases hn
      · next hc => rw [List.cons_append, name?, if_neg hc]; rfl
  | some p =>
    obtain ⟨key, rest⟩ := p
    obtain ⟨hkey, hrest, rfl⟩ := name?_eq_some_iff.mp hn
    refine name?_eq_some_iff.mpr ⟨hkey, ?_, List.append_assoc _ _ _⟩
    cases rest with
    | nil => exact .cons hd ds
    | cons c rest => exact .cons (hrest c rfl) _

/-- The text of a placeholder in braces. -/
def braced (key : List Char) : List Char := '$' :: '\x7b' :: key ++ ['\x7d']

theorem placeholder?_of_head?_ne {cs : List Char} (h : cs.head? ≠ some '\x7b') :
    placeholder? cs = (name? cs).map fun p => (.placeholder p.1 ('$' :: p.1), p.2) := by
  unfold placeholder?
  split
  · exact absurd rfl h
  · rfl

/-- A placeholder has its name in braces, or without them as far as the name goes. -/
theorem placeholder?_eq_some_iff {cs rest : List Char} {p : Piece} :
    placeholder? cs = some (p, rest) ↔ ∃ key, IsName key ∧
      (cs = '\x7b' :: key ++ '\x7d' :: rest ∧ p = .placeholder key (braced key) ∨
        EndsName rest ∧ cs = key ++ rest ∧ p = .placeholder key ('$' :: key)) := by
  constructor
  · intro h
    unfold placeholder? at h
    split at h
    · split at h
      · next key rest' hn =>
        obtain ⟨rfl, rfl⟩ := Prod.mk.inj (Option.some.inj h)
        obtain ⟨hkey, -, rfl⟩ := name?_eq_some_iff.mp hn
        exact ⟨key, hkey, .inl ⟨rfl, rfl⟩⟩
      · cases h
    · obtain ⟨⟨key, rest'⟩, hn, he⟩ := Option.map_eq_some_iff.mp h
      obtain ⟨rfl, rfl⟩ := Prod.mk.inj he
      obtain ⟨hkey, hrest, rfl⟩ := name?_eq_some_iff.mp hn
      exact ⟨key, hkey, .inr ⟨hrest, rfl, rfl⟩⟩
  · rintro ⟨key, hkey, ⟨rfl, rfl⟩ | ⟨hrest, rfl, rfl⟩⟩
    · have hn : name? (key ++ '\x7d' :: rest) = some (key, '\x7d' :: rest) :=
        name?_eq_some_iff.mpr ⟨hkey, .cons (by decide) rest, rfl⟩
      simp only [List.cons_append, placeholder?, hn]
      rfl
    · have hhead : (key ++ rest).head? ≠ some '\x7b' := by
        obtain ⟨c, cs, rfl, hc, -⟩ := hkey
        rintro h
        obtain rfl := Option.some.inj h
        exact absurd hc (by decide)
      rw [placeholder?_of_head?_ne hhead, name?_eq_some_iff.mpr ⟨hkey, hrest, rfl⟩]
      rfl

/-- A dollar sign behind a text does not change whether the text starts with a placeholder. -/
theorem placeholder?_append_dollar (cs ds : List Char) :
    placeholder? (cs ++ '$' :: ds) = (placeholder? cs).map fun p => (p.1, p.2 ++ '$' :: ds) := by
  by_cases h : cs.head? = some '\x7b'
  · obtain ⟨inner, rfl⟩ := List.head?_eq_some_iff.mp h
    simp only [List.cons_append, placeholder?, name?_append_cons (d := '$') (by decide)]
    cases name? inner with
    | none => rfl
    | some p =>
      obtain ⟨key, rest⟩ := p
      cases rest with
      | nil => rfl
      | cons d rest =>
        by_cases hd : d = '\x7d'
        · subst hd
          rfl
        · simp [hd]
  · have happend : (cs ++ '$' :: ds).head? ≠ some '\x7b' := by
      cases cs with
      | nil => exact fun hd => absurd (Option.some.inj hd) (by decide)
      | cons c cs => exact h
    rw [placeholder?_of_head?_ne h, placeholder?_of_head?_ne happend,
      name?_append_cons (d := '$') (by decide), Option.map_map, Option.map_map]
    rfl

theorem ofChars_nil : ofChars [] = [] := by rw [ofChars]

theorem ofChars_cons_of_ne {c : Char} (h : c ≠ '$') (cs : List Char) :
    ofChars (c :: cs) = .literal c :: ofChars cs := by
  rw [ofChars]
  · exact fun _ hc _ => h hc
  · exact h

theorem ofChars_pair (cs : List Char) :
    ofChars ('$' :: '$' :: cs) = .literal '$' :: ofChars cs := by rw [ofChars]

theorem ofChars_placeholder {cs after : List Char} {p : Piece}
    (h : placeholder? cs = some (p, after)) : ofChars ('$' :: cs) = p :: ofChars after := by
  have hhead : ∀ rest, cs ≠ '$' :: rest := by
    rintro rest rfl
    cases h
  rw [ofChars]
  · split
    · next q rest hq =>
      obtain ⟨rfl, rfl⟩ := Prod.mk.inj (Option.some.inj (hq.symm.trans h))
      rfl
    · next hq => cases hq.symm.trans h
  · exact hhead

theorem ofChars_dollar {cs : List Char} (hhead : cs.head? ≠ some '$')
    (h : placeholder? cs = none) : ofChars ('$' :: cs) = .literal '$' :: ofChars cs := by
  rw [ofChars]
  · split
    · next q rest hq => cases hq.symm.trans h
    · rfl
  · rintro rest rfl
    exact hhead rfl

theorem ofChars_braced {key : List Char} (hkey : IsName key) (bs : List Char) :
    ofChars (braced key ++ bs) = .placeholder key (braced key) :: ofChars bs := by
  have hp : placeholder? ('\x7b' :: key ++ '\x7d' :: bs) = some (.placeholder key (braced key), bs) :=
    placeholder?_eq_some_iff.mpr ⟨key, hkey, .inl ⟨rfl, rfl⟩⟩
  rw [← ofChars_placeholder hp]
  simp [braced]

theorem ofChars_bare {key bs : List Char} (hkey : IsName key) (hbs : EndsName bs) :
    ofChars ('$' :: key ++ bs) = .placeholder key ('$' :: key) :: ofChars bs :=
  ofChars_placeholder (placeholder?_eq_some_iff.mpr ⟨key, hkey, .inr ⟨hbs, rfl, rfl⟩⟩)

theorem ofChars_append_of_notMem {as : List Char} (h : '$' ∉ as) (bs : List Char) :
    ofChars (as ++ bs) = as.map .literal ++ ofChars bs := by
  induction as with
  | nil => rfl
  | cons a as ih =>
    obtain ⟨ha, has⟩ := not_or.mp (mt List.mem_cons.mpr h)
    rw [List.cons_append, ofChars_cons_of_ne (Ne.symm ha), ih has, List.map_cons, List.cons_append]

theorem ofChars_of_notMem {as : List Char} (h : '$' ∉ as) : ofChars as = as.map .literal := by
  have happend := ofChars_append_of_notMem h []
  rwa [List.append_nil, ofChars_nil, List.append_nil] at happend

end KernelDispatch.Piece
