import KernelDispatch.Proofs.Template.Offsets
import KernelDispatch.Proofs.Template.Strict

/-! Templates are filled piece by piece: text that is not a placeholder is copied, a value is not
scanned again, and what stands around a placeholder is filled on its own. -/
namespace KernelDispatch

namespace Text

/-- The number of dollar signs at the end of a text. -/
def trailingDollars (cs : List Char) : Nat := (cs.rtakeWhile (· == '$')).length

theorem trailingDollars_append_cons {c : Char} (h : c ≠ '$') (as bs : List Char) :
    trailingDollars (as ++ c :: bs) = trailingDollars bs := by
  have hstop : (c :: as.reverse).takeWhile (· == '$') = [] :=
    List.takeWhile_cons_of_neg (by simpa using h)
  simp only [trailingDollars, List.rtakeWhile, List.length_reverse, List.reverse_append,
    List.reverse_cons, List.append_assoc, List.singleton_append, List.takeWhile_append, hstop]
  split
  · next hall => simp [hall]
  · rfl

theorem even_trailingDollars_pair {cs : List Char} :
    Even (trailingDollars ('$' :: '$' :: cs)) ↔ Even (trailingDollars cs) := by
  simp only [trailingDollars, List.rtakeWhile, List.length_reverse, List.reverse_cons,
    List.append_assoc, List.singleton_append, List.takeWhile_append]
  split
  · next hall => simp [hall, Nat.even_add_one]
  · rfl

/-- A text with each dollar sign doubled. -/
def doubled (cs : List Char) : List Char := cs.flatMap fun c => if c = '$' then ['$', '$'] else [c]

/-- A text with one dollar sign for each pair of them, from left to right. -/
def undoubled : List Char → List Char
  | '$' :: '$' :: rest => '$' :: undoubled rest
  | c :: rest => c :: undoubled rest
  | [] => []

theorem undoubled_cons_of_ne {c : Char} (h : c ≠ '$') (cs : List Char) :
    undoubled (c :: cs) = c :: undoubled cs := by
  rw [undoubled]
  exact fun _ hc _ => h hc

theorem undoubled_dollar {cs : List Char} (h : cs.head? ≠ some '$') :
    undoubled ('$' :: cs) = '$' :: undoubled cs := by
  rw [undoubled]
  rintro rest - rfl
  exact h rfl

theorem undoubled_append_of_notMem {as : List Char} (h : '$' ∉ as) (bs : List Char) :
    undoubled (as ++ bs) = as ++ undoubled bs := by
  induction as with
  | nil => rfl
  | cons a as ih =>
    obtain ⟨ha, has⟩ := not_or.mp (mt List.mem_cons.mpr h)
    rw [List.cons_append, undoubled_cons_of_ne (Ne.symm ha), ih has, List.cons_append]

theorem undoubled_of_not_infix {cs : List Char} (h : ¬ ['$', '$'] <:+: cs) : undoubled cs = cs := by
  fun_induction undoubled cs with
  | case1 rest ih => exact absurd (List.prefix_append ['$', '$'] rest).isInfix h
  | case2 c rest hpair ih => rw [ih fun hrest => h (List.infix_cons hrest)]
  | case3 => rfl

end Text

namespace Piece
open Text

/-- A placeholder is written with one dollar sign, at its start. -/
theorem exists_written_of_placeholder? {cs after : List Char} {p : Piece}
    (h : placeholder? cs = some (p, after)) :
    ∃ key tail, p = .placeholder key ('$' :: tail) ∧ cs = tail ++ after ∧ tail ≠ [] ∧ '$' ∉ tail := by
  obtain ⟨key, hkey, ⟨rfl, rfl⟩ | ⟨-, rfl, rfl⟩⟩ := placeholder?_eq_some_iff.mp h
  · refine ⟨key, '\x7b' :: key ++ ['\x7d'], rfl, by simp, List.cons_ne_nil _ _, ?_⟩
    simpa using hkey.notMem (c := '$') (by decide)
  · refine ⟨key, key, rfl, rfl, ?_, hkey.notMem (by decide)⟩
    obtain ⟨c, cs, rfl, -, -⟩ := hkey
    exact List.cons_ne_nil c cs

/-- The text of a placeholder does not end in a dollar sign. -/
theorem exists_eq_append_of_placeholder? {cs after : List Char} {p : Piece}
    (h : placeholder? cs = some (p, after)) :
    ∃ before c, cs = before ++ c :: after ∧ c ≠ '$' := by
  obtain ⟨key, tail, -, rfl, hne, htail⟩ := exists_written_of_placeholder? h
  refine ⟨tail.dropLast, tail.getLast hne, ?_, fun hlast => ?_⟩
  · rw [List.append_cons, List.dropLast_append_getLast]
  · exact htail (hlast ▸ List.getLast_mem hne)

/-- A text whose dollar signs at the end are all paired is scanned alike before another dollar
sign. -/
theorem ofChars_append_dollar {as : List Char} (h : Even (trailingDollars as)) (bs : List Char) :
    ofChars (as ++ '$' :: bs) = ofChars as ++ ofChars ('$' :: bs) := by
  fun_induction ofChars as with
  | case1 => rfl
  | case2 rest ih =>
    rw [List.cons_append, List.cons_append, ofChars_pair, ih (even_trailingDollars_pair.mp h),
      List.cons_append]
  | case3 rest hrest p after hp hlt ih =>
    obtain ⟨before, c, hsplit, hc⟩ := exists_eq_append_of_placeholder? hp
    -- A placeholder ends in another character, so the dollar signs at the end are all behind it.
    have hafter : Even (trailingDollars after) := by
      rwa [hsplit, ← List.cons_append, trailingDollars_append_cons hc] at h
    have hp' : placeholder? (rest ++ '$' :: bs) = some (p, after ++ '$' :: bs) := by
      rw [placeholder?_append_dollar, hp]
      rfl
    rw [List.cons_append, ofChars_placeholder hp', ih hafter, List.cons_append]
  | case4 rest hrest hp ih =>
    cases rest with
    -- A dollar sign alone is not paired.
    | nil => exact absurd h (by decide)
    | cons c rest =>
      have hc : c ≠ '$' := fun hc => hrest rest (hc ▸ rfl)
      have hrest' : Even (trailingDollars (c :: rest)) := by
        rw [← List.nil_append (c :: rest), trailingDollars_append_cons hc]
        rwa [← List.singleton_append, trailingDollars_append_cons hc] at h
      have hp' : placeholder? (c :: rest ++ '$' :: bs) = none := by
        rw [placeholder?_append_dollar, hp]
        rfl
      rw [List.cons_append, ofChars_dollar (by simpa using hc) hp', ih hrest', List.cons_append]
  | case5 c rest hpair hdollar ih =>
    rw [← List.nil_append (c :: rest), trailingDollars_append_cons hdollar] at h
    rw [List.cons_append, ofChars_cons_of_ne hdollar, ih h, List.cons_append]

theorem ofChars_doubled (cs : List Char) : ofChars (doubled cs) = cs.map .literal := by
  induction cs with
  | nil => exact ofChars_nil
  | cons c cs ih =>
    rw [doubled, List.flatMap_cons, List.map_cons, ← doubled]
    split_ifs with hc
    · rw [List.cons_append, List.singleton_append, ofChars_pair, ih, hc]
    · rw [List.singleton_append, ofChars_cons_of_ne hc, ih]

/-- Where nothing is bound, every placeholder is copied. -/
theorem flatMap_expand_empty (cs : List Char) :
    (ofChars cs).flatMap (Template.expand .empty) = undoubled cs := by
  fun_induction ofChars cs with
  | case1 => rfl
  | case2 rest ih => rw [List.flatMap_cons, ih]; rfl
  | case3 rest hrest p after hp hlt ih =>
    obtain ⟨key, tail, rfl, rfl, hne, htail⟩ := exists_written_of_placeholder? hp
    have hhead : (tail ++ after).head? ≠ some '$' := by
      obtain ⟨c, cs, rfl⟩ := List.exists_cons_of_ne_nil hne
      exact fun hc => htail (Option.some.inj hc ▸ List.mem_cons_self)
    rw [List.flatMap_cons, ih, undoubled_dollar hhead, undoubled_append_of_notMem htail]
    rfl
  | case4 rest hrest hp ih =>
    have hhead : rest.head? ≠ some '$' := by
      intro hc
      obtain ⟨cs, rfl⟩ := List.head?_eq_some_iff.mp hc
      exact hrest cs rfl
    rw [List.flatMap_cons, ih, undoubled_dollar hhead]
    rfl
  | case5 c rest hpair hdollar ih =>
    rw [List.flatMap_cons, ih, undoubled_cons_of_ne hdollar]
    rfl

end Piece

namespace Template
open Text

variable {name a written b key : String} {values : Bindings}

theorem ofList_expand_placeholder (values : Bindings) (key written : String) :
    String.ofList (expand values (.placeholder key.toList written.toList)) =
      (values.get? key).getD written := by
  rw [expand, String.ofList_toList]
  cases values.get? key <;> exact String.ofList_toList

/-- A placeholder behind paired dollar signs is filled apart from the text around it. -/
theorem fill_around (ha : Even (trailingDollars a.toList)) (hdollar : written.toList.head? = some '$')
    (hpiece : Piece.ofChars (written.toList ++ b.toList) =
      .placeholder key.toList written.toList :: Piece.ofChars b.toList) :
    (mk name (a ++ written ++ b)).fill values =
      (mk name a).fill values ++ (values.get? key).getD written ++ (mk name b).fill values := by
  obtain ⟨tail, htail⟩ := List.head?_eq_some_iff.mp hdollar
  have hpieces : (mk name (a ++ written ++ b)).pieces =
      (mk name a).pieces ++ .placeholder key.toList written.toList :: (mk name b).pieces := by
    simp only [pieces, String.toList_append, List.append_assoc, ← hpiece]
    rw [htail]
    exact Piece.ofChars_append_dollar ha _
  rw [fill, hpieces, List.flatMap_append, List.flatMap_cons, String.ofList_append,
    String.ofList_append, ofList_expand_placeholder, ← String.append_assoc]
  rfl

theorem fill_braced (ha : Even (trailingDollars a.toList)) (hkey : Piece.IsName key.toList) :
    (mk name (a ++ ("$\x7b" ++ key ++ "\x7d") ++ b)).fill values =
      (mk name a).fill values ++ (values.get? key).getD ("$\x7b" ++ key ++ "\x7d") ++
        (mk name b).fill values := by
  have hwritten : ("$\x7b" ++ key ++ "\x7d").toList = Piece.braced key.toList := by
    rw [String.toList_append, String.toList_append]
    rfl
  refine fill_around ha (by rw [hwritten]; rfl) ?_
  rw [hwritten]
  exact Piece.ofChars_braced hkey _

theorem fill_bare (ha : Even (trailingDollars a.toList)) (hkey : Piece.IsName key.toList)
    (hb : Piece.EndsName b.toList) :
    (mk name (a ++ ("$" ++ key) ++ b)).fill values =
      (mk name a).fill values ++ (values.get? key).getD ("$" ++ key) ++ (mk name b).fill values := by
  have hwritten : ("$" ++ key).toList = '$' :: key.toList := String.toList_append
  refine fill_around ha (by rw [hwritten]; rfl) ?_
  rw [hwritten]
  exact Piece.ofChars_bare hkey hb

theorem pieces_doubled (name s : String) :
    (mk name (.ofList (doubled s.toList))).pieces = s.toList.map .literal := by
  rw [pieces, String.toList_ofList, Piece.ofChars_doubled]

theorem fill_doubled (name s : String) (values : Bindings) :
    (mk name (.ofList (doubled s.toList))).fill values = s := by
  rw [fill, pieces_doubled, List.flatMap_map]
  change String.ofList (s.toList.flatMap fun c => [c]) = s
  rw [List.flatMap_singleton', String.ofList_toList]

theorem fillAll_doubled (name s : String) (values : Bindings) :
    (mk name (.ofList (doubled s.toList))).fillAll values = .ok s := by
  refine fillAll_eq_ok_iff.mpr ⟨fun k hk => ?_, (fill_doubled name s values).symm⟩
  obtain ⟨key, written, hp, -⟩ := mem_placeholders.mp hk
  rw [pieces_doubled] at hp
  obtain ⟨c, -, hc⟩ := List.mem_map.mp hp
  exact nomatch hc

theorem fill_empty (name s : String) :
    (mk name s).fill .empty = .ofList (undoubled s.toList) := by
  rw [fill, pieces, Piece.flatMap_expand_empty]

/-- A template is scanned to its end, without a cut inside a character. A text comes back if its dollar
signs are doubled first, and where nothing is bound only pairs of dollar signs change. A placeholder
behind paired dollar signs becomes its value as it is, or stays as it is written, and the text around
it is filled on its own. -/
theorem fill_verbatim (name : String) (values : Bindings) :
    (∀ s : String, ∃ segments, Piece.segments? (s.toList.length + 1) s = some segments ∧
      segments.flatMap Piece.Segment.pieces = (mk name s).pieces) ∧
    (∀ s : String, (mk name (.ofList (doubled s.toList))).fill values = s ∧
      (mk name (.ofList (doubled s.toList))).fillAll values = .ok s) ∧
    (∀ s : String, (mk name s).fill .empty = .ofList (undoubled s.toList) ∧
      (¬ ['$', '$'] <:+: s.toList → (mk name s).fill .empty = s)) ∧
    ∀ a b key : String, Even (trailingDollars a.toList) → Piece.IsName key.toList →
      (mk name (a ++ ("$\x7b" ++ key ++ "\x7d") ++ b)).fill values =
          (mk name a).fill values ++ (values.get? key).getD ("$\x7b" ++ key ++ "\x7d") ++
            (mk name b).fill values ∧
        (Piece.EndsName b.toList → (mk name (a ++ ("$" ++ key) ++ b)).fill values =
          (mk name a).fill values ++ (values.get? key).getD ("$" ++ key) ++
            (mk name b).fill values) := by
  refine ⟨fun s => ?_, fun s => ?_, fun s => ?_, fun a b key ha hkey => ?_⟩
  · have hscan := Piece.segments?_eq_some (s.toList.length + 1) s.toList (Nat.lt_succ_self _)
    rwa [String.ofList_toList] at hscan
  · exact ⟨fill_doubled name s values, fillAll_doubled name s values⟩
  · refine ⟨fill_empty name s, fun hpair => ?_⟩
    rw [fill_empty, undoubled_of_not_infix hpair, String.ofList_toList]
  · exact ⟨fill_braced ha hkey, fill_bare ha hkey⟩

theorem fill_verbatim_dollar_value :
    Even (trailingDollars "cost $$".toList) ∧ Piece.IsName "x".toList ∧
      (mk "body" ("cost $$" ++ ("$\x7b" ++ "x" ++ "\x7d") ++ "z $n")).fill
        (.ofList [("n", "m"), ("x", "$n")]) = "cost $$nz m" := by
  let values : Bindings := .ofList [("n", "m"), ("x", "$n")]
  have ha : Even (trailingDollars "cost $$".toList) := by decide
  have hkey : Piece.IsName "x".toList := ⟨'x', [], rfl, rfl, nofun⟩
  obtain ⟨-, -, -, haround⟩ := fill_verbatim "body" values
  have hbefore : (mk "body" "cost $$").fill values = "cost $" := by cbv
  have hvalue : values.get? "x" = some "$n" := by decide
  have hafter : (mk "body" "z $n").fill values = "z m" := by cbv
  refine ⟨ha, hkey, (haround "cost $$" "z $n" "x" ha hkey).1.trans ?_⟩
  rw [hbefore, hvalue, hafter]
  rfl

end Template
end KernelDispatch
