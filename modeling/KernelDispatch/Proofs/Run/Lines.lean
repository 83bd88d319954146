import KernelDispatch.Proofs.Run.Machine

/-! The lines on the console of a machine, with the times of the day left out. -/
namespace KernelDispatch

/-- A line with letters in place of the time of the day in front of it, if there is one. -/
def maskTime : List Char → List Char
  | a :: b :: ':' :: c :: d :: ':' :: e :: f :: ' ' :: rest =>
    if [a, b, c, d, e, f].all Char.isDigit then "HH:MM:SS ".toList ++ rest
    else a :: b :: ':' :: c :: d :: ':' :: e :: f :: ' ' :: rest
  | line => line

/-- The lines of a text, each without the time of the day. -/
def maskedLines (text : String) : List String :=
  (text.toList.splitOnP (· == '\n')).map fun line => String.ofList (maskTime line)

theorem twoDigits_spec {n : Nat} (hn : n < 100) :
    ∃ a b : Char, (twoDigits n).toList = [a, b] ∧ a.isDigit = true ∧ b.isDigit = true := by
  have hall : ∀ n < 100, (twoDigits n).toList.length = 2 ∧
      (twoDigits n).toList.all Char.isDigit = true := by decide +kernel
  obtain ⟨hlength, hdigits⟩ := hall n hn
  obtain ⟨a, b, htext⟩ := List.length_eq_two.mp hlength
  rw [htext] at hdigits
  exact ⟨a, b, htext, by simpa using hdigits⟩

/-- What is written for a time of the day: it breaks no line, and the mask hides it. -/
structure MaskedTime (time : String) : Prop where
  oneLine : '\n' ∉ time.toList
  hidden : ∀ rest, maskTime (time.toList ++ ' ' :: rest) = "HH:MM:SS ".toList ++ rest

theorem maskedTime_letters : MaskedTime "HH:MM:SS" := ⟨by decide, fun _ => rfl⟩

theorem maskedTime_clock (seconds : Nat) : MaskedTime (clock seconds) := by
  obtain ⟨a, b, hab, ha, hb⟩ := twoDigits_spec (show seconds % 86400 / 3600 < 100 by omega)
  obtain ⟨c, d, hcd, hc, hd⟩ := twoDigits_spec (show seconds % 86400 % 3600 / 60 < 100 by omega)
  obtain ⟨e, f, hef, he, hf⟩ := twoDigits_spec (show seconds % 86400 % 60 < 100 by omega)
  have htext : (clock seconds).toList = [a, b, ':', c, d, ':', e, f] := by
    rw [clock]
    simp only [String.toList_append, hab, hcd, hef]
    rfl
  constructor
  · rw [htext]
    intro hmem
    have hdigit : ∀ x : Char, x.isDigit = true → '\n' ≠ x := by
      rintro x hx rfl
      exact absurd hx (by decide)
    simp [hdigit a ha, hdigit b hb, hdigit c hc, hdigit d hd, hdigit e he, hdigit f hf] at hmem
  · intro rest
    rw [htext]
    change (if [a, b, c, d, e, f].all Char.isDigit then _ else _) = _
    rw [if_pos (by simp [ha, hb, hc, hd, he, hf])]

/-- What stands in front of the first line break stays there. -/
theorem splitOnP_append {before : List Char} (h : '\n' ∉ before) (rest : List Char) :
    (before ++ rest).splitOnP (· == '\n') = (rest.splitOnP (· == '\n')).modifyHead (before ++ ·) := by
  induction before with
  | nil =>
    rw [List.nil_append]
    cases rest.splitOnP (· == '\n') <;> rfl
  | cons c before ih =>
    rw [List.mem_cons, not_or] at h
    have hc : (c == '\n') = false := beq_eq_false_iff_ne.mpr (Ne.symm h.1)
    rw [List.cons_append, List.splitOnP_cons_eq_if_modifyHead, hc, if_neg Bool.false_ne_true, ih h.2]
    cases rest.splitOnP (· == '\n') <;> rfl

theorem maskedLines_append {time : String} (h : MaskedTime time) {rest : String}
    {first : List Char} {others : List (List Char)}
    (hrest : rest.toList.splitOnP (· == '\n') = first :: others) :
    maskedLines (time ++ (" " ++ rest)) = String.ofList ("HH:MM:SS ".toList ++ first) ::
      others.map fun line => String.ofList (maskTime line) := by
  have htext : (time ++ (" " ++ rest)).toList = (time.toList ++ [' ']) ++ rest.toList := by
    rw [String.toList_append, String.toList_append, List.append_assoc]
    rfl
  have hblank : '\n' ∉ time.toList ++ [' '] := by
    rw [List.mem_append, not_or]
    exact ⟨h.oneLine, by decide⟩
  rw [maskedLines, htext, splitOnP_append hblank, hrest, List.modifyHead_cons, List.map_cons,
    List.append_assoc, List.singleton_append, h.hidden]

/-- At whatever time an entry is printed, its lines are the same but for the time. -/
theorem maskedLines_line (e : Entry) (seconds : Nat) :
    maskedLines (e.line (clock seconds)) = maskedLines (e.line "HH:MM:SS") := by
  unfold Entry.line
  split
  · rfl
  · next word colour _ =>
    have hline : ∀ time : String, time ++ " [\x1b[" ++ colour ++ "m" ++ word ++ "\x1b[0m] -- " ++
        e.text = time ++ (" " ++ ("[\x1b[" ++ colour ++ "m" ++ word ++ "\x1b[0m] -- " ++ e.text)) := by
      intro time
      apply String.toList_injective
      simp
    obtain ⟨first, others, hrest⟩ := List.exists_cons_of_ne_nil (List.splitOnP_ne_nil (· == '\n')
      ("[\x1b[" ++ colour ++ "m" ++ word ++ "\x1b[0m] -- " ++ e.text).toList)
    rw [hline, hline, maskedLines_append (maskedTime_clock seconds) hrest,
      maskedLines_append maskedTime_letters hrest]

namespace Entry

/-- The lines of an entry on a console. -/
def lines (e : Entry) : List String := maskedLines (e.line "HH:MM:SS")

end Entry

namespace Machine

/-- The lines on the console. -/
def lines (w : Machine) : List String := w.printed.flatMap maskedLines

theorem flatMap_maskedLines_texts (times : Nat → Nat) (n : Nat) (shown : List Entry) :
    (texts times n shown).flatMap maskedLines = shown.flatMap Entry.lines := by
  induction shown generalizing n with
  | nil => rfl
  | cons e rest ih =>
    rw [texts, List.flatMap_cons, List.flatMap_cons, maskedLines_line, ih, Entry.lines]

end Machine
end KernelDispatch
