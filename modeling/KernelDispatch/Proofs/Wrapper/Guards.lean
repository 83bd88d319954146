import KernelDispatch.Proofs.Traversal
import KernelDispatch.Proofs.Wrapper.Text

/-! The texts of a condition. However a guard is broken into lines, it is the guard on one line up
to its blanks, and the comparisons can be read back from either text. -/
namespace KernelDispatch

namespace Text

/-- Characters with a single space in place of every run of blanks. The flag tells whether they
follow a blank. -/
def collapseFrom : Bool → List Char → List Char
  | _, [] => []
  | afterBlank, c :: cs =>
    if isBlank c then if afterBlank then collapseFrom true cs else ' ' :: collapseFrom true cs
    else c :: collapseFrom false cs

def collapse (s : String) : String := .ofList (collapseFrom false s.toList)

/-- Whether characters end in a blank, or follow one if there are none. -/
def endsBlank (afterBlank : Bool) (cs : List Char) : Bool :=
  cs.foldl (fun _ c => isBlank c) afterBlank

theorem collapseFrom_append (afterBlank : Bool) (as bs : List Char) :
    collapseFrom afterBlank (as ++ bs) =
      collapseFrom afterBlank as ++ collapseFrom (endsBlank afterBlank as) bs := by
  induction as generalizing afterBlank with
  | nil => rfl
  | cons a as ih =>
    have hends : endsBlank afterBlank (a :: as) = endsBlank (isBlank a) as := rfl
    rw [List.cons_append, collapseFrom, collapseFrom, hends]
    cases isBlank a with
    | false => simp [ih]
    | true => cases afterBlank <;> simp [ih]

theorem collapseFrom_of_solid {cs : List Char} (h : ∀ c ∈ cs, isBlank c = false)
    (afterBlank : Bool) : collapseFrom afterBlank cs = cs := by
  induction cs generalizing afterBlank with
  | nil => rfl
  | cons c cs ih =>
    obtain ⟨hc, hrest⟩ := List.forall_mem_cons.mp h
    rw [collapseFrom, hc, if_neg Bool.false_ne_true, ih hrest]

theorem endsBlank_of_solid {cs : List Char} (h : ∀ c ∈ cs, isBlank c = false) (hne : cs ≠ [])
    (afterBlank : Bool) : endsBlank afterBlank cs = false := by
  obtain ⟨init, last, rfl⟩ := (List.eq_nil_or_concat cs).resolve_left hne
  rw [List.concat_eq_append] at h ⊢
  rw [endsBlank, List.foldl_concat]
  exact h last (List.mem_append_right init (List.mem_singleton_self last))

theorem collapseFrom_of_blank {cs : List Char} (h : ∀ c ∈ cs, isBlank c = true) :
    collapseFrom true cs = [] := by
  induction cs with
  | nil => rfl
  | cons c cs ih =>
    obtain ⟨hc, hrest⟩ := List.forall_mem_cons.mp h
    rw [collapseFrom, if_pos hc, if_pos rfl, ih hrest]

theorem endsBlank_of_blank {cs : List Char} (h : ∀ c ∈ cs, isBlank c = true) :
    endsBlank true cs = true := by
  induction cs with
  | nil => rfl
  | cons c cs ih =>
    obtain ⟨hc, hrest⟩ := List.forall_mem_cons.mp h
    rw [endsBlank, List.foldl_cons, hc]
    exact ih hrest

end Text

open Text

/-- A text collapses to another one behind a blank or not, and ends in a blank or not. -/
structure Collapses (afterBlank : Bool) (s t : String) (ends : Bool) : Prop where
  chars : collapseFrom afterBlank s.toList = t.toList
  ends : endsBlank afterBlank s.toList = ends

instance (afterBlank : Bool) (s t : String) (ends : Bool) :
    Decidable (Collapses afterBlank s t ends) :=
  decidable_of_iff (collapseFrom afterBlank s.toList = t.toList ∧
    endsBlank afterBlank s.toList = ends) ⟨fun ⟨h, h'⟩ => ⟨h, h'⟩, fun ⟨h, h'⟩ => ⟨h, h'⟩⟩

namespace Collapses

theorem append {first second third : Bool} {a a' b b' : String}
    (ha : Collapses first a a' second) (hb : Collapses second b b' third) :
    Collapses first (a ++ b) (a' ++ b') third where
  chars := by
    rw [String.toList_append, String.toList_append, collapseFrom_append, ha.chars, ha.ends,
      hb.chars]
  ends := by
    have hsplit : endsBlank first (a ++ b).toList =
        endsBlank (endsBlank first a.toList) b.toList := by
      rw [String.toList_append]
      exact List.foldl_append
    rw [hsplit, ha.ends, hb.ends]

theorem collapse_eq {s t : String} {ends : Bool} (h : Collapses false s t ends) :
    collapse s = t := by
  rw [collapse, h.chars, String.ofList_toList]

/-- A word stays as it is, also behind blanks. -/
theorem plain {w : String} (hw : IsPlain w) (hne : w ≠ "") (afterBlank : Bool) :
    Collapses afterBlank w w false := by
  have hsolid : ∀ c ∈ w.toList, isBlank c = false := by
    intro c hc
    by_contra hblank
    have hword := isWordChar_eq_false_of_isBlank (eq_true_of_ne_false hblank)
    rw [hw c hc] at hword
    exact Bool.noConfusion hword
  have hletters : w.toList ≠ [] := fun h => hne (String.toList_eq_nil_iff.mp h)
  exact ⟨collapseFrom_of_solid hsolid afterBlank, endsBlank_of_solid hsolid hletters afterBlank⟩

/-- Blanks behind a blank leave nothing. -/
theorem blanks {s : String} (h : AllBlank s) : Collapses true s "" true :=
  ⟨collapseFrom_of_blank h, endsBlank_of_blank h⟩

theorem openParen (afterBlank : Bool) : Collapses afterBlank "(" "(" false := by
  cases afterBlank <;> decide

theorem closeParen : Collapses false ")" ")" false := by decide

theorem comparison (c : Comparison) (afterBlank : Bool) :
    Collapses afterBlank c.text c.text false := by
  have hspace : Collapses false " " " " true := by decide
  have hrelation : Collapses true c.relation.word c.relation.word false := by
    cases c.relation <;> decide
  have hname := plain c.operand.isPlain_word c.operand.word_ne_empty false
  have hlimit := plain (isPlain_decimal c.limit) Nat.repr_ne_empty true
  exact ((((((openParen afterBlank).append hname).append hspace).append hrelation).append
    hspace).append hlimit).append closeParen

theorem both : Collapses false " && " " && " true := by decide

theorem lineBreak {indent : String} (h : AllBlank indent) :
    Collapses false (" &&\n" ++ indent) " && " true := by
  have hbreak : Collapses false " &&\n" " && " true := by decide
  exact hbreak.append (blanks h)

end Collapses

namespace Condition

/-- What follows a comparison on one line. -/
def after : List Comparison → String
  | [] => ""
  | c :: cs => " && " ++ c.text ++ after cs

private theorem intercalate_eq_after (c : Comparison) (cs : List Comparison) :
    " && ".intercalate ((c :: cs).map Comparison.text) = c.text ++ after cs := by
  induction cs generalizing c with
  | nil =>
    rw [List.map_singleton, String.intercalate_singleton, after, String.append_empty]
  | cons d ds ih =>
    rw [List.map_cons, List.map_cons, String.intercalate_cons_cons, ← List.map_cons, ih, after]
    simp only [String.append_assoc]

theorem text_of_cons {c : Condition} {first : Comparison} {rest : List Comparison}
    (h : c.comparisons = first :: rest) : c.text = first.text ++ after rest := by
  unfold text
  rw [h]
  exact intercalate_eq_after first rest

theorem collapses_brokenAfter {indent : String} (h : AllBlank indent) (last : Comparison)
    (cs : List Comparison) : Collapses false (brokenAfter indent last cs) (after cs) false := by
  induction cs generalizing last with
  | nil => exact ⟨rfl, rfl⟩
  | cons c cs ih =>
    have hgap : Collapses false
        (if last.operand.kind = c.operand.kind then " && " else " &&\n" ++ indent) " && " true := by
      split_ifs
      · exact .both
      · exact .lineBreak h
    exact (hgap.append (.comparison c true)).append (ih c)

theorem guardText_of_le {c : Condition} (h : c.comparisons.length ≤ 1) : c.guardText = c.text :=
  if_neg (Nat.not_lt.mpr h)

/-- A single comparison stays on its line. -/
theorem brokenGuardText_of_le {c : Condition} {indent : String} (h : c.comparisons.length ≤ 1) :
    c.brokenGuardText indent = c.guardText := by
  unfold brokenGuardText
  split
  · next hcs => simp [hcs] at h
  · rfl

theorem brokenGuardText_of_cons {c : Condition} {indent : String} {first second : Comparison}
    {rest : List Comparison} (h : c.comparisons = first :: second :: rest) :
    c.brokenGuardText indent =
      "(" ++ first.text ++ brokenAfter indent first (second :: rest) ++ ")" := by
  unfold brokenGuardText
  rw [h]

/-- A broken guard is the guard on one line up to its blanks. -/
theorem collapse_brokenGuardText {indent : String} (h : AllBlank indent) (c : Condition) :
    collapse (c.brokenGuardText indent) = c.guardText := by
  match hcs : c.comparisons with
  | [] =>
    have hnone : Collapses false "(1)" "(1)" false := by decide
    rw [brokenGuardText_of_le (by simp [hcs]), guardText_of_le (by simp [hcs]), text, hcs]
    exact hnone.collapse_eq
  | [first] =>
    rw [brokenGuardText_of_le (by simp [hcs]), guardText_of_le (by simp [hcs]), text_of_cons hcs,
      after, String.append_empty]
    exact (Collapses.comparison first false).collapse_eq
  | first :: second :: rest =>
    have hguard : c.guardText = "(" ++ first.text ++ after (second :: rest) ++ ")" := by
      rw [guardText, if_pos (by simp [hcs]), text_of_cons hcs, ← String.append_assoc]
    rw [hguard, brokenGuardText_of_cons hcs]
    exact ((((Collapses.openParen false).append (.comparison first false)).append
      (collapses_brokenAfter h first (second :: rest))).append .closeParen).collapse_eq

end Condition

namespace Text

abbrev OneLine : String → Prop := Consists fun c => c != '\n'

theorem IsPlain.oneLine {w : String} (h : IsPlain w) : OneLine w := by
  intro c hc
  rw [bne_iff_ne]
  rintro rfl
  exact nomatch h '\n' hc

end Text

theorem Comparison.oneLine_text (c : Comparison) : OneLine c.text := by
  have hopen : OneLine "(" := by decide
  have hspace : OneLine " " := by decide
  have hrelation : OneLine c.relation.word := by cases c.relation <;> decide
  have hclose : OneLine ")" := by decide
  exact (((((hopen.append c.operand.isPlain_word.oneLine).append hspace).append hrelation).append
    hspace).append (isPlain_decimal c.limit).oneLine).append hclose

/-- A text in which some comparisons stand in order, with gaps between neighbours. -/
inductive Spaced (IsGap : Comparison → Comparison → String → Prop) : List Comparison → String → Prop
  | single (c : Comparison) : Spaced IsGap [c] c.text
  | next {c d : Comparison} {cs : List Comparison} {gap s : String} (between : IsGap c d gap)
      (rest : Spaced IsGap (d :: cs) s) : Spaced IsGap (c :: d :: cs) (c.text ++ gap ++ s)

/-- A gap of a broken guard is on one line exactly if the comparisons around it are of one kind. -/
def Comparison.Breaks (c d : Comparison) (gap : String) : Prop :=
  collapse gap = " && " ∧ (OneLine gap ↔ c.operand.kind = d.operand.kind)

theorem Comparison.breaks_gap {indent : String} (h : AllBlank indent) (c d : Comparison) :
    c.Breaks d (if c.operand.kind = d.operand.kind then " && " else " &&\n" ++ indent) := by
  by_cases hkind : c.operand.kind = d.operand.kind
  · rw [if_pos hkind]
    have hline : OneLine " && " := by decide
    exact ⟨Collapses.both.collapse_eq, iff_of_true hline hkind⟩
  · rw [if_neg hkind]
    have hbreak : ¬ OneLine (" &&\n" ++ indent) := by
      intro hline
      have hnewline := hline '\n' (by simp)
      simp at hnewline
    exact ⟨(Collapses.lineBreak h).collapse_eq, iff_of_false hbreak hkind⟩

namespace Condition

theorem spaced_brokenAfter {indent : String} (h : AllBlank indent) (first : Comparison)
    (cs : List Comparison) :
    Spaced Comparison.Breaks (first :: cs) (first.text ++ brokenAfter indent first cs) := by
  induction cs generalizing first with
  | nil =>
    rw [brokenAfter, String.append_empty]
    exact .single first
  | cons c cs ih =>
    have hall := Spaced.next (first.breaks_gap h c) (ih c)
    simpa only [brokenAfter, String.append_assoc] using hall

theorem oneLine_after (cs : List Comparison) : OneLine (after cs) := by
  induction cs with
  | nil => decide
  | cons c cs ih =>
    have hboth : OneLine " && " := by decide
    exact (hboth.append c.oneLine_text).append ih

theorem oneLine_text (c : Condition) : OneLine c.text := by
  cases hcs : c.comparisons with
  | nil =>
    rw [text, hcs]
    decide
  | cons first rest =>
    rw [text_of_cons hcs]
    exact first.oneLine_text.append (oneLine_after rest)

theorem oneLine_guardText (c : Condition) : OneLine c.guardText := by
  have hopen : OneLine "(" := by decide
  have hclose : OneLine ")" := by decide
  unfold guardText
  split_ifs
  · exact (hopen.append c.oneLine_text).append hclose
  · exact c.oneLine_text

end Condition

/-- Reads a conjunction, with or without parentheses around it. -/
def Test.readWhole (tokens : List Token) : Option (List Test) :=
  match readConjunction tokens with
  | some (tests, []) => some tests
  | _ =>
    match readGuard tokens with
    | some (tests, []) => some tests
    | _ => none

/-- The comparison of a wrapper variable that a test stands for. -/
def Test.comparison? (t : Test) : Option Comparison :=
  (Operand.all.find? fun o => o.word = t.name).bind fun operand =>
    if t.limit < UInt32.size then some ⟨operand, t.relation, .ofNat t.limit⟩ else none

/-- The comparisons that a text conjoins. -/
def comparisons? (s : String) : Option (List Comparison) :=
  (tokens? s).bind fun ts => (Test.readWhole ts).bind fun tests => tests.mapM Test.comparison?

namespace Test

theorem comparison?_test (c : Comparison) : c.test.comparison? = some c := by
  have hlimit : c.limit.toNat < UInt32.size := c.limit.toNat_lt
  unfold comparison? Comparison.test
  rw [Operand.find?_word, Option.bind_some, if_pos hlimit, UInt32.ofNat_toNat]

theorem readWhole_conjunction (ts : List Test) : readWhole (conjunction ts) = some ts := by
  cases ts with
  | nil => rfl
  | cons t ts =>
    have hread : readConjunction (conjunction (t :: ts) ++ []) = some (t :: ts, []) :=
      readConjunction_tokens t ts nofun
    rw [List.append_nil] at hread
    rw [readWhole, hread]

theorem readWhole_guard (ts : List Test) : readWhole (guard ts) = some ts := by
  match ts with
  | [] => rfl
  | [t] => exact readWhole_conjunction [t]
  | t :: u :: us =>
    -- a test does not begin with two parentheses
    have hconjunction : readConjunction (guard (t :: u :: us)) = none := rfl
    have hguard := readGuard_tokens (t :: u :: us) []
    rw [List.append_nil] at hguard
    rw [readWhole, hconjunction, hguard]

theorem mapM_comparison?_tests (c : Condition) :
    c.tests.mapM Test.comparison? = some c.comparisons :=
  mapM_map_eq_pure comparison?_test c.comparisons

end Test

namespace Condition

/-- The texts of a condition: alone, as a guard, and as a guard broken at any indentation. -/
inductive IsText (c : Condition) : String → Prop
  | text : IsText c c.text
  | guardText : IsText c c.guardText
  | brokenGuardText {indent : String} (h : AllBlank indent) : IsText c (c.brokenGuardText indent)

theorem IsText.comparisons?_eq {c : Condition} {s : String} (h : c.IsText s) :
    comparisons? s = some c.comparisons := by
  have hread : ∀ ts, Spells s ts → Test.readWhole ts = some c.tests →
      comparisons? s = some c.comparisons := by
    intro ts hspells htests
    rw [comparisons?, hspells.tokens?_eq, Option.bind_some, htests, Option.bind_some,
      Test.mapM_comparison?_tests]
  cases h with
  | text => exact hread _ (Spells.text c) (Test.readWhole_conjunction c.tests)
  | guardText => exact hread _ (Spells.guardText c) (Test.readWhole_guard c.tests)
  | brokenGuardText h => exact hread _ (Spells.brokenGuardText h c) (Test.readWhole_guard c.tests)

/-- Conditions that share a text hold for the same calls. -/
theorem IsText.eval_eq {c d : Condition} {s : String} (hc : c.IsText s) (hd : d.IsText s)
    (r : Runtime) : c.eval r = d.eval r := by
  have hsame : c.comparisons = d.comparisons :=
    Option.some.inj (hc.comparisons?_eq.symm.trans hd.comparisons?_eq)
  rw [eval_eq_all_comparisons, eval_eq_all_comparisons, hsame]

theorem IsText.eq_of_comparisons_eq_nil {c : Condition} (h : c.comparisons = []) {s : String}
    (hs : c.IsText s) : s = "(1)" := by
  have hlength : c.comparisons.length ≤ 1 := by simp [h]
  have htext : c.text = "(1)" := by rw [Condition.text, h]
  cases hs with
  | text => exact htext
  | guardText => rw [guardText_of_le hlength, htext]
  | brokenGuardText _ => rw [brokenGuardText_of_le hlength, guardText_of_le hlength, htext]

/-- A broken guard is the guard on one line up to its blanks. It has line breaks exactly between
neighbouring comparisons of different kinds, and only if there are several comparisons. Any text of
a condition is read back as its comparisons in order, `(1)` as none, so that conditions with a
common text hold for the same calls. -/
theorem guard_texts_read_back {indent : String} (hindent : AllBlank indent) (c : Condition) :
    collapse (c.brokenGuardText indent) = c.guardText ∧
    (OneLine c.text ∧ OneLine c.guardText ∧ ∀ d ∈ c.comparisons, OneLine d.text) ∧
    (c.comparisons.length ≤ 1 → c.brokenGuardText indent = c.guardText) ∧
    (1 < c.comparisons.length → ∃ body, c.brokenGuardText indent = "(" ++ body ++ ")" ∧
      Spaced Comparison.Breaks c.comparisons body) ∧
    (∀ s, c.IsText s → comparisons? s = some c.comparisons) ∧
    (c.comparisons = [] → ∀ s, c.IsText s → s = "(1)") ∧
    ∀ (d : Condition) (s : String), c.IsText s → d.IsText s → ∀ r, c.eval r = d.eval r := by
  refine ⟨collapse_brokenGuardText hindent c,
    ⟨c.oneLine_text, c.oneLine_guardText, fun d _ => d.oneLine_text⟩,
    brokenGuardText_of_le, fun hseveral => ?_, fun s => IsText.comparisons?_eq,
    fun hnone s => IsText.eq_of_comparisons_eq_nil hnone, fun d s hc hd => hc.eval_eq hd⟩
  match hcs : c.comparisons with
  | [] => simp [hcs] at hseveral
  | [_] => simp [hcs] at hseveral
  | first :: second :: rest =>
    refine ⟨_, ?_, spaced_brokenAfter hindent first (second :: rest)⟩
    rw [brokenGuardText_of_cons hcs, ← String.append_assoc]

/-- Comparisons of three kinds, nested with empty conjunctions, at an indentation that breaks lines
itself. -/
theorem guard_texts_read_back_nested :
    let c : Condition := .all [.always, .all [.all [], .eq (.field .strideW) 1],
      .all [.eq (.field .strideH) 2, .all [.eq (.field .kernelW) 3]], .le (.padding .top) 10]
    let flat : Condition := .all [.eq (.field .strideW) 1, .eq (.field .strideH) 2,
      .eq (.field .kernelW) 3, .le (.padding .top) 10]
    let indent := "\t\n  "
    AllBlank indent ∧
      c.brokenGuardText indent = "((stride_w == 1) && (stride_h == 2) &&\n\t\n  (kernel_w == 3) " ++
        "&&\n\t\n  (padding_top <= 10))" ∧
      collapse (c.brokenGuardText indent) = c.guardText ∧
      comparisons? (c.brokenGuardText indent) = some c.comparisons ∧
      ∀ r, c.eval r = flat.eval r := by
  intro c flat indent
  have hindent : AllBlank indent := by decide
  obtain ⟨hcollapse, -, -, -, hread, -, heval⟩ := guard_texts_read_back hindent c
  have hbroken : c.IsText (c.brokenGuardText indent) := .brokenGuardText hindent
  have hflat : flat.IsText c.text := .text
  exact ⟨hindent, by decide, hcollapse, hread _ hbroken, heval flat c.text .text hflat⟩

end Condition
end KernelDispatch
