import KernelDispatch.Condition.Basic
import KernelDispatch.Text.Blank
import KernelDispatch.Text.Lines

/-! Generated statements as sequences of tokens. -/
namespace KernelDispatch

inductive Mark where
  | openParen
  | closeParen
  | openBrace
  | closeBrace
  | comma
  | semicolon
  | star
  deriving DecidableEq, Repr

namespace Mark

def all : List Mark :=
  [.openParen, .closeParen, .openBrace, .closeBrace, .comma, .semicolon, .star]

def char : Mark → Char
  | .openParen => '('
  | .closeParen => ')'
  | .openBrace => '\x7b'
  | .closeBrace => '\x7d'
  | .comma => ','
  | .semicolon => ';'
  | .star => '*'

end Mark

inductive Token where
  /-- A name, a keyword or a number. -/
  | word (name : String)
  | literal (text : String)
  | mark (m : Mark)
  | relation (r : Relation)
  | both
  deriving DecidableEq, Repr

namespace Text

/-- Letters, digits and underscores. Letters beyond ASCII are not told from other characters. -/
def isWordChar (c : Char) : Bool :=
  c.isAlphanum || c == '_' || (128 ≤ c.toNat && !isBlank c)

theorem isWordChar_eq_false_of_isBlank {c : Char} (h : isBlank c = true) :
    isWordChar c = false := by
  have hword : c.isAlphanum = false := by
    have hranges : c.isAlphanum =
        (((decide (c.val ≥ 'A'.val ∧ c.val ≤ 'Z'.val) || (c.val ≥ 'a'.val && c.val ≤ 'z'.val)) ||
          (c.val ≥ '0'.val && c.val ≤ '9'.val)) : Bool) := rfl
    rw [hranges]
    simp [isBlank, blankRanges] at h
    simp [UInt32.le_iff_toNat_le]
    omega
  have hunderscore : c ≠ '_' := by
    rintro rfl
    exact nomatch h
  simp [isWordChar, hword, hunderscore, h]

def Consists (kind : Char → Bool) (s : String) : Prop := ∀ c ∈ s.toList, kind c = true

instance (kind : Char → Bool) (s : String) : Decidable (Consists kind s) :=
  decidable_of_iff (s.toList.all kind = true) List.all_eq_true

theorem Consists.append {kind : Char → Bool} {a b : String} (ha : Consists kind a)
    (hb : Consists kind b) : Consists kind (a ++ b) := by
  intro c hc
  rw [String.toList_append, List.mem_append] at hc
  exact hc.elim (ha c) (hb c)

abbrev IsPlain : String → Prop := Consists isWordChar

abbrev AllBlank : String → Prop := Consists isBlank

theorem allBlank_step : AllBlank step := by decide

end Text

open Text

/-- Where a scan stands: between two tokens, in a word, in a quoted text, or behind the first
character of a token of two. -/
inductive Scan where
  | between
  | word (letters : List Char)
  | literal (letters : List Char)
  | pair (first : Char)
  deriving DecidableEq, Repr

namespace Scan

def start (c : Char) : Option (List Token × Scan) :=
  if isWordChar c then some ([], .word [c])
  else if isBlank c then some ([], .between)
  else if c = '"' then some ([], .literal [])
  else if c = '&' ∨ c = '=' ∨ c = '<' then some ([], .pair c)
  else (Mark.all.find? fun m => m.char = c).map fun m => ([.mark m], .between)

/-- The tokens that end at a character and where the scan stands after it. A quoted text stays on
one line, and it has no escapes. -/
def step : Scan → Char → Option (List Token × Scan)
  | .between, c => start c
  | .word letters, c =>
    if isWordChar c then some ([], .word (letters ++ [c]))
    else (start c).map fun (ts, next) => (.word (.ofList letters) :: ts, next)
  | .literal letters, c =>
    if c = '"' then some ([.literal (.ofList letters)], .between)
    else if c = '\\' ∨ c = '\n' then none
    else some ([], .literal (letters ++ [c]))
  | .pair '&', '&' => some ([.both], .between)
  | .pair '=', '=' => some ([.relation .eq], .between)
  | .pair '<', '=' => some ([.relation .le], .between)
  | .pair _, _ => none

def run : Scan → List Char → Option (List Token × Scan)
  | s, [] => some ([], s)
  | s, c :: cs =>
    (s.step c).bind fun (ts, next) => (next.run cs).map fun (us, last) => (ts ++ us, last)

def finish : Scan → Option (List Token)
  | .between => some []
  | .word letters => some [.word (.ofList letters)]
  | .literal _ | .pair _ => none

theorem run_cons_eq_some_iff {s last : Scan} {c : Char} {cs : List Char} {ts : List Token} :
    s.run (c :: cs) = some (ts, last) ↔
      ∃ now next later, s.step c = some (now, next) ∧ next.run cs = some (later, last) ∧
        now ++ later = ts := by
  simp only [run, Option.bind_eq_some_iff, Option.map_eq_some_iff, Prod.exists, Prod.mk.injEq]
  constructor
  · rintro ⟨now, next, hstep, later, _, hrun, rfl, rfl⟩
    exact ⟨now, next, later, hstep, hrun, rfl⟩
  · rintro ⟨now, next, later, hstep, hrun, rfl⟩
    exact ⟨now, next, hstep, later, last, hrun, rfl, rfl⟩

theorem run_append {s next last : Scan} {as bs : List Char} {ts us : List Token}
    (ha : s.run as = some (ts, next)) (hb : next.run bs = some (us, last)) :
    s.run (as ++ bs) = some (ts ++ us, last) := by
  induction as generalizing s ts with
  | nil =>
    cases ha
    exact hb
  | cons a as ih =>
    obtain ⟨now, mid, later, hstep, hrun, rfl⟩ := run_cons_eq_some_iff.mp ha
    rw [List.append_assoc]
    exact run_cons_eq_some_iff.mpr ⟨now, mid, later ++ us, hstep, ih hrun, rfl⟩

theorem run_blanks {cs : List Char} (h : ∀ c ∈ cs, isBlank c = true) :
    run .between cs = some ([], .between) := by
  induction cs with
  | nil => rfl
  | cons c cs ih =>
    have hc := h c List.mem_cons_self
    have hstep : step .between c = some ([], .between) := by
      simp [step, start, isWordChar_eq_false_of_isBlank hc, hc]
    exact run_cons_eq_some_iff.mpr
      ⟨[], .between, [], hstep, ih fun d hd => h d (List.mem_cons_of_mem c hd), rfl⟩

theorem run_word {letters cs : List Char} (h : ∀ c ∈ cs, isWordChar c = true) :
    run (.word letters) cs = some ([], .word (letters ++ cs)) := by
  induction cs generalizing letters with
  | nil => rw [List.append_nil, run]
  | cons c cs ih =>
    have hstep : step (.word letters) c = some ([], .word (letters ++ [c])) :=
      if_pos (h c List.mem_cons_self)
    refine run_cons_eq_some_iff.mpr ⟨[], _, [], hstep, ?_, rfl⟩
    rw [ih fun d hd => h d (List.mem_cons_of_mem c hd), List.append_assoc, List.singleton_append]

theorem run_literal {letters cs : List Char} (h : ∀ c ∈ cs, isWordChar c = true) :
    run (.literal letters) cs = some ([], .literal (letters ++ cs)) := by
  induction cs generalizing letters with
  | nil => rw [List.append_nil, run]
  | cons c cs ih =>
    have hc := h c List.mem_cons_self
    have hquote : c ≠ '"' := ne_of_apply_ne isWordChar (by rw [hc]; decide)
    have hescape : c ≠ '\\' := ne_of_apply_ne isWordChar (by rw [hc]; decide)
    have hbreak : c ≠ '\n' := ne_of_apply_ne isWordChar (by rw [hc]; decide)
    have hstep : step (.literal letters) c = some ([], .literal (letters ++ [c])) := by
      simp [step, hquote, hescape, hbreak]
    refine run_cons_eq_some_iff.mpr ⟨[], _, [], hstep, ?_, rfl⟩
    rw [ih fun d hd => h d (List.mem_cons_of_mem c hd), List.append_assoc, List.singleton_append]

/-- No token reaches over the end of a line. -/
theorem eq_between_of_step_newline {s next : Scan} {ts : List Token}
    (h : s.step '\n' = some (ts, next)) : next = .between := by
  cases s with
  | between => cases h; rfl
  | word letters => cases h; rfl
  | literal letters => exact nomatch h
  | pair first =>
    simp [step] at h

theorem run_hang {indent cs : List Char} {s last : Scan} {ts : List Token}
    (hindent : ∀ c ∈ indent, isBlank c = true) (h : s.run cs = some (ts, last)) :
    s.run (cs.flatMap fun c => if c = '\n' then c :: indent else [c]) = some (ts, last) := by
  induction cs generalizing s ts with
  | nil => exact h
  | cons c cs ih =>
    obtain ⟨now, next, later, hstep, hrun, rfl⟩ := run_cons_eq_some_iff.mp h
    rw [List.flatMap_cons]
    by_cases hc : c = '\n'
    · subst hc
      -- the scan stands between two tokens here, where indentation adds none
      obtain rfl := eq_between_of_step_newline hstep
      rw [if_pos rfl, List.cons_append]
      have hindented := run_append (run_blanks hindent) (ih hrun)
      exact run_cons_eq_some_iff.mpr ⟨now, .between, later, hstep, hindented, rfl⟩
    · rw [if_neg hc]
      exact run_cons_eq_some_iff.mpr ⟨now, next, later, hstep, ih hrun, rfl⟩

end Scan

/-- The tokens of a text. Blanks separate tokens and are otherwise passed over. -/
def tokens? (s : String) : Option (List Token) :=
  (Scan.run .between s.toList).bind fun (ts, last) => last.finish.map fun us => ts ++ us

/-- A text reads as some tokens wherever it stands behind a complete token. -/
def Spells (s : String) (ts : List Token) : Prop :=
  Scan.run .between s.toList = some (ts, .between)

instance (s : String) (ts : List Token) : Decidable (Spells s ts) :=
  inferInstanceAs (Decidable (_ = _))

/-- Whether a text ends any word that it follows. -/
def EndsWord (s : String) : Prop := ∃ c cs, s.toList = c :: cs ∧ isWordChar c = false

theorem EndsWord.append {a : String} (h : EndsWord a) (b : String) : EndsWord (a ++ b) := by
  obtain ⟨c, cs, ha, hc⟩ := h
  exact ⟨c, cs ++ b.toList, by rw [String.toList_append, ha, List.cons_append], hc⟩

/-- A plain text is one word unless it is empty. -/
def wordTokens (w : String) : List Token := if w = "" then [] else [.word w]

namespace Spells

theorem tokens?_eq {s : String} {ts : List Token} (h : Spells s ts) : tokens? s = some ts := by
  rw [tokens?, h, Option.bind_some]
  exact congrArg some (List.append_nil ts)

theorem append {a b : String} {ts us : List Token} (ha : Spells a ts) (hb : Spells b us) :
    Spells (a ++ b) (ts ++ us) := by
  rw [Spells, String.toList_append]
  exact Scan.run_append ha hb

theorem blanks {s : String} (h : AllBlank s) : Spells s [] :=
  Scan.run_blanks h

theorem openParen : Spells "(" [.mark .openParen] := by decide

theorem closeParen : Spells ")" [.mark .closeParen] := by decide

theorem semicolon : Spells ";" [.mark .semicolon] := by decide

/-- A plain text stands for its word in front of what cannot belong to the word. -/
theorem plain_append {w s : String} {ts : List Token} (hw : IsPlain w) (hs : EndsWord s)
    (h : Spells s ts) : Spells (w ++ s) (wordTokens w ++ ts) := by
  obtain ⟨d, ds, hds, hd⟩ := hs
  by_cases hempty : w = ""
  · rw [wordTokens, if_pos hempty, hempty, String.empty_append]
    exact h
  · rw [Spells, hds] at h
    obtain ⟨now, next, later, hstep, hrun, rfl⟩ := Scan.run_cons_eq_some_iff.mp h
    obtain ⟨c, cs, hletters⟩ : ∃ c cs, w.toList = c :: cs :=
      List.exists_cons_of_ne_nil fun he => hempty (String.toList_eq_nil_iff.mp he)
    rw [IsPlain, Consists, hletters] at hw
    have hfirst : Scan.step .between c = some ([], .word [c]) := if_pos (hw c List.mem_cons_self)
    have hword : Scan.run .between w.toList = some ([], .word w.toList) := by
      rw [hletters]
      exact Scan.run_cons_eq_some_iff.mpr
        ⟨[], _, [], hfirst, Scan.run_word fun e he => hw e (List.mem_cons_of_mem c he), rfl⟩
    have hclose : Scan.step (.word w.toList) d = some (.word w :: now, next) := by
      change Scan.start d = some (now, next) at hstep
      simp [Scan.step, hd, hstep]
    have hrest : Scan.run (.word w.toList) (d :: ds) =
        some (.word w :: (now ++ later), .between) :=
      Scan.run_cons_eq_some_iff.mpr ⟨_, next, later, hclose, hrun, rfl⟩
    have hboth := Scan.run_append hword hrest
    rw [wordTokens, if_neg hempty, Spells, String.toList_append, hds]
    exact hboth

theorem word_append {w s : String} {ts : List Token} (hw : IsPlain w) (hne : w ≠ "")
    (hs : EndsWord s) (h : Spells s ts) : Spells (w ++ s) (.word w :: ts) := by
  have hboth := plain_append hw hs h
  rwa [wordTokens, if_neg hne] at hboth

theorem quoted {w : String} (hw : IsPlain w) : Spells ("\"" ++ w ++ "\"") [.literal w] := by
  have hopen : Scan.run .between "\"".toList = some ([], .literal []) := by decide
  have hclose : Scan.run (.literal w.toList) "\"".toList = some ([.literal w], .between) := by
    simp [Scan.run, Scan.step]
  rw [Spells, String.toList_append, String.toList_append]
  exact Scan.run_append (Scan.run_append hopen (Scan.run_literal hw)) hclose

/-- Indentation behind the line breaks of a text leaves its tokens alone. -/
theorem hang {indent s : String} {ts : List Token} (hindent : AllBlank indent)
    (h : Spells s ts) : Spells (Text.hang indent s) ts := by
  rw [Spells, Text.hang, String.toList_ofList]
  exact Scan.run_hang hindent h

end Spells
end KernelDispatch
