import KernelDispatch.Manifest.Select
import KernelDispatch.Proofs.Encoding.Faithful
import KernelDispatch.Proofs.Lineage
import Mathlib

/-! What some words select from a manifest. Only which words there are counts, not their order or
how often they come. -/
namespace KernelDispatch

/-- Some words pick what they name. They pick everything if there are none or one of them says
so. -/
def Picks (words : List String) (word : String) : Prop :=
  words = [] ∨ allWord ∈ words ∨ word ∈ words

instance (words : List String) (word : String) : Decidable (Picks words word) :=
  inferInstanceAs (Decidable (_ ∨ _))

theorem decide_picks (words : List String) (word : String) :
    decide (Picks words word) = ((words.isEmpty || allWord ∈ words) || word ∈ words) := by
  rw [Bool.eq_iff_iff, decide_eq_true_iff]
  simp only [Picks, Bool.or_eq_true, List.isEmpty_iff, decide_eq_true_eq, or_assoc]

theorem picks_congr {words others : List String} (h : ∀ w, w ∈ others ↔ w ∈ words)
    (word : String) : Picks others word ↔ Picks words word := by
  have hempty : others = [] ↔ words = [] := by
    rw [List.eq_nil_iff_forall_not_mem, List.eq_nil_iff_forall_not_mem]
    exact forall_congr' fun w => not_congr (h w)
  unfold Picks
  rw [hempty, h, h]

namespace Manifest

section Tags
variable {m : Manifest}

theorem requireTags_eq_ok_iff {seen tags : List String} : requireTags seen tags = .ok () ↔
    tags.Nodup ∧ ∀ tag ∈ tags, tag ∉ seen ∧ tag ≠ headerWord ∧ tag ≠ allWord := by
  induction tags generalizing seen with
  | nil => exact iff_of_true rfl ⟨List.nodup_nil, nofun⟩
  | cons tag rest ih =>
    rw [requireTags, List.nodup_cons, List.forall_mem_cons]
    split_ifs with hreserved hseen
    · refine iff_of_false nofun ?_
      rintro ⟨-, ⟨-, hheader, hall⟩, -⟩
      exact hreserved.elim hheader hall
    · exact iff_of_false nofun fun ⟨_, ⟨hnew, _⟩, _⟩ => hnew hseen
    · obtain ⟨hheader, hall⟩ := not_or.mp hreserved
      rw [ih]
      -- the tag is among those seen by the rest, so that it does not come again there
      constructor
      · rintro ⟨hnodup, hrest⟩
        refine ⟨⟨fun hmem => (hrest tag hmem).1 List.mem_cons_self, hnodup⟩,
          ⟨hseen, hheader, hall⟩, fun t ht => ?_⟩
        obtain ⟨hnew, hfree⟩ := hrest t ht
        exact ⟨fun hmem => hnew (List.mem_cons_of_mem tag hmem), hfree⟩
      · rintro ⟨⟨hfresh, hnodup⟩, -, hrest⟩
        refine ⟨hnodup, fun t ht => ?_⟩
        obtain ⟨hnew, hfree⟩ := hrest t ht
        refine ⟨fun hmem => ?_, hfree⟩
        rcases List.mem_cons.mp hmem with rfl | hold
        · exact hfresh ht
        · exact hnew hold

/-- A manifest is accepted exactly if its text declares it, its tags are different, and none of them
is a word that selects something else. -/
theorem ofText_eq_ok_iff {text root : String} : ofText text root = .ok m ↔
    Decoder.ofText ManifestDecl.decode text = .ok m.decl ∧ m.root = root ∧ m.tags.Nodup ∧
      ∀ tag ∈ m.tags, tag ≠ headerWord ∧ tag ≠ allWord := by
  obtain ⟨root', decl⟩ := m
  unfold ofText
  cases Decoder.ofText ManifestDecl.decode text with
  | error e => exact iff_of_false nofun nofun
  | ok declared =>
    have htags : requireTags [] (declared.targets.map TargetDecl.tag) = .ok () ↔
        (declared.targets.map TargetDecl.tag).Nodup ∧
          ∀ tag ∈ declared.targets.map TargetDecl.tag, tag ≠ headerWord ∧ tag ≠ allWord := by
      rw [requireTags_eq_ok_iff]
      simp only [List.not_mem_nil, not_false_eq_true, true_and]
    change ((requireTags [] (declared.targets.map TargetDecl.tag)).mapError Fault.manifest).bind
      (fun _ => .ok ⟨root, declared⟩) = (.ok ⟨root', decl⟩ : Except Fault Manifest) ↔ _
    constructor
    · intro h
      cases hrequired : requireTags [] (declared.targets.map TargetDecl.tag) with
      | error e =>
        rw [hrequired] at h
        exact nomatch h
      | ok _ =>
        rw [hrequired] at h
        obtain ⟨rfl, rfl⟩ := Manifest.mk.inj (Except.ok.inj h)
        exact ⟨rfl, rfl, htags.mp hrequired⟩
    · rintro ⟨hdecl, rfl, haccepted⟩
      obtain rfl := Except.ok.inj hdecl
      rw [htags.mpr haccepted]
      rfl

/-- Targets are found by their tags. -/
theorem target?_tag (h : m.tags.Nodup) {t : TargetDecl} (ht : t ∈ m.targets) :
    m.target? t.tag = some t := by
  cases hfind : m.target? t.tag with
  | none =>
    have hmissing := List.find?_eq_none.mp hfind t ht
    simp at hmissing
  | some u =>
    have hu : u ∈ m.targets := List.mem_of_find?_eq_some hfind
    have hsame : u = t := List.inj_on_of_nodup_map h hu ht (tag_of_target? hfind)
    rw [hsame]

theorem target?_eq_none_iff {word : String} : m.target? word = none ↔ word ∉ m.tags := by
  simp [target?, tags]

end Tags

section Select
variable (m : Manifest)

/-- A word that says nothing to a manifest. -/
def IsUnknown (word : String) : Prop := word ≠ allWord ∧ word ≠ headerWord ∧ word ∉ m.tags

/-- The header is asked for, but there is none. -/
def LacksHeader (words : List String) : Prop :=
  headerWord ∈ words ∧ allWord ∉ words ∧ m.decl.header = none

instance (words : List String) : Decidable (m.LacksHeader words) :=
  inferInstanceAs (Decidable (_ ∧ _))

/-- The targets that some words pick, in the order of the manifest. -/
def picked (words : List String) : List TargetDecl := m.targets.filter fun t => Picks words t.tag

/-- The header where it is declared and picked. -/
def pickedHeader (words : List String) : List Selection :=
  if m.decl.header.isSome ∧ Picks words headerWord then [.header] else []

def selection (words : List String) : List Selection :=
  (m.picked words).map (fun t => .target t.tag) ++ m.pickedHeader words

variable {m} {words others : List String}

theorem unknownWord?_eq_some_iff {w : String} :
    m.unknownWord? words = some w ↔ IsFirst m.IsUnknown w words := by
  refine (isFirst_iff_find? fun w => ?_).symm
  simp [IsUnknown, target?_eq_none_iff, and_assoc]

theorem unknownWord?_eq_none_iff :
    m.unknownWord? words = none ↔ ∀ w ∈ words, ¬ m.IsUnknown w := by
  simp [unknownWord?, IsUnknown, target?_eq_none_iff]

theorem exists_isFirst_or (m : Manifest) (words : List String) :
    (∃ w, IsFirst m.IsUnknown w words) ∨ ∀ w ∈ words, ¬ m.IsUnknown w := by
  cases h : m.unknownWord? words with
  | some w => exact .inl ⟨w, unknownWord?_eq_some_iff.mp h⟩
  | none => exact .inr (unknownWord?_eq_none_iff.mp h)

theorem select_of_unknown {w : String} (h : IsFirst m.IsUnknown w words) :
    m.select words = .error (.unknownTarget w) := by
  unfold select
  rw [unknownWord?_eq_some_iff.mpr h]
  rfl

/-- If every word is known, only the header can be missing. -/
theorem select_of_known (h : ∀ w ∈ words, ¬ m.IsUnknown w) : m.select words =
    if m.LacksHeader words then .error .noHeader else .ok (m.selection words) := by
  have hlacks : (headerWord ∈ words && !(words.isEmpty || allWord ∈ words) &&
      m.decl.header.isNone) = true ↔ m.LacksHeader words := by
    have hwords : headerWord ∈ words → words ≠ [] := List.ne_nil_of_mem
    simp only [LacksHeader, Bool.and_eq_true, Bool.not_eq_true', Bool.or_eq_false_iff,
      decide_eq_true_eq, decide_eq_false_iff_not, List.isEmpty_eq_false_iff,
      Option.isNone_iff_eq_none]
    tauto
  have hpicked : (m.tags.filter fun tag => (words.isEmpty || allWord ∈ words) || tag ∈ words) =
      (m.picked words).map TargetDecl.tag := by
    unfold picked tags
    rw [List.filter_map]
    exact congrArg _ (List.filter_congr fun t _ => (decide_picks words t.tag).symm)
  unfold select
  rw [unknownWord?_eq_none_iff.mpr h]
  by_cases hheader : m.LacksHeader words
  · rw [if_pos hheader]
    exact if_pos (hlacks.mpr hheader)
  · rw [if_neg hheader]
    refine (if_neg (mt hlacks.mp hheader)).trans ?_
    change Except.ok _ = Except.ok _
    rw [hpicked, List.map_map, ← decide_picks, selection, pickedHeader]
    simp only [Bool.and_eq_true, decide_eq_true_eq]
    rfl

theorem lacksHeader_congr (h : ∀ w, w ∈ others ↔ w ∈ words) :
    m.LacksHeader others ↔ m.LacksHeader words := by
  unfold LacksHeader
  rw [h, h]

theorem selection_congr (h : ∀ w, w ∈ others ↔ w ∈ words) :
    m.selection others = m.selection words := by
  have hpicks : ∀ word, Picks others word = Picks words word := fun word =>
    propext (picks_congr h word)
  simp only [selection, picked, pickedHeader, hpicks]

theorem nodup_selection (h : m.tags.Nodup) (words : List String) : (m.selection words).Nodup := by
  have htags : ((m.picked words).map TargetDecl.tag).Nodup :=
    h.sublist (List.filter_sublist.map TargetDecl.tag)
  have htargets : (((m.picked words).map TargetDecl.tag).map Selection.target).Nodup :=
    htags.map fun _ _ => Selection.target.inj
  have hheader : (m.pickedHeader words).Nodup := by
    unfold pickedHeader
    split_ifs
    · exact List.nodup_singleton _
    · exact List.nodup_nil
  rw [List.map_map] at htargets
  refine List.nodup_append.mpr ⟨htargets, hheader, fun a ha b hb => ?_⟩
  obtain ⟨t, -, rfl⟩ := List.mem_map.mp ha
  have hb' : b = .header := by
    unfold pickedHeader at hb
    split_ifs at hb
    · exact List.mem_singleton.mp hb
    · exact absurd hb List.not_mem_nil
  rw [hb']
  exact nofun

theorem exists_select_eq_error_iff :
    (∃ e, m.select words = .error e) ↔ (∃ w ∈ words, m.IsUnknown w) ∨ m.LacksHeader words := by
  rcases exists_isFirst_or m words with ⟨w, hw⟩ | hknown
  · exact iff_of_true ⟨_, select_of_unknown hw⟩ (.inl ⟨w, hw.mem, hw.holds⟩)
  · rw [select_of_known hknown]
    by_cases hheader : m.LacksHeader words
    · rw [if_pos hheader]
      exact iff_of_true ⟨_, rfl⟩ (.inr hheader)
    · rw [if_neg hheader]
      refine iff_of_false nofun ?_
      rintro (⟨w, hw, hunknown⟩ | hlacks)
      · exact hknown w hw hunknown
      · exact hheader hlacks

theorem eq_selection_of_select {selected : List Selection} (h : m.select words = .ok selected) :
    selected = m.selection words := by
  rcases exists_isFirst_or m words with ⟨w, hw⟩ | hknown
  · rw [select_of_unknown hw] at h
    exact nomatch h
  · rw [select_of_known hknown] at h
    split_ifs at h
    exact (Except.ok.inj h).symm

/-- Only the unknown word that is reported depends on the order of the words. -/
theorem select_congr (h : ∀ w, w ∈ others ↔ w ∈ words) : m.select others = m.select words ∨
    ∃ w ∈ words, ∃ w' ∈ others, m.IsUnknown w ∧ m.IsUnknown w' ∧
      m.select words = .error (.unknownTarget w) ∧
      m.select others = .error (.unknownTarget w') := by
  rcases exists_isFirst_or m words with ⟨w, hw⟩ | hknown
  · rcases exists_isFirst_or m others with ⟨w', hw'⟩ | hknown
    · exact .inr ⟨w, hw.mem, w', hw'.mem, hw.holds, hw'.holds, select_of_unknown hw,
        select_of_unknown hw'⟩
    · exact absurd hw.holds (hknown w ((h w).mpr hw.mem))
  · have hothers : ∀ w ∈ others, ¬ m.IsUnknown w := fun w hw => hknown w ((h w).mp hw)
    refine .inl ?_
    rw [select_of_known hothers, select_of_known hknown, selection_congr h]
    simp only [lacksHeader_congr h]

/-- A selection fails exactly if a word is unknown or asks for a header that is not declared.
Otherwise it has the targets that are picked, each once and in the order of the manifest, with the
header behind them if it is picked. Its outcome depends only on which words there are, up to the
unknown word that is reported, and what it has is found again by its tag. -/
theorem select_members {text root : String} {m : Manifest} (hm : ofText text root = .ok m)
    (words : List String) :
    ((∃ e, m.select words = .error e) ↔
      (∃ w ∈ words, m.IsUnknown w) ∨ m.LacksHeader words) ∧
    (∀ selected, m.select words = .ok selected →
      ∃ chosen : List TargetDecl, chosen.Sublist m.targets ∧
        (∀ t ∈ m.targets, t ∈ chosen ↔ Picks words t.tag) ∧
        selected = chosen.map (fun t => .target t.tag) ++ m.pickedHeader words ∧
        selected.Nodup ∧ ∀ t ∈ chosen, m.target? t.tag = some t) ∧
    ∀ others : List String, (∀ w, w ∈ others ↔ w ∈ words) →
      m.select others = m.select words ∨
        ∃ w ∈ words, ∃ w' ∈ others, m.IsUnknown w ∧ m.IsUnknown w' ∧
          m.select words = .error (.unknownTarget w) ∧
          m.select others = .error (.unknownTarget w') := by
  obtain ⟨-, -, hnodup, -⟩ := ofText_eq_ok_iff.mp hm
  refine ⟨exists_select_eq_error_iff, fun selected hok => ?_, fun others => select_congr⟩
  have hselected : selected = m.selection words := eq_selection_of_select hok
  refine ⟨m.picked words, List.filter_sublist, fun t ht => ?_, hselected, ?_, fun t ht => ?_⟩
  · rw [picked, List.mem_filter, decide_eq_true_iff, and_iff_right ht]
  · rw [hselected]
    exact nodup_selection hnodup words
  · exact target?_tag hnodup (List.mem_of_mem_filter ht)

/-- Words in another order and said again select the same, and `all` does not excuse an unknown
word. -/
theorem select_members_word_said_again :
    let first : TargetDecl := { tag := "fx16", output := "fx16.cc" }
    let second : TargetDecl := { tag := "sa8", output := "sa8.cc", deriveFrom := some "fx16" }
    let m : Manifest := ⟨"kernels",
      { group := "krn", op := .avePool, functionGroup := "pool", args := [],
        fileTemplate := "file.txt", header := some ⟨"header.txt", "POOL_H", "pool.h"⟩,
        dispatch := { hierarchy := [] }, targets := [first, second] }⟩
    ofText (ManifestDecl.encode m.decl).text "kernels" = .ok m ∧
      m.select ["header", "sa8", "header"] = .ok [.target "sa8", .header] ∧
      m.select ["sa8", "header"] = .ok [.target "sa8", .header] ∧
      m.target? "sa8" = some second ∧ ∃ e, m.select ["all", "fx8"] = .error e := by
  intro first second m
  have hread := (ManifestDecl.undoes.faithful (by decide)).read_back m.decl
  have hm : ofText (ManifestDecl.encode m.decl).text "kernels" = .ok m :=
    ofText_eq_ok_iff.mpr ⟨hread, rfl, by decide, by decide⟩
  have hselect : m.select ["header", "sa8", "header"] = .ok [.target "sa8", .header] := by decide
  obtain ⟨-, hok, hsame⟩ := select_members hm ["header", "sa8", "header"]
  obtain ⟨hfails, -, -⟩ := select_members hm ["all", "fx8"]
  have hothers : m.select ["sa8", "header"] = .ok [.target "sa8", .header] := by
    rcases hsame ["sa8", "header"] (by simp) with heq | ⟨_, _, _, _, _, _, herror, _⟩
    · exact heq.trans hselect
    · exact nomatch herror.symm.trans hselect
  obtain ⟨chosen, -, hchosen, -, -, htags⟩ := hok _ hselect
  have hsecond : second ∈ chosen := (hchosen second (by decide)).mpr (by decide)
  have hunknown : m.IsUnknown "fx8" := ⟨by decide, by decide, by decide⟩
  exact ⟨hm, hselect, hothers, htags second hsecond, hfails.mpr (.inl ⟨"fx8", by simp, hunknown⟩)⟩

end Select
end Manifest
end KernelDispatch
