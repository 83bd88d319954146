import KernelDispatch.Files.Path
import Mathlib

/-! Where the segments of a path lead to, and where those of the directories above it do. -/
namespace KernelDispatch.Path

/-- The names that segments lead to from a directory, whatever is there. -/
def walk : List String → List String → List String
  | names, [] => names
  | names, s :: rest =>
    if isIdle s then walk names rest
    else if s == ".." then walk names.dropLast rest
    else walk (names ++ [s]) rest

theorem walk_append (names before after : List String) :
    walk names (before ++ after) = walk (walk names before) after := by
  induction before generalizing names with
  | nil => rfl
  | cons s rest ih =>
    rw [List.cons_append, walk, walk]
    split_ifs <;> exact ih _

theorem walk_of_idle {segments : List String} (h : ∀ s ∈ segments, isIdle s = true)
    (names : List String) : walk names segments = names := by
  induction segments with
  | nil => rfl
  | cons s rest ih =>
    rw [List.forall_mem_cons] at h
    rw [walk, if_pos h.1, ih h.2]

theorem splitSlashes_ne_nil (cs : List Char) : splitSlashes cs ≠ [] := by
  fun_cases splitSlashes cs <;> simp

theorem splitSlashes_of_not_mem {w : List Char} (h : '/' ∉ w) : splitSlashes w = [w] := by
  induction w with
  | nil => rfl
  | cons c w ih =>
    rw [List.mem_cons, not_or] at h
    rw [splitSlashes, ih h.2]
    exact Ne.symm h.1

theorem splitSlashes_append {w : List Char} (h : '/' ∉ w) (rest : List Char) :
    splitSlashes (w ++ '/' :: rest) = w :: splitSlashes rest := by
  induction w with
  | nil => rfl
  | cons c w ih =>
    rw [List.mem_cons, not_or] at h
    rw [List.cons_append, splitSlashes, ih h.2]
    exact Ne.symm h.1

theorem not_mem_of_mem_splitSlashes {cs w : List Char} (h : w ∈ splitSlashes cs) : '/' ∉ w := by
  fun_induction splitSlashes cs generalizing w with
  | case1 =>
    rw [List.mem_singleton.mp h]
    exact List.not_mem_nil
  | case2 rest ih =>
    rcases List.mem_cons.mp h with rfl | h
    · exact List.not_mem_nil
    · exact ih h
  | case3 c rest hc hs ih => exact absurd hs (splitSlashes_ne_nil rest)
  | case4 c rest hc s ss hs ih =>
    rw [hs] at ih
    rcases List.mem_cons.mp h with rfl | h
    · rw [List.mem_cons, not_or]
      exact ⟨fun heq => hc heq.symm, ih List.mem_cons_self⟩
    · exact ih (List.mem_cons_of_mem _ h)

theorem not_mem_of_mem_segments {path s : String} (h : s ∈ segments path) : '/' ∉ s.toList := by
  obtain ⟨w, hw, rfl⟩ := List.mem_map.mp h
  rw [String.toList_ofList]
  exact not_mem_of_mem_splitSlashes hw

/-- Segments that are written with slashes between them are read back. -/
theorem segments_intercalate {ss : List String} (hne : ss ≠ []) (h : ∀ s ∈ ss, '/' ∉ s.toList) :
    segments ("/".intercalate ss) = ss := by
  induction ss with
  | nil => exact absurd rfl hne
  | cons s rest ih =>
    rw [List.forall_mem_cons] at h
    cases rest with
    | nil =>
      rw [String.intercalate_singleton, segments, splitSlashes_of_not_mem h.1]
      simp
    | cons t rest =>
      have hrest := ih (List.cons_ne_nil t rest) h.2
      rw [segments] at hrest
      have htext : ("/".intercalate (s :: t :: rest)).toList =
          s.toList ++ '/' :: ("/".intercalate (t :: rest)).toList := by
        rw [String.intercalate_cons_cons, String.toList_append, String.toList_append,
          List.append_assoc]
        rfl
      rw [segments, htext, splitSlashes_append h.1, List.map_cons, hrest, String.ofList_toList]

/-- A path is absolute if its first segment is empty and not its only one. -/
theorem isAbsolute_iff {path : String} :
    isAbsolute path = true ↔ ∃ s rest, segments path = "" :: s :: rest := by
  rw [isAbsolute, segments]
  cases path.toList with
  | nil => exact iff_of_false (by decide) (by simp [splitSlashes])
  | cons c rest =>
    obtain ⟨w, ws, hws⟩ := List.exists_cons_of_ne_nil (splitSlashes_ne_nil rest)
    by_cases hc : c = '/'
    · refine iff_of_true (by simp [hc]) ⟨.ofList w, ws.map .ofList, ?_⟩
      rw [hc, splitSlashes, hws]
      rfl
    · refine iff_of_false (by simp [hc]) ?_
      rintro ⟨s, others, h⟩
      rw [splitSlashes.eq_3 _ _ (by simpa using hc), hws] at h
      have hfirst := congrArg String.toList (List.cons.inj h).1
      simp at hfirst

theorem isAbsolute_of_segments {path s : String} {rest : List String}
    (h : segments path = s :: rest) (hs : s ≠ "") : isAbsolute path = false := by
  rw [Bool.eq_false_iff, Ne, isAbsolute_iff, h]
  rintro ⟨_, _, heq⟩
  exact hs (List.cons.inj heq).1

/-- The last segment that names something is not kept above a path. -/
theorem exists_behind_kept {body : List String} (h : dropIdleEnd body ≠ []) :
    ∃ tail, body = dropIdleEnd (dropIdleEnd body).dropLast ++ tail ∧
      ∃ s ∈ tail, isIdle s = false := by
  obtain ⟨behind, hbehind⟩ := List.rdropWhile_prefix isIdle body
  obtain ⟨between, hbetween⟩ := List.rdropWhile_prefix isIdle (dropIdleEnd body).dropLast
  have hlast : isIdle ((dropIdleEnd body).getLast h) = false :=
    Bool.eq_false_iff.mpr (List.rdropWhile_last_not isIdle body h)
  refine ⟨between ++ [(dropIdleEnd body).getLast h] ++ behind, ?_,
    (dropIdleEnd body).getLast h, by simp, hlast⟩
  calc body = dropIdleEnd body ++ behind := hbehind.symm
    _ = (dropIdleEnd body).dropLast ++ [(dropIdleEnd body).getLast h] ++ behind := by
      rw [List.dropLast_append_getLast]
    _ = dropIdleEnd (dropIdleEnd body).dropLast ++
        (between ++ [(dropIdleEnd body).getLast h] ++ behind) := by
      rw [← List.append_assoc, ← List.append_assoc]
      exact congrArg (· ++ _ ++ behind) hbetween.symm

/-- The segments that are kept above a path with some segments. -/
def keptAbove (body : List String) : List String := dropIdleEnd (dropIdleEnd body).dropLast

theorem eq_text_of_below (lead : String) {above : String} {body : List String}
    (text : List String → String)
    (h : (match dropIdleEnd body with
      | [] => if lead == "." then some "" else none
      | named => some (text (dropIdleEnd named.dropLast))) = some above) (hne : above ≠ "") :
    dropIdleEnd body ≠ [] ∧ above = text (keptAbove body) := by
  unfold keptAbove
  cases hnamed : dropIdleEnd body with
  | nil =>
    rw [hnamed] at h
    dsimp only at h
    split at h
    · exact absurd (Option.some.inj h).symm hne
    · exact nomatch h
  | cons s rest =>
    rw [hnamed] at h
    exact ⟨List.cons_ne_nil s rest, (Option.some.inj h).symm⟩

/-- The directory above a path is written with the first segments of the path. Behind those a
segment of the path names something. -/
theorem parent?_eq_some {path above : String} (h : parent? path = some above) (hne : above ≠ "") :
    ∃ kept tail, segments path = kept ++ tail ∧ (∃ s ∈ tail, isIdle s = false) ∧
      isAbsolute above = isAbsolute path ∧
      (segments above = kept ∨ kept = [""] ∧ segments above = ["", ""]) := by
  have hfree : ∀ {kept tail : List String}, segments path = kept ++ tail → ∀ s ∈ kept,
      '/' ∉ s.toList := by
    intro kept tail heq s hs
    exact not_mem_of_mem_segments (heq ▸ List.mem_append_left tail hs)
  unfold parent? at h
  dsimp only at h
  split at h
  · next body hpath =>
    obtain ⟨hnamed, habove⟩ :=
      eq_text_of_below "/" (fun kept => "/" ++ "/".intercalate kept) h hne
    obtain ⟨tail, hbody, hnames⟩ := exists_behind_kept hnamed
    have hsplit : segments path = ("" :: keptAbove body) ++ tail := by
      rw [hpath, List.cons_append]
      exact congrArg ("" :: ·) hbody
    have habsolute : isAbsolute path = true := by
      have hbody : body ≠ [] := fun hnil => hnamed (by rw [hnil]; rfl)
      obtain ⟨s, rest, hrest⟩ := List.exists_cons_of_ne_nil hbody
      exact isAbsolute_iff.mpr ⟨s, rest, hrest ▸ hpath⟩
    refine ⟨"" :: keptAbove body, tail, hsplit, hnames, ?_⟩
    cases hkept : keptAbove body with
    | nil =>
      -- the root is written with one slash, which makes two empty segments
      have hroot : above = "/" := by rw [habove, hkept]; rfl
      rw [habsolute, hroot]
      exact ⟨by decide, .inr ⟨rfl, by decide⟩⟩
    | cons s rest =>
      have hsegments : segments above = "" :: s :: rest := by
        have htext : above = "/".intercalate ("" :: s :: rest) := by
          rw [habove, hkept, String.intercalate_cons_cons, String.empty_append]
        rw [htext]
        exact segments_intercalate (List.cons_ne_nil _ _) (hkept ▸ hfree hsplit)
      rw [habsolute]
      exact ⟨isAbsolute_iff.mpr ⟨s, rest, hsegments⟩, .inl hsegments⟩
  · next body hpath =>
    obtain ⟨hnamed, habove⟩ :=
      eq_text_of_below "." (fun kept => "/".intercalate ("." :: kept)) h hne
    obtain ⟨tail, hbody, hnames⟩ := exists_behind_kept hnamed
    have hsplit : segments path = ("." :: keptAbove body) ++ tail := by
      rw [hpath, List.cons_append]
      exact congrArg ("." :: ·) hbody
    have hsegments : segments above = "." :: keptAbove body := by
      rw [habove]
      exact segments_intercalate (List.cons_ne_nil _ _) (hfree hsplit)
    refine ⟨"." :: keptAbove body, tail, hsplit, hnames, ?_, .inl hsegments⟩
    rw [isAbsolute_of_segments hsegments (by decide), isAbsolute_of_segments hpath (by decide)]
  · next body hroot hdot =>
    obtain ⟨hnamed, habove⟩ := eq_text_of_below "" (fun kept => "/".intercalate kept) h hne
    obtain ⟨tail, hbody, hnames⟩ := exists_behind_kept hnamed
    change segments path = keptAbove (segments path) ++ tail at hbody
    cases hkept : keptAbove (segments path) with
    | nil => exact absurd (habove.trans (hkept ▸ rfl)) hne
    | cons s rest =>
      rw [hkept] at hbody habove
      have hs : s ≠ "" := fun hempty => hroot (rest ++ tail) (hempty ▸ hbody)
      have hsegments : segments above = s :: rest := by
        rw [habove]
        exact segments_intercalate (List.cons_ne_nil _ _) (hfree hbody)
      refine ⟨s :: rest, tail, hbody, hnames, ?_, .inl hsegments⟩
      rw [isAbsolute_of_segments hsegments hs, isAbsolute_of_segments hbody hs]

end KernelDispatch.Path
