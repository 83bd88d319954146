import KernelDispatch.Files.FileSystem
import KernelDispatch.Proofs.Files.Parents

/-! What working with files changes, and at which of the places that a path leads to by its text. -/
namespace KernelDispatch.FileSystem

/-- Where a path leads to, whatever is there. -/
def place (fs : FileSystem) (path : String) : List String :=
  Path.walk (fs.start path) (Path.segments path)

/-- A place that a path leads to or passes on its way. -/
def Passes (fs : FileSystem) (path : String) (names : List String) : Prop :=
  ∃ before rest, Path.segments path = before ++ rest ∧ names = Path.walk (fs.start path) before

/-- A place that a path passes before its last name. -/
def Above (fs : FileSystem) (path : String) (names : List String) : Prop :=
  ∃ before rest, Path.segments path = before ++ rest ∧ (∃ s ∈ rest, Path.isIdle s = false) ∧
    names = Path.walk (fs.start path) before

theorem passes_place (fs : FileSystem) (path : String) : fs.Passes path (fs.place path) :=
  ⟨Path.segments path, [], (List.append_nil _).symm, rfl⟩

theorem Above.passes {fs : FileSystem} {path : String} {names : List String}
    (h : fs.Above path names) : fs.Passes path names := by
  obtain ⟨before, rest, hsegments, -, hnames⟩ := h
  exact ⟨before, rest, hsegments, hnames⟩

/-- What the directory above a path passes is above the path. -/
theorem Passes.above {fs : FileSystem} {path above : String} {names : List String}
    (hparent : Path.parent? path = some above) (hne : above ≠ "") (h : fs.Passes above names) :
    fs.Above path names := by
  obtain ⟨kept, tail, hsplit, ⟨s, hs, hnamed⟩, habsolute, hsegments⟩ :=
    Path.parent?_eq_some hparent hne
  obtain ⟨before, rest, hbefore, rfl⟩ := h
  have hstart : fs.start above = fs.start path := by rw [start, start, habsolute]
  rw [hstart]
  rcases hsegments with hkept | ⟨rfl, hroot⟩
  · refine ⟨before, rest ++ tail, ?_, ⟨s, List.mem_append_right rest hs, hnamed⟩, rfl⟩
    rw [hsplit, ← hkept, hbefore, List.append_assoc]
  · have hidle : ∀ t ∈ before, Path.isIdle t = true := by
      intro t ht
      have hmem : t ∈ ["", ""] := hroot ▸ hbefore ▸ List.mem_append_left rest ht
      rcases List.mem_pair.mp hmem with rfl | rfl <;> rfl
    refine ⟨[], Path.segments path, rfl, ⟨s, hsplit ▸ List.mem_append_right _ hs, hnamed⟩, ?_⟩
    rw [Path.walk_of_idle hidle, Path.walk]

end KernelDispatch.FileSystem

namespace KernelDispatch

def Place.names : Place → List String
  | .directory names => names
  | .file names _ => names

namespace FileSystem

/-- Following segments never leads elsewhere than the segments say. -/
theorem names_of_follow {fs : FileSystem} {segments : List String} :
    ∀ {dir : List String} {p : Place}, fs.follow dir segments = .ok p →
      p.names = Path.walk dir segments := by
  induction segments with
  | nil =>
    intro dir p h
    exact Except.ok.inj h ▸ rfl
  | cons s rest ih =>
    intro dir p h
    rw [follow] at h
    rw [Path.walk]
    by_cases hidle : Path.isIdle s = true
    · rw [if_pos hidle] at h ⊢
      exact ih h
    rw [if_neg hidle] at h ⊢
    by_cases hup : (s == "..") = true
    · rw [if_pos hup] at h ⊢
      exact ih h
    rw [if_neg hup] at h ⊢
    split at h
    · cases h
    · split at h
      · cases h
      · exact ih h
      · split at h
        · next hrest =>
          rw [hrest, ← Except.ok.inj h]
          rfl
        · cases h

theorem segments_eq_ok {path : String} {ss : List String} (h : segments path = .ok ss) :
    ss = Path.segments path := by
  unfold segments at h
  split_ifs at h
  exact (Except.ok.inj h).symm

/-- What stands behind the last segment that is not empty. -/
theorem exists_blanks_of_dropWhile {ss before : List String} {s : String}
    (h : ss.reverse.dropWhile (· == "") = s :: before) :
    s ≠ "" ∧ ∃ blanks, (∀ t ∈ blanks, Path.isIdle t = true) ∧
      ss = before.reverse ++ s :: blanks := by
  have hs := List.head?_dropWhile_not (· == "") ss.reverse
  rw [h] at hs
  refine ⟨by simpa using hs, (ss.reverse.takeWhile (· == "")).reverse, ?_, ?_⟩
  · intro t ht
    have hblank := List.mem_takeWhile_imp (List.mem_reverse.mp ht)
    rw [eq_of_beq hblank]
    rfl
  · calc ss = (ss.reverse.takeWhile (· == "") ++ ss.reverse.dropWhile (· == "")).reverse := by
          rw [List.takeWhile_append_dropWhile, List.reverse_reverse]
      _ = before.reverse ++ s :: (ss.reverse.takeWhile (· == "")).reverse := by
          rw [h, List.reverse_append, List.reverse_cons, List.append_assoc, List.singleton_append]

/-- The names under which the last segment of a path is found are those that its text tells. -/
theorem place_of_lastNames {fs : FileSystem} {path : String} {names : List String}
    (h : fs.lastNames path = .ok (some names)) : names = fs.place path ∧ names ≠ [] := by
  unfold lastNames at h
  cases hsegments : segments path with
  | error e =>
    rw [hsegments] at h
    cases h
  | ok ss =>
    rw [hsegments] at h
    dsimp only [Bind.bind, Except.bind] at h
    cases hlast : ss.reverse.dropWhile (· == "") with
    | nil =>
      rw [hlast] at h
      cases h
    | cons s before =>
      rw [hlast] at h
      dsimp only at h
      obtain rfl := segments_eq_ok hsegments
      obtain ⟨hs, blanks, hblanks, hsplit⟩ := exists_blanks_of_dropWhile hlast
      cases hfollow : fs.follow (fs.start path) before.reverse with
      | error e =>
        rw [hfollow] at h
        cases h
      | ok p =>
        rw [hfollow] at h
        cases p with
        | file _ _ => cases h
        | directory dir =>
          have hdir : dir = Path.walk (fs.start path) before.reverse := names_of_follow hfollow
          change Except.ok (if s == "." || s == ".." then none else some (dir ++ [s])) = _ at h
          have h := Except.ok.inj h
          split_ifs at h with hdots
          obtain rfl := Option.some.inj h
          rw [Bool.or_eq_true, not_or] at hdots
          have hidle : ¬ Path.isIdle s = true := by
            rw [Path.isIdle, Bool.or_eq_true, not_or]
            exact ⟨by simpa using hs, hdots.1⟩
          refine ⟨?_, by simp⟩
          rw [place, hsplit, Path.walk_append, Path.walk, if_neg hidle, if_neg hdots.2, hdir,
            Path.walk_of_idle hblanks]

@[simp] theorem home_set (fs : FileSystem) (names : List String) (e : FileEntry) :
    (fs.set names e).home = fs.home := rfl

theorem lookup_filter_ne {names other : List String} (h : other ≠ names)
    (entries : List (List String × FileEntry)) :
    (entries.filter fun p => p.1 != names).lookup other = entries.lookup other := by
  induction entries with
  | nil => rfl
  | cons p rest ih =>
    by_cases hp : p.1 = names
    · have hother : (other == p.1) = false := beq_eq_false_iff_ne.mpr (hp ▸ h)
      rw [List.filter_cons_of_neg (by simpa using hp), ih, List.lookup_cons, hother]
    · rw [List.filter_cons_of_pos (by simpa using hp), List.lookup_cons, List.lookup_cons, ih]

theorem get?_set {names : List String} (h : names ≠ []) (fs : FileSystem) (e : FileEntry)
    (other : List String) :
    (fs.set names e).get? other = if other = names then some e else fs.get? other := by
  unfold get?
  by_cases hroot : other = []
  · rw [if_pos hroot, if_pos hroot, if_neg (hroot ▸ h.symm)]
  · rw [if_neg hroot, if_neg hroot]
    by_cases hsame : other = names
    · rw [if_pos hsame, hsame]
      exact List.lookup_cons_self
    · rw [if_neg hsame, set, List.lookup_cons, beq_eq_false_iff_ne.mpr hsame]
      exact lookup_filter_ne hsame fs.entries

/-- What is created at the end of a path is created at the place of the path. -/
theorem eq_ok_of_bind_lastNames {fs fs' : FileSystem} {path : String}
    {f : Option (List String) → Except FileError FileSystem}
    (h : (fs.lastNames path).bind f = .ok fs') (hnone : f none ≠ .ok fs') :
    fs.place path ≠ [] ∧ f (some (fs.place path)) = .ok fs' := by
  cases hlast : fs.lastNames path with
  | error e =>
    rw [hlast] at h
    exact nomatch h
  | ok found =>
    rw [hlast] at h
    cases found with
    | none => exact absurd h hnone
    | some names =>
      obtain ⟨rfl, hne⟩ := place_of_lastNames hlast
      exact ⟨hne, h⟩

theorem eq_ok_of_bind_entry? {fs fs' : FileSystem} {names : List String}
    {f : Option FileEntry → Except FileError FileSystem}
    (h : (fs.entry? names).bind f = .ok fs') : f (fs.get? names) = .ok fs' := by
  unfold entry? at h
  split_ifs at h
  · exact nomatch h
  · exact h

theorem writeText_eq_ok {fs fs' : FileSystem} {path text : String}
    (h : fs.writeText path text = .ok fs') :
    fs.place path ≠ [] ∧ fs' = fs.set (fs.place path) (.file (.text text)) := by
  obtain ⟨hne, h⟩ := eq_ok_of_bind_lastNames h nofun
  refine ⟨hne, ?_⟩
  dsimp only at h
  split at h
  · exact nomatch h
  · have hwrite := eq_ok_of_bind_entry? h
    split at hwrite
    · exact nomatch hwrite
    · exact (Except.ok.inj hwrite).symm

theorem makeDirectory_eq_ok {fs fs' : FileSystem} {path : String}
    (h : fs.makeDirectory path = .ok fs') :
    fs.place path ≠ [] ∧ fs.get? (fs.place path) = none ∧
      fs' = fs.set (fs.place path) .directory := by
  obtain ⟨hne, h⟩ := eq_ok_of_bind_lastNames h nofun
  have hmake := eq_ok_of_bind_entry? h
  split at hmake
  · exact nomatch hmake
  · next hfree =>
    exact ⟨hne, by simpa using hfree, (Except.ok.inj hmake).symm⟩

/-- Directories were added at some places where nothing was. -/
structure Gains (made : List String → Prop) (fs fs' : FileSystem) : Prop where
  home : fs'.home = fs.home
  entry : ∀ names, fs'.get? names = fs.get? names ∨
    made names ∧ fs.get? names = none ∧ fs'.get? names = some .directory

namespace Gains
variable {made made' : List String → Prop} {fs fs' fs'' : FileSystem}

theorem refl (made : List String → Prop) (fs : FileSystem) : Gains made fs fs :=
  ⟨rfl, fun _ => .inl rfl⟩

theorem trans (h : Gains made fs fs') (h' : Gains made fs' fs'') : Gains made fs fs'' := by
  refine ⟨h'.home.trans h.home, fun names => ?_⟩
  rcases h.entry names with hsame | ⟨hmade, hnone, hsome⟩
  · rw [← hsame]
    exact h'.entry names
  · rcases h'.entry names with hsame' | ⟨-, hnone', -⟩
    · exact .inr ⟨hmade, hnone, hsame'.trans hsome⟩
    · exact nomatch hsome.symm.trans hnone'

theorem mono (h : Gains made fs fs') (hmade : ∀ names, made names → made' names) :
    Gains made' fs fs' :=
  ⟨h.home, fun names => (h.entry names).imp_right (And.imp_left (hmade names))⟩

theorem start_eq (h : Gains made fs fs') (path : String) : fs'.start path = fs.start path := by
  rw [start, start, h.home]

end Gains

theorem gains_makeDirectory {fs fs' : FileSystem} {path : String}
    (h : fs.makeDirectory path = .ok fs') : Gains (fs.Passes path) fs fs' := by
  obtain ⟨hne, hfree, rfl⟩ := makeDirectory_eq_ok h
  refine ⟨home_set .., fun names => ?_⟩
  rw [get?_set hne]
  split_ifs with hsame
  · rw [hsame]
    exact .inr ⟨fs.passes_place path, hfree, rfl⟩
  · exact .inl rfl

@[simp] theorem makeDirectories_go_empty (fuel : Nat) (fs : FileSystem) :
    makeDirectories.go fuel fs "" = (fs, .ok ()) := by
  cases fuel <;> rfl

theorem gains_makeDirectories_go (fuel : Nat) (fs : FileSystem) (path : String) :
    Gains (fs.Passes path) fs (makeDirectories.go fuel fs path).1 := by
  induction fuel generalizing fs path with
  | zero => exact .refl _ fs
  | succ fuel ih =>
    rw [makeDirectories.go]
    split
    · exact .refl _ fs
    · split
      · next fs' hmake => exact gains_makeDirectory hmake
      · next above hmissing hparent =>
        have habove : Gains (fs.Passes path) fs (makeDirectories.go fuel fs above).1 := by
          -- above a single name is the empty path, for which nothing is made
          by_cases hempty : above = ""
          · rw [hempty, makeDirectories_go_empty]
            exact .refl _ fs
          · exact (ih fs above).mono fun names h => (h.above hparent hempty).passes
        cases hgo : makeDirectories.go fuel fs above with
        | mk between r =>
          rw [hgo] at habove
          cases r with
          | error e => exact habove
          | ok u =>
            dsimp only
            split
            · next fs' hmake =>
              refine habove.trans ((gains_makeDirectory hmake).mono ?_)
              rintro names ⟨before, rest, hsegments, rfl⟩
              rw [habove.start_eq]
              exact ⟨before, rest, hsegments, rfl⟩
            · exact habove
      · exact .refl _ fs

/-- Making directories adds directories that the path passes. -/
theorem gains_makeDirectories (fs : FileSystem) (path : String) :
    Gains (fs.Passes path) fs (fs.makeDirectories path).1 :=
  gains_makeDirectories_go path.length fs path

end FileSystem
end KernelDispatch
