import KernelDispatch.Proofs.Files.Place
import KernelDispatch.Proofs.Run.KeepGoing
import KernelDispatch.Proofs.Run.Quiet

/-! What a run does to the files: which of them it writes, and what is left as it was. -/
namespace KernelDispatch

theorem Script.result_run_bind_eq_ok_iff {α β : Type} {s : Script α} {f : α → Script β}
    {fs : FileSystem} {b : β} :
    ((s >>= f).run fs).result = .ok b ↔
      ∃ a, (s.run fs).result = .ok a ∧ ((f a).run (s.run fs).files).result = .ok b := by
  rw [run_bind]
  cases (s.run fs).result with
  | error e => exact iff_of_false nofun fun ⟨_, ha, _⟩ => nomatch ha
  | ok a => exact ⟨fun h => ⟨a, rfl, h⟩, fun ⟨_, ha, h⟩ => Except.ok.inj ha ▸ h⟩

/-- Some artifacts were written in order, and directories were added at some places where nothing
was. The last artifact at a place counts. -/
structure Touches (written : List Artifact) (made : List String → Prop) (fs fs' : FileSystem) :
    Prop where
  home : fs'.home = fs.home
  entry : ∀ names, match written.reverse.find? fun x => fs.place x.output = names with
    | some x => fs'.get? names = some (.file (.text x.rendered.text))
    | none => fs'.get? names = fs.get? names ∨
        made names ∧ fs.get? names = none ∧ fs'.get? names = some .directory

namespace Touches
variable {written written' : List Artifact} {made made' : List String → Prop}
  {fs fs' fs'' : FileSystem}

theorem of_gains (h : FileSystem.Gains made fs fs') : Touches [] made fs fs' := ⟨h.home, h.entry⟩

theorem mono (h : Touches written made fs fs') (hmade : ∀ names, made names → made' names) :
    Touches written made' fs fs' := by
  refine ⟨h.home, fun names => ?_⟩
  have hentry := h.entry names
  split at hentry
  · exact hentry
  · exact hentry.imp_right (And.imp_left (hmade names))

theorem place_eq (h : Touches written made fs fs') (path : String) :
    fs'.place path = fs.place path := by
  rw [FileSystem.place, FileSystem.place, FileSystem.start, FileSystem.start, h.home]

theorem above_iff (h : Touches written made fs fs') (path : String) (names : List String) :
    fs'.Above path names ↔ fs.Above path names := by
  rw [FileSystem.Above, FileSystem.Above, FileSystem.start, FileSystem.start, h.home]

theorem trans (h : Touches written made fs fs') (h' : Touches written' made fs' fs'') :
    Touches (written ++ written') made fs fs'' := by
  refine ⟨h'.home.trans h.home, fun names => ?_⟩
  have hfirst := h.entry names
  have hsecond := h'.entry names
  simp only [h.place_eq] at hsecond
  rw [List.reverse_append, List.find?_append]
  cases hlast : written'.reverse.find? fun x => fs.place x.output = names with
  | some x =>
    rw [hlast] at hsecond
    exact hsecond
  | none =>
    -- what the second part leaves is told by the first, as no directory replaces an entry
    rw [hlast] at hsecond
    rw [Option.none_or]
    cases hbefore : written.reverse.find? fun x => fs.place x.output = names with
    | some x =>
      rw [hbefore] at hfirst
      rcases hsecond with hsame | ⟨-, hnone, -⟩
      · exact hsame.trans hfirst
      · exact nomatch hfirst.symm.trans hnone
    | none =>
      rw [hbefore] at hfirst
      rcases hsecond with hsame | ⟨hmade, hnone, hsome⟩
      · rw [hsame]
        exact hfirst
      · rcases hfirst with hsame | ⟨-, -, hdirectory⟩
        · exact .inr ⟨hmade, hsame ▸ hnone, hsome⟩
        · exact nomatch hdirectory.symm.trans hnone

theorem set {x : Artifact} (h : fs.place x.output ≠ []) :
    Touches [x] made fs (fs.set (fs.place x.output) (.file (.text x.rendered.text))) := by
  refine ⟨rfl, fun names => ?_⟩
  rw [FileSystem.get?_set h]
  by_cases hsame : fs.place x.output = names
  · simp [hsame]
  · have hother : names ≠ fs.place x.output := fun heq => hsame heq.symm
    simp [hsame, hother]

end Touches

namespace Artifact

theorem gains_makeParent (path : String) (fs : FileSystem) :
    FileSystem.Gains (fs.Above path) fs ((makeParent path).run fs).files := by
  unfold makeParent
  split
  · exact .refl _ fs
  · exact .refl _ fs
  · next above hempty hparent =>
    have hdirectories : ((Script.makeDirectories above (Script.settled (.creating above))).run
        fs).files = (fs.makeDirectories above).1 :=
      (Script.quiet_ofExcept _).files _
    rw [hdirectories]
    exact (fs.gains_makeDirectories above).mono fun names h => h.above hparent hempty

/-- Writing an artifact puts its whole text at its place, or fails and puts nothing there. -/
theorem touches_write (a : Artifact) (fs : FileSystem) :
    Touches (if (a.write.run fs).result.isOk then [a] else []) (fs.Above a.output) fs
      (a.write.run fs).files := by
  have hparent := Touches.of_gains (gains_makeParent a.output fs)
  unfold write
  rw [Script.run_bind]
  cases hmade : ((makeParent a.output).run fs).result with
  | error e => exact hparent
  | ok u =>
    dsimp only
    rw [Script.run]
    cases hwrite : ((makeParent a.output).run fs).files.writeText a.output a.rendered.text with
    | error e => exact hparent
    | ok fs' =>
      obtain ⟨hne, rfl⟩ := FileSystem.writeText_eq_ok hwrite
      exact hparent.trans (Touches.set hne)

end Artifact

namespace Attempt

/-- The artifact of an attempt if it is rendered with the files that the attempt starts with. -/
def rendered? (m : Manifest) (a : Attempt) : Option Artifact :=
  ((m.render a.selection).run a.start).result.toOption

/-- The artifact of an attempt if it is rendered and written. -/
def written? (o : Options) (m : Manifest) (a : Attempt) : Option Artifact :=
  (a.rendered? m).filter fun artifact => !o.dryRun && (artifact.write.run a.start).result.isOk

end Attempt

namespace CommandLine

/-- The generation of an artifact: it is rendered, told of, and written unless that is left out. -/
theorem run_generate (o : Options) (m : Manifest) (total index : Nat) (s : Selection)
    (fs : FileSystem) :
    (generate o m total index s).run fs =
      match ((m.render s).run fs).result with
      | .error e => ⟨.error e, ((m.render s).run fs).entries, fs⟩
      | .ok a =>
        let w := if o.dryRun then
            ⟨.ok (), [⟨.trace, "dry run, " ++ a.output ++ " not written"⟩], fs⟩
          else a.write.run fs
        ⟨w.result, ((m.render s).run fs).entries ++
          (⟨.progress, "[" ++ toString index ++ "/" ++ toString total ++ "] -- generating " ++
            a.label ++ " -> " ++ a.output⟩ ::
          (a.rendered.findings.map fun f => ⟨.diagnostic, a.label ++ ": " ++ f.message⟩) ++
          w.entries), w.files⟩ := by
  have hfiles := (m.quiet_render s).files fs
  rw [generate, Script.run_bind, hfiles]
  cases ((m.render s).run fs).result with
  | error e => rfl
  | ok a =>
    have hreport : ∀ kind text, (Script.report kind text).run fs = ⟨.ok (), [⟨kind, text⟩], fs⟩ :=
      fun _ _ => rfl
    simp only [Script.run_bind, hreport, run_reportAll]
    cases o.dryRun with
    | true => simp [hreport]
    | false => simp

/-- An attempt writes its artifact or writes nothing, and a directory that it adds is above the
output of an artifact that it rendered. -/
theorem touches_attempt (o : Options) (m : Manifest) (total index : Nat) (s : Selection)
    (fs : FileSystem) :
    let a := attempt o m total index fs s
    Touches (a.written? o m).toList
      (fun names => ∃ x, a.rendered? m = some x ∧ fs.Above x.output names) fs a.outcome.files := by
  intro a
  have hrun : a.outcome = (generate o m total index s).run fs := rfl
  rw [run_generate] at hrun
  have hrendered : a.rendered? m = ((m.render s).run fs).result.toOption := rfl
  rw [hrun, Attempt.written?, hrendered]
  cases ((m.render s).run fs).result with
  | error e => exact .of_gains (.refl _ fs)
  | ok x =>
    cases o.dryRun with
    | true => exact .of_gains (.refl _ fs)
    | false =>
      have hwrite := (x.touches_write fs).mono fun names h =>
        (⟨x, rfl, h⟩ : ∃ y, some x = some y ∧ fs.Above y.output names)
      have hwritten : ((some x).filter fun y => !false && (y.write.run fs).result.isOk).toList =
          if (x.write.run fs).result.isOk then [x] else [] := by
        rw [Option.filter_some]
        cases (x.write.run fs).result.isOk <;> rfl
      rw [← hwritten] at hwrite
      exact hwrite

/-- A run of attempts touches what its attempts touch. -/
theorem touches_attempts (o : Options) (m : Manifest) (total index : Nat) (fs : FileSystem)
    (selected : List Selection) :
    let as := performed o (attempts o m total index fs selected)
    Touches (as.filterMap (Attempt.written? o m))
      (fun names => ∃ a ∈ as, ∃ x, a.rendered? m = some x ∧ fs.Above x.output names) fs
      (Attempt.filesAfter fs as) := by
  refine performed_attempts_induction (P := fun _ fs as =>
    Touches (as.filterMap (Attempt.written? o m))
      (fun names => ∃ a ∈ as, ∃ x, a.rendered? m = some x ∧ fs.Above x.output names) fs
      (Attempt.filesAfter fs as)) ?_ ?_ index fs selected
  · intro index fs
    exact .of_gains (.refl _ fs)
  · intro index fs s tail htail
    have hhead := touches_attempt o m total index s fs
    rw [List.filterMap_eq_flatMap_toList, List.flatMap_cons, ← List.filterMap_eq_flatMap_toList]
    refine Touches.trans (hhead.mono ?_) (htail.mono ?_)
    · rintro names ⟨x, hx, hnames⟩
      exact ⟨_, List.mem_cons_self, x, hx, hnames⟩
    · rintro names ⟨a, ha, x, hx, hnames⟩
      exact ⟨a, List.mem_cons_of_mem _ ha, x, hx, (hhead.above_iff ..).mp hnames⟩

theorem quiet_prepare (o : Options) : (prepare o).Quiet :=
  (Manifest.quiet_load o.manifest).bind fun _ => (Script.quiet_report .trace _ nofun).bind fun _ =>
    (Script.quiet_ofExcept _).bind fun _ => Script.quiet_pure _

/-- A run comes to its attempts if the manifest is loaded and the selection accepted. -/
theorem result_prepare_eq_ok_iff {o : Options} {fs : FileSystem} {m : Manifest}
    {selected : List Selection} :
    ((prepare o).run fs).result = .ok (m, selected) ↔
      ((Manifest.load o.manifest).run fs).result = .ok m ∧ m.select o.words = .ok selected := by
  unfold prepare
  constructor
  · intro h
    obtain ⟨m', hload, h⟩ := Script.result_run_bind_eq_ok_iff.mp h
    obtain ⟨_, -, h⟩ := Script.result_run_bind_eq_ok_iff.mp h
    obtain ⟨chosen, hchosen, h⟩ := Script.result_run_bind_eq_ok_iff.mp h
    obtain ⟨rfl, rfl⟩ := Prod.mk.inj (Except.ok.inj h)
    refine ⟨hload, ?_⟩
    cases hselect : m'.select o.words with
    | error e =>
      rw [hselect] at hchosen
      exact nomatch hchosen
    | ok _ =>
      rw [hselect] at hchosen
      exact congrArg Except.ok (Except.ok.inj hchosen)
  · rintro ⟨hload, hselect⟩
    refine Script.result_run_bind_eq_ok_iff.mpr ⟨m, hload, ?_⟩
    refine Script.result_run_bind_eq_ok_iff.mpr ⟨(), rfl, ?_⟩
    refine Script.result_run_bind_eq_ok_iff.mpr ⟨selected, ?_, rfl⟩
    rw [hselect]
    rfl

theorem mem_of_mem_performed {o : Options} {as : List Attempt} {a : Attempt}
    (h : a ∈ performed o as) : a ∈ as := by
  induction as with
  | nil => exact absurd h (by simp)
  | cons b rest ih =>
    rw [performed_cons] at h
    rcases List.mem_cons.mp h with rfl | h
    · exact List.mem_cons_self
    · split_ifs at h
      · exact absurd h List.not_mem_nil
      · exact List.mem_cons_of_mem b (ih h)

/-- The attempts that a run makes all succeed if all attempts do. -/
theorem countP_failed_performed_eq_zero_iff (o : Options) (as : List Attempt) :
    (performed o as).countP Attempt.failed = 0 ↔ ∀ a ∈ as, a.failed = false := by
  induction as with
  | nil => simp
  | cons a rest ih =>
    rw [performed_cons, List.countP_cons, List.forall_mem_cons, ← ih]
    cases ha : a.failed with
    | false => simp
    | true => simp

theorem exists_attempt_of_mem {o : Options} {m : Manifest} {total index : Nat} {fs : FileSystem}
    {selected : List Selection} {a : Attempt} (h : a ∈ attempts o m total index fs selected) :
    ∃ i, a = attempt o m total i a.start a.selection := by
  induction selected generalizing index fs with
  | nil => exact absurd h List.not_mem_nil
  | cons s rest ih =>
    rcases List.mem_cons.mp h with rfl | h
    · exact ⟨index, rfl⟩
    · exact ih h

/-- An attempt succeeds if its artifact is rendered and, unless that is left out, written. -/
theorem failed_eq_false_iff {o : Options} {m : Manifest} {total index : Nat} {fs : FileSystem}
    {selected : List Selection} {a : Attempt} (h : a ∈ attempts o m total index fs selected) :
    a.failed = false ↔ (a.rendered? m).isSome ∧ (o.dryRun = false → (a.written? o m).isSome) := by
  have hfiles := (m.quiet_render a.selection).files a.start
  rw [← Bool.not_eq_true, failed_iff_of_mem_attempts h, CannotBeMade, Attempt.written?,
    Attempt.rendered?, hfiles, Option.isSome_filter]
  cases ((m.render a.selection).run a.start).result with
  | error e => exact iff_of_false (fun hnot => hnot (.inl ⟨e, rfl⟩)) fun hsome => nomatch hsome.1
  | ok x =>
    constructor
    · intro hmade
      refine ⟨rfl, fun hdry => ?_⟩
      cases hwrite : (x.write.run a.start).result with
      | error e => exact absurd (.inr ⟨x, rfl, hdry, e, hwrite⟩) hmade
      | ok u =>
        change (!o.dryRun && (x.write.run a.start).result.isOk) = true
        rw [hdry, hwrite]
        rfl
    · rintro ⟨-, hwritten⟩ (⟨e, he⟩ | ⟨y, hy, hdry, e, he⟩)
      · exact nomatch he
      · obtain rfl := Except.ok.inj hy
        have hok : (!o.dryRun && (x.write.run a.start).result.isOk) = true := hwritten hdry
        rw [hdry, he] at hok
        exact Bool.noConfusion hok

/-- An attempt that renders nothing, or that is not to write, leaves the files as they are. -/
theorem files_outcome_eq_start {o : Options} {m : Manifest} {total index : Nat} {fs : FileSystem}
    {selected : List Selection} {a : Attempt} (h : a ∈ attempts o m total index fs selected)
    (hnone : a.rendered? m = none ∨ o.dryRun = true) : a.outcome.files = a.start := by
  obtain ⟨i, ha⟩ := exists_attempt_of_mem h
  have hrun : a.outcome = (generate o m total i a.selection).run a.start := by
    rw [ha]
    rfl
  rw [run_generate] at hrun
  rw [hrun]
  rw [Attempt.rendered?] at hnone
  cases hrender : ((m.render a.selection).run a.start).result with
  | error e => rfl
  | ok x =>
    rw [hrender] at hnone
    rcases hnone with hnone | hdry
    · exact nomatch hnone
    · rw [hdry]
      rfl

theorem filesAfter_of_dryRun {o : Options} (hdry : o.dryRun = true) (m : Manifest)
    (total index : Nat) (fs : FileSystem) (selected : List Selection) :
    Attempt.filesAfter fs (performed o (attempts o m total index fs selected)) = fs := by
  refine performed_attempts_induction (P := fun _ fs as => Attempt.filesAfter fs as = fs)
    (fun _ _ => rfl) ?_ index fs selected
  intro index fs s tail htail
  have hmem : attempt o m total index fs s ∈ attempts o m total index fs [s] :=
    List.mem_cons_self
  have hhead : (attempt o m total index fs s).outcome.files = fs :=
    files_outcome_eq_start hmem (.inr hdry)
  exact htail.trans hhead

/-- A run that does not come to its attempts fails and leaves the files as they are. -/
theorem run_of_not_prepared {arguments : List String} {fs : FileSystem}
    (h : ¬∃ o m selected, Options.read arguments = .ok o ∧
      ((prepare o).run fs).result = .ok (m, selected)) :
    ((run arguments).run fs).result = .ok 1 ∧ ((run arguments).run fs).files = fs := by
  have hperform : (∃ e, ((perform arguments).run fs).result = .error e) ∧
      ((perform arguments).run fs).files = fs := by
    unfold perform
    cases hread : Options.read arguments with
    | error e => exact ⟨⟨.usage e, rfl⟩, rfl⟩
    | ok o =>
      change (∃ e, ((runOptions o).run fs).result = .error e) ∧ ((runOptions o).run fs).files = fs
      rw [runOptions_eq, Script.run_bind]
      cases hprepare : ((prepare o).run fs).result with
      | error e => exact ⟨⟨e, rfl⟩, (quiet_prepare o).files fs⟩
      | ok p => exact absurd ⟨o, p.1, p.2, hread, hprepare⟩ h
  obtain ⟨⟨e, he⟩, hfiles⟩ := hperform
  rw [run_eq, Script.run_bind, Script.run_attempt, he, hfiles]
  exact ⟨rfl, rfl⟩

section Prepared
variable {arguments : List String} {o : Options} {fs : FileSystem} {m : Manifest}
  {selected : List Selection}

theorem run_of_prepared (hread : Options.read arguments = .ok o)
    (hprepare : ((prepare o).run fs).result = .ok (m, selected)) :
    let as := performed o (attempts o m selected.length 1 fs selected)
    ((run arguments).run fs).result = .ok (if as.countP Attempt.failed = 0 then 0 else 1) ∧
      ((run arguments).run fs).files = Attempt.filesAfter fs as := by
  have hrun := ends_run hread hprepare rfl
  rw [(quiet_prepare o).files] at hrun
  exact ⟨hrun.result, hrun.files⟩

/-- A run that comes to its attempts succeeds if all of them do. -/
theorem result_run_eq_zero_iff (hread : Options.read arguments = .ok o)
    (hprepare : ((prepare o).run fs).result = .ok (m, selected)) :
    ((run arguments).run fs).result = .ok 0 ↔
      ∀ a ∈ attempts o m selected.length 1 fs selected,
        (a.rendered? m).isSome ∧ (o.dryRun = false → (a.written? o m).isSome) := by
  have hcount : (performed o (attempts o m selected.length 1 fs selected)).countP
      Attempt.failed = 0 ↔ _ :=
    (countP_failed_performed_eq_zero_iff o _).trans
      (forall₂_congr fun a ha => failed_eq_false_iff ha)
  rw [← hcount, (run_of_prepared hread hprepare).1]
  split_ifs with hzero
  · exact iff_of_true rfl hzero
  · exact iff_of_false nofun hzero

end Prepared

/-- A run succeeds if its arguments are read, the manifest is loaded, the selection is accepted and
every selected artifact is rendered and, unless that is left out, written. It changes nothing but
the files of the artifacts that it writes, each of which holds the text of the last artifact with
that place, and the directories above the outputs of those that it renders. -/
theorem run_touches (arguments : List String) (fs : FileSystem) :
    let outcome := (run arguments).run fs
    let prepared := fun o m selected => Options.read arguments = .ok o ∧
      ((Manifest.load o.manifest).run fs).result = .ok m ∧ m.select o.words = .ok selected
    (outcome.result = .ok 0 ∨ outcome.result = .ok 1) ∧
    (outcome.result = .ok 0 ↔ ∃ o m selected, prepared o m selected ∧
      ∀ a ∈ attempts o m selected.length 1 fs selected,
        (a.rendered? m).isSome ∧ (o.dryRun = false → (a.written? o m).isSome)) ∧
    ((¬∃ o m selected, prepared o m selected) → outcome.files = fs) ∧
    ∀ o m selected, prepared o m selected →
      let all := attempts o m selected.length 1 fs selected
      let as := performed o all
      all.map Attempt.selection = selected ∧
      (o.dryRun = true → outcome.files = fs) ∧
      (∀ a ∈ as, a.rendered? m = none → a.outcome.files = a.start) ∧
      Touches (as.filterMap (Attempt.written? o m))
        (fun names => ∃ a ∈ as, ∃ x, a.rendered? m = some x ∧ fs.Above x.output names)
        fs outcome.files := by
  intro outcome prepared
  have hiff : ∀ o m selected, prepared o m selected ↔ Options.read arguments = .ok o ∧
      ((prepare o).run fs).result = .ok (m, selected) :=
    fun o m selected => and_congr_right fun _ => result_prepare_eq_ok_iff.symm
  have hnot : (¬∃ o m selected, prepared o m selected) →
      outcome.result = .ok 1 ∧ outcome.files = fs := by
    intro h
    apply run_of_not_prepared
    rintro ⟨o, m, selected, hprepare⟩
    exact h ⟨o, m, selected, (hiff o m selected).mpr hprepare⟩
  refine ⟨?_, ?_, fun h => (hnot h).2, ?_⟩
  · by_cases hprepared : ∃ o m selected, prepared o m selected
    · obtain ⟨o, m, selected, h⟩ := hprepared
      obtain ⟨hread, hprepare⟩ := (hiff o m selected).mp h
      rw [(run_of_prepared hread hprepare).1]
      split_ifs
      · exact .inl rfl
      · exact .inr rfl
    · exact .inr (hnot hprepared).1
  · constructor
    · intro hzero
      have hprepared : ∃ o m selected, prepared o m selected := by
        by_contra h
        exact nomatch hzero.symm.trans (hnot h).1
      obtain ⟨o, m, selected, h⟩ := hprepared
      obtain ⟨hread, hprepare⟩ := (hiff o m selected).mp h
      exact ⟨o, m, selected, h, (result_run_eq_zero_iff hread hprepare).mp hzero⟩
    · rintro ⟨o, m, selected, h, hall⟩
      obtain ⟨hread, hprepare⟩ := (hiff o m selected).mp h
      exact (result_run_eq_zero_iff hread hprepare).mpr hall
  · intro o m selected h all as
    obtain ⟨hread, hprepare⟩ := (hiff o m selected).mp h
    have hfiles : outcome.files = Attempt.filesAfter fs as := (run_of_prepared hread hprepare).2
    refine ⟨map_selection_attempts .., fun hdry => ?_, fun a ha hnone => ?_, ?_⟩
    · rw [hfiles]
      exact filesAfter_of_dryRun hdry ..
    · exact files_outcome_eq_start (mem_of_mem_performed ha) (.inl hnone)
    · rw [hfiles]
      exact touches_attempts o m selected.length 1 fs selected

/-- A target whose output is put in a directory that is made for it. -/
theorem run_touches_new_directory :
    let fs := FileSystem.ofEntries ["w"] [(["t"], .file (.text "")), (["m"], .file (.text
      ("\x7b\"group\":\"g\",\"op\":\"relu\",\"function_group\":\"f\",\"args\":[],"
        ++ "\"file_template\":\"t\",\"dispatch\":\x7b\"hierarchy\":[]\x7d,\"targets\":["
        ++ "\x7b\"tag\":\"a\",\"output\":\"d/a.c\",\"layout\":\"chw\",\"data_type\":\"fx16\","
        ++ "\"body_template\":\"t\",\"generic\":\x7b\"core\":[]\x7d\x7d]\x7d")))]
    let outcome := (run ["--manifest", "m"]).run fs
    (outcome.result = .ok 0 ∧ fs.get? ["w", "d"] = none ∧
      outcome.files.get? ["w", "d"] = some .directory ∧
      outcome.files.get? ["w", "d", "a.c"] = some (.file (.text (banner ["t", "t"])))) ∧
    ∃ o m selected, (Options.read ["--manifest", "m"] = .ok o ∧
      ((Manifest.load o.manifest).run fs).result = .ok m ∧ m.select o.words = .ok selected) ∧
      ∀ a ∈ attempts o m selected.length 1 fs selected,
        (a.rendered? m).isSome ∧ (o.dryRun = false → (a.written? o m).isSome) := by
  intro fs outcome
  have hrun : outcome.result.toOption = some 0 ∧ fs.get? ["w", "d"] = none ∧
      outcome.files.get? ["w", "d"] = some .directory ∧
      outcome.files.get? ["w", "d", "a.c"] = some (.file (.text (banner ["t", "t"]))) := by
    decide +kernel
  obtain ⟨hsuccess, hentries⟩ := hrun
  obtain ⟨hstatus, hiff, -⟩ := run_touches ["--manifest", "m"] fs
  have hzero : outcome.result = .ok 0 := by
    rcases hstatus with hzero | hone
    · exact hzero
    · rw [hone] at hsuccess
      exact absurd hsuccess (by decide)
  exact ⟨⟨hzero, hentries⟩, hiff.mp hzero⟩

end CommandLine
end KernelDispatch
