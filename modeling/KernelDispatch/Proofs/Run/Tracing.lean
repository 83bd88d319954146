import KernelDispatch.Proofs.Run.Effects
import KernelDispatch.Proofs.Run.Lines

/-! Two runs under different settings of the verbosity. -/
namespace KernelDispatch

theorem Verbosity.shows_of_rank_le {v w : Verbosity} (h : v.rank ≤ w.rank) {e : Entry}
    (he : v.shows e = true) : w.shows e = true := by
  unfold shows at he ⊢
  rw [decide_eq_true_iff] at he ⊢
  omega

/-- Every verbosity shows progress, diagnostics and what is critical, and nothing else. -/
theorem Verbosity.off_shows_iff (e : Entry) : Verbosity.off.shows e = true ↔
    e.kind = .progress ∨ e.kind = .diagnostic ∨ e.kind = .critical := by
  obtain ⟨kind, text⟩ := e
  cases kind <;> simp [shows, EntryKind.threshold, rank]

theorem filter_shows_of_hidden {es : List Entry} (h : ∀ e ∈ es, e.Hidden) :
    es.filter Verbosity.off.shows = [] := by
  rw [List.filter_eq_nil_iff]
  intro e he
  rw [h e he]
  exact Bool.false_ne_true

namespace CommandLine

/-- What every verbosity shows of an attempt, which is the `index`-th of `total`: its progress and
its findings once it is rendered, and its failure. -/
def announced (m : Manifest) (total index : Nat) (a : Attempt) : List Entry :=
  (match a.rendered? m with
    | none => []
    | some x =>
      ⟨.progress, "[" ++ toString index ++ "/" ++ toString total ++ "] -- generating " ++ x.label
        ++ " -> " ++ x.output⟩
      :: x.rendered.findings.map fun f => ⟨.diagnostic, x.label ++ ": " ++ f.message⟩)
    ++ a.verdict.map Prod.fst

theorem entries_write (a : Artifact) (fs : FileSystem) : (a.write.run fs).entries = [] := by
  have hsettled : ∀ activity (r : Except FileError Unit) fs',
      ((Script.settled activity r).run fs').entries = [] := by
    intro activity r fs'
    cases r <;> rfl
  have hparent : ((Artifact.makeParent a.output).run fs).entries = [] := by
    unfold Artifact.makeParent
    split
    · rfl
    · rfl
    · exact hsettled ..
  unfold Artifact.write
  rw [Script.run_bind]
  cases ((Artifact.makeParent a.output).run fs).result with
  | error e => exact hparent
  | ok u =>
    dsimp only
    rw [hparent, List.nil_append, Script.run]
    split
    · exact hsettled ..
    · exact hsettled ..

theorem filter_shows_verdict (a : Attempt) :
    (a.verdict.map Prod.fst).filter Verbosity.off.shows = a.verdict.map Prod.fst := by
  unfold Attempt.verdict
  split <;> rfl

theorem shown_attempt (o : Options) (m : Manifest) (total index : Nat) (fs : FileSystem)
    (s : Selection) :
    ((attempt o m total index fs s).history.map Prod.fst).filter Verbosity.off.shows =
      announced m total index (attempt o m total index fs s) := by
  have hquiet := filter_shows_of_hidden ((m.quiet_render s).hidden fs)
  rw [Attempt.history, List.map_append, List.filter_append, filter_shows_verdict, announced,
    Script.map_fst_history]
  congr 1
  change ((generate o m total index s).run fs).entries.filter Verbosity.off.shows = _
  have hrendered : (attempt o m total index fs s).rendered? m =
      ((m.render s).run fs).result.toOption := rfl
  rw [run_generate, hrendered]
  cases ((m.render s).run fs).result with
  | error e => exact hquiet
  | ok x =>
    have hannounced : ∀ text, ((⟨.progress, text⟩ : Entry) :: x.rendered.findings.map fun f =>
        ⟨.diagnostic, x.label ++ ": " ++ f.message⟩).filter Verbosity.off.shows =
          ⟨.progress, text⟩ :: x.rendered.findings.map fun f =>
            ⟨.diagnostic, x.label ++ ": " ++ f.message⟩ := by
      intro text
      rw [List.filter_eq_self, List.forall_mem_cons]
      refine ⟨rfl, fun e he => ?_⟩
      obtain ⟨f, -, rfl⟩ := List.mem_map.mp he
      rfl
    have hwritten : (if o.dryRun then
        (⟨.ok (), [⟨.trace, "dry run, " ++ x.output ++ " not written"⟩], fs⟩ : Outcome Unit)
        else x.write.run fs).entries.filter Verbosity.off.shows = [] := by
      cases o.dryRun with
      | true => rfl
      | false =>
        rw [if_neg Bool.false_ne_true, entries_write]
        rfl
    dsimp only [Except.toOption]
    rw [List.filter_append, hquiet, List.nil_append, List.filter_append, hannounced, hwritten,
      List.append_nil]

/-- What every verbosity shows of the attempts that a run makes. -/
theorem shown_performed (o : Options) (m : Manifest) (total index : Nat) (fs : FileSystem)
    (selected : List Selection) :
    let as := performed o (attempts o m total index fs selected)
    ((as.flatMap Attempt.history).map Prod.fst).filter Verbosity.off.shows =
      (as.zipIdx index).flatMap fun p => announced m total p.2 p.1 := by
  refine performed_attempts_induction (P := fun index _ as =>
    ((as.flatMap Attempt.history).map Prod.fst).filter Verbosity.off.shows =
      (as.zipIdx index).flatMap fun p => announced m total p.2 p.1) (fun _ _ => rfl) ?_ index fs
      selected
  intro index fs s tail htail
  rw [List.flatMap_cons, List.map_append, List.filter_append, shown_attempt, htail,
    List.zipIdx_cons, List.flatMap_cons]

/-- What every verbosity shows of a run that comes to its attempts. -/
theorem shown_run {arguments : List String} {o : Options} {fs : FileSystem} {m : Manifest}
    {selected : List Selection} (hread : Options.read arguments = .ok o)
    (hprepare : ((prepare o).run fs).result = .ok (m, selected)) :
    let as := performed o (attempts o m selected.length 1 fs selected)
    ((run arguments).run fs).entries.filter Verbosity.off.shows =
      (as.zipIdx 1).flatMap (fun p => announced m selected.length p.2 p.1) ++
        summary (as.countP Attempt.failed) := by
  intro as
  have hquiet := filter_shows_of_hidden ((quiet_prepare o).hidden fs)
  have hends := ends_run hread hprepare rfl
  rw [(quiet_prepare o).files] at hends
  rw [← Script.map_fst_history, hends.history, List.map_append, List.map_append,
    List.filter_append, List.filter_append, Script.map_fst_history, hquiet, List.nil_append,
    shown_performed, List.map_map]
  congr 1
  unfold summary
  split_ifs <;> rfl

/-- What every verbosity shows of a run that fails before its attempts. -/
theorem shown_run_of_error {arguments : List String} {fs : FileSystem} {e : Fault}
    (h : ((perform arguments).run fs).result = .error e) :
    ((run arguments).run fs).entries.filter Verbosity.off.shows = [⟨.critical, e.message⟩] := by
  have hquiet : ((perform arguments).run fs).entries.filter Verbosity.off.shows = [] := by
    unfold perform at h ⊢
    cases hread : Options.read arguments with
    | error _ => rfl
    | ok o =>
      rw [hread] at h
      change ((runOptions o).run fs).result = _ at h
      change ((runOptions o).run fs).entries.filter _ = _
      rw [runOptions_eq, Script.run_bind] at h ⊢
      cases hprepare : ((prepare o).run fs).result with
      | error _ => exact filter_shows_of_hidden ((quiet_prepare o).hidden fs)
      | ok p =>
        -- the attempts themselves never fail as a whole
        rw [hprepare] at h
        have hends := ends_generateAll o p.1 p.2.length 1 0 ((prepare o).run fs).files p.2 rfl
        exact nomatch h.symm.trans hends.result
  rw [run_eq, Script.run_bind, Script.run_attempt, h]
  dsimp only
  rw [List.filter_append, hquiet]
  rfl

end CommandLine

namespace Machine

theorem exec_host (setting : Option String) (arguments : List String) (fs : FileSystem)
    (times : Nat → Nat) :
    let outcome := (CommandLine.run arguments).run fs
    (host.exec setting arguments) (start fs times) =
      (match outcome.result with
        | .ok status => UInt32.ofNat status
        | .error _ => 1,
      (start fs times).after outcome.files
        (outcome.entries.filter (Verbosity.ofSetting setting).shows)) := by
  intro outcome
  have hperform := perform_host (.ofSetting setting) (CommandLine.run arguments) (start fs times)
  have hstep : (host.exec setting arguments) (start fs times) =
      (match (host.perform (.ofSetting setting) (CommandLine.run arguments) (start fs times)).1 with
        | .ok status => pure (UInt32.ofNat status)
        | .error _ => pure 1 : StateM Machine UInt32)
      (host.perform (.ofSetting setting) (CommandLine.run arguments) (start fs times)).2 := rfl
  rw [hstep, hperform]
  change (match outcome.result with
    | .ok status => (pure (UInt32.ofNat status) : StateM Machine UInt32)
    | .error _ => pure 1) _ = _
  cases outcome.result <;> rfl

theorem lines_exec (setting : Option String) (arguments : List String) (fs : FileSystem)
    (times : Nat → Nat) :
    ((host.exec setting arguments) (start fs times)).2.lines =
      (((CommandLine.run arguments).run fs).entries.filter
        (Verbosity.ofSetting setting).shows).flatMap Entry.lines := by
  rw [exec_host, lines, after, start, List.nil_append, flatMap_maskedLines_texts]

/-- Under two settings a run has the same exit status and leaves the same files, whatever the clock
shows. But for the times, the lines under the lower verbosity are among those under the higher one,
in the same order. Progress, diagnostics and what is critical are printed under every setting, and
under the least verbosity nothing else is. -/
theorem exec_verbosity (arguments : List String) (fs : FileSystem) :
    let always := ((CommandLine.run arguments).run fs).entries.filter fun e =>
      e.kind = .progress ∨ e.kind = .diagnostic ∨ e.kind = .critical
    (∀ e, ((CommandLine.perform arguments).run fs).result = .error e →
      always = [⟨.critical, e.message⟩]) ∧
    (∀ o m selected, Options.read arguments = .ok o →
      ((Manifest.load o.manifest).run fs).result = .ok m → m.select o.words = .ok selected →
      let as := CommandLine.performed o (CommandLine.attempts o m selected.length 1 fs selected)
      always = (as.zipIdx 1).flatMap (fun p =>
          CommandLine.announced m selected.length p.2 p.1) ++
        CommandLine.summary (as.countP Attempt.failed)) ∧
    ∀ (setting setting' : Option String) (times times' : Nat → Nat),
      let first := (host.exec setting arguments) (start fs times)
      let second := (host.exec setting' arguments) (start fs times')
      first.1 = second.1 ∧ first.2.files = second.2.files ∧
      ((Verbosity.ofSetting setting).rank ≤ (Verbosity.ofSetting setting').rank →
        first.2.lines.Sublist second.2.lines) ∧
      (always.flatMap Entry.lines).Sublist first.2.lines ∧
      (Verbosity.ofSetting setting = .off → first.2.lines = always.flatMap Entry.lines) := by
  intro always
  have halways : always =
      ((CommandLine.run arguments).run fs).entries.filter Verbosity.off.shows := by
    refine List.filter_congr fun e _ => ?_
    rw [Bool.eq_iff_iff, decide_eq_true_iff, Verbosity.off_shows_iff]
  have hmore : ∀ v w : Verbosity, v.rank ≤ w.rank →
      (((CommandLine.run arguments).run fs).entries.filter v.shows).Sublist
        (((CommandLine.run arguments).run fs).entries.filter w.shows) :=
    fun v w h => List.monotone_filter_right _ fun e => Verbosity.shows_of_rank_le h
  rw [halways]
  refine ⟨fun e => CommandLine.shown_run_of_error, ?_, ?_⟩
  · intro o m selected hread hload hselect
    exact CommandLine.shown_run hread (CommandLine.result_prepare_eq_ok_iff.mpr ⟨hload, hselect⟩)
  · intro setting setting' times times' first second
    refine ⟨?_, ?_, fun h => ?_, ?_, fun hoff => ?_⟩
    · have hfirst := exec_host setting arguments fs times
      have hsecond := exec_host setting' arguments fs times'
      exact (congrArg Prod.fst hfirst).trans (congrArg Prod.fst hsecond).symm
    · have hfirst := exec_host setting arguments fs times
      have hsecond := exec_host setting' arguments fs times'
      exact (congrArg (·.2.files) hfirst).trans (congrArg (·.2.files) hsecond).symm
    · rw [lines_exec, lines_exec]
      exact (hmore _ _ h).flatMap _
    · rw [lines_exec]
      exact (hmore .off _ (Nat.zero_le _)).flatMap _
    · rw [lines_exec, hoff]

end Machine
end KernelDispatch
