import KernelDispatch.Console
import KernelDispatch.Proofs.Run.Attempts
import Mathlib

/-! Two runs of the command line, one of which goes on after failures. -/
namespace KernelDispatch

namespace Options

/-- The arguments without the values of manifest flags. -/
def flagsAndWords : List String → List String
  | [] => []
  | a :: rest =>
    if a = manifestFlag then
      match rest with
      | [] => [a]
      | _ :: rest => a :: flagsAndWords rest
    else a :: flagsAndWords rest

/-- Arguments and the same arguments with a flag to keep going in some place, which is not that of
the value of a manifest flag. -/
inductive AddsKeepGoing : List String → List String → Prop
  | here (arguments : List String) : AddsKeepGoing arguments ("--keep-going" :: arguments)
  | manifest (path : String) {arguments more : List String} (h : AddsKeepGoing arguments more) :
    AddsKeepGoing (manifestFlag :: path :: arguments) (manifestFlag :: path :: more)
  | behind {a : String} (ha : a ≠ manifestFlag) {arguments more : List String}
    (h : AddsKeepGoing arguments more) : AddsKeepGoing (a :: arguments) (a :: more)

def Draft.keptGoing (p : Draft) : Draft := { p with keepGoing := true }

def keptGoing (o : Options) : Options := { o with keepGoing := true }

/-- What an argument changes that is neither a manifest flag on its own nor its value. -/
def step (p : Draft) (a : String) : Except UsageError Draft :=
  match attached? a with
  | some path => .ok { p with manifest := some path }
  | none =>
    if a = "--keep-going" then .ok p.keptGoing
    else if a = "--dry-run" then .ok { p with dryRun := true }
    else if isFlag a then .error (.unknownArgument a)
    else .ok { p with words := p.words ++ [a] }

theorem readFrom_manifest (p : Draft) (path : String) (rest : List String) :
    readFrom p (manifestFlag :: path :: rest) = readFrom { p with manifest := some path } rest := by
  rw [readFrom.eq_def]
  exact if_pos rfl

theorem readFrom_cons (p : Draft) {a : String} (ha : a ≠ manifestFlag) (rest : List String) :
    readFrom p (a :: rest) = (step p a).bind fun q => readFrom q rest := by
  rw [readFrom.eq_def]
  dsimp only
  rw [if_neg ha, step]
  cases attached? a with
  | some path => rfl
  | none =>
    dsimp only
    split_ifs <;> rfl

theorem step_keptGoing (p : Draft) (a : String) :
    step p.keptGoing a = (step p a).map Draft.keptGoing := by
  unfold step
  split
  · rfl
  · split_ifs <;> rfl

theorem step_keepGoing (p : Draft) : step p "--keep-going" = .ok p.keptGoing := by
  have hattached : attached? "--keep-going" = none := by decide
  rw [step, hattached]
  exact if_pos rfl

theorem keepGoing_of_step {p q : Draft} {a : String} (ha : a ≠ "--keep-going")
    (h : step p a = .ok q) : q.keepGoing = p.keepGoing := by
  unfold step at h
  cases hattached : attached? a with
  | some path =>
    rw [hattached] at h
    exact Except.ok.inj h ▸ rfl
  | none =>
    rw [hattached] at h
    dsimp only at h
    rw [if_neg ha] at h
    split_ifs at h
    · exact Except.ok.inj h ▸ rfl
    · exact Except.ok.inj h ▸ rfl

/-- Once set, the flag stays set and changes nothing else. -/
theorem readFrom_keptGoing (p : Draft) (arguments : List String) :
    readFrom p.keptGoing arguments = (readFrom p arguments).map Draft.keptGoing := by
  fun_induction flagsAndWords arguments generalizing p with
  | case1 => rfl
  | case2 => rfl
  | case3 path rest ih =>
    rw [readFrom_manifest, readFrom_manifest, ← ih]
    rfl
  | case4 a rest ha ih =>
    rw [readFrom_cons _ ha, readFrom_cons _ ha, step_keptGoing]
    cases step p a with
    | error e => rfl
    | ok q => exact ih q

theorem readFrom_of_adds {arguments more : List String} (h : AddsKeepGoing arguments more)
    (p : Draft) : readFrom p more = (readFrom p arguments).map Draft.keptGoing := by
  induction h generalizing p with
  | here arguments =>
    rw [readFrom_cons p (by decide), step_keepGoing, ← readFrom_keptGoing]
    rfl
  | manifest path _ ih => rw [readFrom_manifest, readFrom_manifest, ih]
  | behind ha _ ih =>
    rw [readFrom_cons p ha, readFrom_cons p ha]
    cases step p _ with
    | error e => rfl
    | ok q => exact ih q

theorem keepGoing_of_readFrom {arguments : List String}
    (hfree : "--keep-going" ∉ flagsAndWords arguments) {q : Draft} :
    ∀ p, readFrom p arguments = .ok q → q.keepGoing = p.keepGoing := by
  fun_induction flagsAndWords arguments with
  | case1 =>
    intro p h
    exact Except.ok.inj h ▸ rfl
  | case2 =>
    intro p h
    exact nomatch h
  | case3 path rest ih =>
    intro p h
    rw [readFrom_manifest] at h
    exact ih (List.not_mem_of_not_mem_cons hfree) { p with manifest := some path } h
  | case4 a rest ha ih =>
    intro p h
    rw [List.mem_cons, not_or] at hfree
    rw [readFrom_cons p ha] at h
    cases hstep : step p a with
    | error e =>
      rw [hstep] at h
      exact nomatch h
    | ok q' =>
      rw [hstep] at h
      exact (ih hfree.2 q' h).trans (keepGoing_of_step (Ne.symm hfree.1) hstep)

theorem read_of_adds {arguments more : List String} (h : AddsKeepGoing arguments more) :
    read more = (read arguments).map keptGoing := by
  unfold read
  rw [readFrom_of_adds h]
  cases readFrom {} arguments with
  | error e => rfl
  | ok q =>
    obtain ⟨manifest, keepGoing, dryRun, words⟩ := q
    cases manifest <;> rfl

theorem keepGoing_of_read {arguments : List String}
    (hfree : "--keep-going" ∉ flagsAndWords arguments) {o : Options}
    (h : read arguments = .ok o) : o.keepGoing = false := by
  unfold read at h
  cases hdraft : readFrom {} arguments with
  | error e =>
    rw [hdraft] at h
    exact nomatch h
  | ok q =>
    have hq := keepGoing_of_readFrom hfree _ hdraft
    rw [hdraft] at h
    obtain ⟨manifest, keepGoing, dryRun, words⟩ := q
    cases manifest with
    | none => exact nomatch h
    | some path =>
      obtain rfl := Except.ok.inj h
      exact hq

end Options

namespace CommandLine

/-- What a run does before its first attempt: it reads the manifest and selects artifacts. -/
def prepare (o : Options) : Script (Manifest × List Selection) := do
  let m ← Manifest.load o.manifest
  Script.report .trace
    (m.decl.functionGroup ++ " (" ++ m.decl.op.word ++ ") from " ++ m.root)
  let selected ← Script.ofExcept ((m.select o.words).mapError .manifest)
  return (m, selected)

theorem runOptions_eq (o : Options) :
    runOptions o = prepare o >>= fun p => generateAll o p.1 p.2.length 1 0 p.2 := by
  simp only [runOptions, prepare, bind_assoc, pure_bind]

/-- What a run reports of the artifacts that failed, and its exit status. -/
def conclude : Except Fault Nat → Script Nat
  | .ok 0 => pure 0
  | .ok failed => do
    Script.report .critical (toString failed ++ " artifact(s) failed")
    return 1
  | .error e => do
    Script.report .critical e.message
    return 1

theorem run_eq (arguments : List String) :
    run arguments = (perform arguments).attempt >>= conclude := rfl

/-- The last line of a run that some artifacts failed in. -/
def summary (failed : Nat) : List Entry :=
  if failed = 0 then [] else [⟨.critical, toString failed ++ " artifact(s) failed"⟩]

theorem ends_conclude (failed : Nat) (fs : FileSystem) :
    Ends (conclude (.ok failed)) fs (if failed = 0 then 0 else 1) fs
      ((summary failed).map fun e => (e, fs)) := by
  cases failed with
  | zero => exact ⟨rfl, rfl, rfl⟩
  | succ n => exact ⟨rfl, rfl, rfl⟩

theorem ends_run {arguments : List String} {o : Options} (hread : Options.read arguments = .ok o)
    {fs : FileSystem} {m : Manifest} {selected : List Selection}
    (hprepare : ((prepare o).run fs).result = .ok (m, selected)) {as : List Attempt}
    (has : as = performed o
      (attempts o m selected.length 1 ((prepare o).run fs).files selected)) :
    let files := Attempt.filesAfter ((prepare o).run fs).files as
    Ends (run arguments) fs (if as.countP Attempt.failed = 0 then 0 else 1) files
      ((prepare o).history fs ++ as.flatMap Attempt.history ++
        (summary (as.countP Attempt.failed)).map fun e => (e, files)) := by
  intro files
  have hall := ends_generateAll o m selected.length 1 0 _ selected has
  rw [Nat.zero_add] at hall
  have hprepared : Ends (prepare o) fs (m, selected) _ _ := ⟨hprepare, rfl, rfl⟩
  have hperform : perform arguments = runOptions o := by
    rw [perform, hread]
    rfl
  have hrun := hprepared.bind (f := fun p => generateAll o p.1 p.2.length 1 0 p.2) hall
  rw [← runOptions_eq, ← hperform] at hrun
  have hattempt := Ends.attempt (perform arguments) fs
  rw [hrun.result, hrun.files, hrun.history] at hattempt
  exact hattempt.bind (ends_conclude _ files)

/-- A run that comes to no attempt is the same with the flag to keep going. -/
theorem run_eq_of_not_prepared {arguments more : List String}
    (hmore : Options.AddsKeepGoing arguments more) {fs : FileSystem}
    (h : ¬∃ o p, Options.read arguments = .ok o ∧ ((prepare o).run fs).result = .ok p) :
    (run arguments).run fs = (run more).run fs := by
  have hread := Options.read_of_adds hmore
  have hperform : (perform arguments).run fs = (perform more).run fs := by
    unfold perform
    rw [hread]
    cases ho : Options.read arguments with
    | error e => rfl
    | ok o =>
      change (runOptions o).run fs = (runOptions o.keptGoing).run fs
      have hprepare : prepare o.keptGoing = prepare o := rfl
      rw [runOptions_eq, runOptions_eq, hprepare, Script.run_bind, Script.run_bind]
      cases hp : ((prepare o).run fs).result with
      | error e => rfl
      | ok p => exact absurd ⟨o, p, ho, hp⟩ h
  rw [run_eq, run_eq, Script.run_bind, Script.run_bind, Script.run_attempt, Script.run_attempt,
    hperform]

section
variable {arguments more : List String} {o : Options} {m : Manifest} {selected : List Selection}
  {fs : FileSystem} {as : List Attempt}

/-- The run that keeps going performs all attempts. -/
theorem ends_run_keepGoing (hmore : Options.AddsKeepGoing arguments more)
    (hread : Options.read arguments = .ok o)
    (hprepare : ((prepare o).run fs).result = .ok (m, selected))
    (has : as = attempts o m selected.length 1 ((prepare o).run fs).files selected) :
    let files := Attempt.filesAfter ((prepare o).run fs).files as
    Ends (run more) fs (if as.countP Attempt.failed = 0 then 0 else 1) files
      ((prepare o).history fs ++ as.flatMap Attempt.history ++
        (summary (as.countP Attempt.failed)).map fun e => (e, files)) := by
  have hreadMore : Options.read more = .ok o.keptGoing := by
    rw [Options.read_of_adds hmore, hread]
    rfl
  exact ends_run hreadMore hprepare (has.trans (attempts_keepGoing ..).symm)

/-- The run that does not keep going performs the attempts up to the first failure. -/
theorem ends_run_untilFailure (hfree : "--keep-going" ∉ Options.flagsAndWords arguments)
    (hread : Options.read arguments = .ok o)
    (hprepare : ((prepare o).run fs).result = .ok (m, selected))
    (has : as = Attempt.untilFailure
      (attempts o m selected.length 1 ((prepare o).run fs).files selected)) :
    let files := Attempt.filesAfter ((prepare o).run fs).files as
    Ends (run arguments) fs (if as.countP Attempt.failed = 0 then 0 else 1) files
      ((prepare o).history fs ++ as.flatMap Attempt.history ++
        (summary (as.countP Attempt.failed)).map fun e => (e, files)) := by
  have hstop := Options.keepGoing_of_read hfree hread
  refine ends_run hread hprepare ?_
  rw [has, performed, hstop, if_neg Bool.false_ne_true]

theorem result_run_eq (hfree : "--keep-going" ∉ Options.flagsAndWords arguments)
    (hmore : Options.AddsKeepGoing arguments more) (fs : FileSystem) :
    ((run arguments).run fs).result = ((run more).run fs).result := by
  by_cases hprepared : ∃ o p, Options.read arguments = .ok o ∧ ((prepare o).run fs).result = .ok p
  · obtain ⟨o, ⟨m, selected⟩, hread, hprepare⟩ := hprepared
    have hsecond := ends_run_keepGoing hmore hread hprepare rfl
    have hfirst := ends_run_untilFailure hfree hread hprepare rfl
    rw [hfirst.result, hsecond.result]
    rcases Attempt.eq_append_of_failed
      (attempts o m selected.length 1 ((prepare o).run fs).files selected) with
      hnone | ⟨done, a, rest, has, hdone, ha⟩
    · rw [Attempt.untilFailure_eq_self hnone]
    · have hsome : (done ++ a :: rest).countP Attempt.failed ≠ 0 := by
        rw [List.countP_append, List.countP_cons_of_pos ha]
        omega
      rw [has, Attempt.untilFailure_append hdone ha, Attempt.countP_failed_append hdone ha,
        if_neg hsome, if_neg Nat.one_ne_zero]
  · rw [run_eq_of_not_prepared hmore hprepared]

/-- Where an attempt fails after others that do not, one run stops and the other one goes on. -/
theorem history_run_of_failed (hfree : "--keep-going" ∉ Options.flagsAndWords arguments)
    (hmore : Options.AddsKeepGoing arguments more) (hread : Options.read arguments = .ok o)
    (hprepare : ((prepare o).run fs).result = .ok (m, selected)) {done rest : List Attempt}
    {a : Attempt}
    (has : attempts o m selected.length 1 ((prepare o).run fs).files selected = done ++ a :: rest)
    (hdone : ∀ d ∈ done, d.failed = false) (ha : a.failed = true) :
    let shared := (prepare o).history fs ++ (done ++ [a]).flatMap Attempt.history
    ((run arguments).run fs).files = a.outcome.files ∧
      (run arguments).history fs =
        shared ++ [(⟨.critical, "1 artifact(s) failed"⟩, a.outcome.files)] ∧
      shared <+: (run more).history fs := by
  intro shared
  have hperformed : done ++ [a] = Attempt.untilFailure
      (attempts o m selected.length 1 ((prepare o).run fs).files selected) := by
    rw [has, Attempt.untilFailure_append hdone ha]
  have hfirst := ends_run_untilFailure hfree hread hprepare hperformed
  have hsecond := ends_run_keepGoing hmore hread hprepare has.symm
  refine ⟨hfirst.files.trans (Attempt.filesAfter_append ..), ?_, ?_⟩
  · rw [hfirst.history, Attempt.countP_failed_append hdone ha, Attempt.filesAfter_append]
    rfl
  · rw [hsecond.history, List.append_cons, List.flatMap_append, ← List.append_assoc,
      List.append_assoc]
    exact List.prefix_append _ _

end

/-- What a console shows of two runs, one of which stops with a last entry where the other one may
go on. -/
theorem consoleTexts_of_history {s s' : Script Nat} {fs : FileSystem} {e : Entry}
    {shared : List (Entry × FileSystem)} {files : FileSystem}
    (h : s.history fs = shared ++ [(e, files)]) (h' : shared <+: s'.history fs) {v : Verbosity}
    (he : v.shows e = true) (time : String) :
    let shown := consoleTexts v time (shared.map Prod.fst)
    consoleTexts v time (s.run fs).entries = shown ++ [e.line time] ∧
      shown <+: consoleTexts v time (s'.run fs).entries := by
  intro shown
  rw [← s.map_fst_history, ← s'.map_fst_history, h, List.map_append]
  constructor
  · unfold consoleTexts
    rw [List.filter_append, List.map_append]
    simp [he, shown, consoleTexts]
  · exact ((h'.map Prod.fst).filter v.shows).map (Entry.line time)

/-- Keeping going changes neither the exit status nor what is done up to the first failure. -/
theorem run_keepGoing {arguments more : List String}
    (hfree : "--keep-going" ∉ Options.flagsAndWords arguments)
    (hmore : Options.AddsKeepGoing arguments more) (fs : FileSystem) :
    let first := (run arguments).run fs
    let second := (run more).run fs
    first.result = second.result ∧
    ((¬∃ o p, Options.read arguments = .ok o ∧ ((prepare o).run fs).result = .ok p) →
      first = second) ∧
    ∀ o m selected, Options.read arguments = .ok o →
      ((prepare o).run fs).result = .ok (m, selected) →
      let before := (prepare o).history fs
      let as := attempts o m selected.length 1 ((prepare o).run fs).files selected
      as.map Attempt.selection = selected ∧
      (∀ a ∈ as, a.failed = true ↔ CannotBeMade o m a) ∧
      (run more).history fs = before ++ as.flatMap Attempt.history ++
        (summary (as.countP Attempt.failed)).map (fun e => (e, second.files)) ∧
      ((∀ a ∈ as, a.failed = false) → first = second) ∧
      ∀ done a rest, as = done ++ a :: rest → (∀ d ∈ done, d.failed = false) → a.failed = true →
        let shared := before ++ (done ++ [a]).flatMap Attempt.history
        (run arguments).history fs =
          shared ++ [(⟨.critical, "1 artifact(s) failed"⟩, first.files)] ∧
        shared <+: (run more).history fs ∧
        (∃ e, shared.getLast? = some
          (⟨.critical, a.selection.label ++ ": " ++ Fault.message e⟩, first.files)) ∧
        ∀ v time, let shown := consoleTexts v time (shared.map Prod.fst)
          consoleTexts v time first.entries =
            shown ++ [Entry.line time ⟨.critical, "1 artifact(s) failed"⟩] ∧
          shown <+: consoleTexts v time second.entries := by
  intro first second
  refine ⟨result_run_eq hfree hmore fs, run_eq_of_not_prepared hmore, ?_⟩
  intro o m selected hread hprepare before as
  have hsecond := ends_run_keepGoing hmore hread hprepare (rfl : as = _)
  refine ⟨map_selection_attempts .., fun a ha => failed_iff_of_mem_attempts ha, ?_, ?_, ?_⟩
  · rw [hsecond.history, ← hsecond.files]
  · intro hnone
    have hfirst := ends_run_untilFailure hfree hread hprepare
      (Attempt.untilFailure_eq_self hnone).symm
    exact hfirst.run_eq.trans hsecond.run_eq.symm
  · intro done a rest has hdone ha shared
    obtain ⟨hfiles, hstop, hshared⟩ :=
      history_run_of_failed hfree hmore hread hprepare has hdone ha
    rw [← hfiles] at hstop
    refine ⟨hstop, hshared, ?_, fun v time => consoleTexts_of_history hstop hshared ?_ time⟩
    · obtain ⟨e, he⟩ := Attempt.exists_history_eq_append ha
      refine ⟨e, ?_⟩
      have hlast : shared = before ++ done.flatMap Attempt.history ++ a.script.history a.start ++
          [(⟨.critical, a.selection.label ++ ": " ++ e.message⟩, a.outcome.files)] := by
        simp only [shared, List.flatMap_append, List.flatMap_singleton, he, List.append_assoc]
      rw [hlast, List.getLast?_concat, hfiles]
    · cases v <;> rfl

/-- Two targets that fail because they have no layout. -/
theorem run_keepGoing_two_failures :
    let fs := FileSystem.ofEntries ["w"] [(["m"], .file (.text
      ("\x7b\"group\":\"g\",\"op\":\"relu\",\"function_group\":\"f\",\"args\":[],"
        ++ "\"file_template\":\"t\",\"dispatch\":\x7b\"hierarchy\":[]\x7d,\"targets\":["
        ++ "\x7b\"tag\":\"a\",\"output\":\"a.c\"\x7d,\x7b\"tag\":\"b\",\"output\":\"b.c\"\x7d]\x7d")))]
    ((run ["--manifest", "m"]).run fs).result =
        ((run ["--manifest", "m", "--keep-going"]).run fs).result ∧
      ((run ["--manifest", "m", "--keep-going"]).run fs).entries.getLast? =
        some ⟨.critical, "2 artifact(s) failed"⟩ := by
  have hfree : "--keep-going" ∉ Options.flagsAndWords ["--manifest", "m"] := by decide
  have hmore : Options.AddsKeepGoing ["--manifest", "m"] ["--manifest", "m", "--keep-going"] :=
    .manifest "m" (.here [])
  refine ⟨(run_keepGoing hfree hmore _).1, ?_⟩
  decide +kernel

end CommandLine
end KernelDispatch
