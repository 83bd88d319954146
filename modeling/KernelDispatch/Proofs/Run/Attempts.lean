import KernelDispatch.CommandLine
import KernelDispatch.Proofs.Run.History
import Mathlib

/-! The artifacts that a run attempts one after another, each with the files that the attempts before
it left. -/
namespace KernelDispatch

/-- The generation of one artifact, and the files that it starts with. -/
structure Attempt where
  selection : Selection
  script : Script Unit
  start : FileSystem

namespace Attempt

def outcome (a : Attempt) : Outcome Unit := a.script.run a.start

def failed (a : Attempt) : Bool :=
  match a.outcome.result with
  | .ok () => false
  | .error _ => true

/-- What is reported of a failure after everything else. -/
def verdict (a : Attempt) : List (Entry × FileSystem) :=
  match a.outcome.result with
  | .ok () => []
  | .error e => [(⟨.critical, a.selection.label ++ ": " ++ e.message⟩, a.outcome.files)]

def history (a : Attempt) : List (Entry × FileSystem) := a.script.history a.start ++ a.verdict

/-- The attempts up to the first that fails, and that one. -/
def untilFailure : List Attempt → List Attempt
  | [] => []
  | a :: rest => if a.failed then [a] else a :: untilFailure rest

theorem untilFailure_eq_self {as : List Attempt} (h : ∀ a ∈ as, a.failed = false) :
    untilFailure as = as := by
  induction as with
  | nil => rfl
  | cons a rest ih =>
    rw [List.forall_mem_cons] at h
    rw [untilFailure, h.1, if_neg Bool.false_ne_true, ih h.2]

theorem untilFailure_append {done rest : List Attempt} {a : Attempt}
    (h : ∀ d ∈ done, d.failed = false) (ha : a.failed = true) :
    untilFailure (done ++ a :: rest) = done ++ [a] := by
  induction done with
  | nil => rw [List.nil_append, untilFailure, ha, if_pos rfl, List.nil_append]
  | cons d done ih =>
    rw [List.forall_mem_cons] at h
    rw [List.cons_append, untilFailure, h.1, if_neg Bool.false_ne_true, ih h.2, List.cons_append]

/-- Either no attempt fails, or there is a first one that does. -/
theorem eq_append_of_failed (as : List Attempt) :
    (∀ a ∈ as, a.failed = false) ∨
      ∃ done a rest, as = done ++ a :: rest ∧ (∀ d ∈ done, d.failed = false) ∧ a.failed = true := by
  induction as with
  | nil => exact .inl nofun
  | cons a as ih =>
    cases ha : a.failed with
    | true => exact .inr ⟨[], a, as, rfl, nofun, ha⟩
    | false =>
      rcases ih with hnone | ⟨done, b, rest, rfl, hdone, hb⟩
      · exact .inl (List.forall_mem_cons.mpr ⟨ha, hnone⟩)
      · exact .inr ⟨a :: done, b, rest, rfl, List.forall_mem_cons.mpr ⟨ha, hdone⟩, hb⟩

theorem countP_failed_eq_zero {as : List Attempt} (h : ∀ a ∈ as, a.failed = false) :
    as.countP failed = 0 :=
  List.countP_eq_zero.mpr fun a ha => by rw [h a ha]; exact Bool.false_ne_true

theorem countP_failed_append {done : List Attempt} {a : Attempt}
    (h : ∀ d ∈ done, d.failed = false) (ha : a.failed = true) :
    (done ++ [a]).countP failed = 1 := by
  rw [List.countP_append, countP_failed_eq_zero h, List.countP_singleton, ha, if_pos rfl]

/-- The report of an attempt that fails ends with its failure. -/
theorem exists_history_eq_append {a : Attempt} (ha : a.failed = true) :
    ∃ e : Fault, a.history = a.script.history a.start ++
      [(⟨.critical, a.selection.label ++ ": " ++ e.message⟩, a.outcome.files)] := by
  unfold failed at ha
  unfold history verdict
  cases hresult : a.outcome.result with
  | ok u =>
    rw [hresult] at ha
    exact Bool.noConfusion ha
  | error e => exact ⟨e, rfl⟩

/-- The files that are there after some attempts. -/
def filesAfter (fs : FileSystem) (as : List Attempt) : FileSystem :=
  as.foldl (fun _ a => a.outcome.files) fs

theorem filesAfter_append (fs : FileSystem) (done : List Attempt) (a : Attempt) :
    filesAfter fs (done ++ [a]) = a.outcome.files := by
  rw [filesAfter, List.foldl_append]
  rfl

end Attempt

namespace CommandLine

/-- The attempt at the `index`-th of `total` artifacts. -/
def attempt (o : Options) (m : Manifest) (total index : Nat) (fs : FileSystem) (s : Selection) :
    Attempt :=
  ⟨s, generate o m total index s, fs⟩

/-- The attempts at some artifacts in order. Each starts with the files that the one before it left,
whether that failed or not. -/
def attempts (o : Options) (m : Manifest) (total : Nat) :
    (index : Nat) → FileSystem → List Selection → List Attempt
  | _, _, [] => []
  | index, fs, s :: rest =>
    let a := attempt o m total index fs s
    a :: attempts o m total (index + 1) a.outcome.files rest

/-- The attempts that a run makes. -/
def performed (o : Options) (as : List Attempt) : List Attempt :=
  if o.keepGoing then as else Attempt.untilFailure as

theorem map_selection_attempts (o : Options) (m : Manifest) (total index : Nat) (fs : FileSystem)
    (selected : List Selection) :
    (attempts o m total index fs selected).map Attempt.selection = selected := by
  induction selected generalizing index fs with
  | nil => rfl
  | cons s rest ih => exact congrArg (s :: ·) (ih (index + 1) _)

/-- Whether a run goes on after a failure makes no difference for one attempt. -/
theorem attempts_keepGoing (o : Options) (m : Manifest) (total index : Nat) (fs : FileSystem)
    (selected : List Selection) :
    attempts { o with keepGoing := true } m total index fs selected =
      attempts o m total index fs selected := by
  induction selected generalizing index fs with
  | nil => rfl
  | cons s rest ih => exact congrArg (_ :: ·) (ih (index + 1) _)

@[simp] theorem performed_nil (o : Options) : performed o [] = [] := by
  unfold performed
  split_ifs <;> rfl

theorem performed_cons (o : Options) (a : Attempt) (as : List Attempt) :
    performed o (a :: as) =
      a :: if a.failed && !o.keepGoing then [] else performed o as := by
  unfold performed
  cases o.keepGoing <;> cases ha : a.failed <;> simp [Attempt.untilFailure, ha]

/-- What is carried from the attempts behind one to those from it on holds of all that a run makes. -/
theorem performed_attempts_induction {o : Options} {m : Manifest} {total : Nat}
    {P : Nat → FileSystem → List Attempt → Prop} (nil : ∀ index fs, P index fs [])
    (cons : ∀ index fs s tail, P (index + 1) (attempt o m total index fs s).outcome.files tail →
      P index fs (attempt o m total index fs s :: tail))
    (index : Nat) (fs : FileSystem) (selected : List Selection) :
    P index fs (performed o (attempts o m total index fs selected)) := by
  induction selected generalizing index fs with
  | nil =>
    rw [attempts, performed_nil]
    exact nil index fs
  | cons s rest ih =>
    rw [attempts, performed_cons]
    apply cons
    split_ifs
    · exact nil _ _
    · exact ih _ _

/-- A script that ends well: what it returns, the files that it leaves and what it reports. -/
structure Ends {α : Type} (s : Script α) (fs : FileSystem) (a : α) (files : FileSystem)
    (history : List (Entry × FileSystem)) : Prop where
  result : (s.run fs).result = .ok a
  files : (s.run fs).files = files
  history : s.history fs = history

theorem Ends.bind {α β : Type} {s : Script α} {f : α → Script β} {fs files files' : FileSystem}
    {a : α} {b : β} {before after : List (Entry × FileSystem)} (h : Ends s fs a files before)
    (h' : Ends (f a) files b files' after) : Ends (s >>= f) fs b files' (before ++ after) := by
  obtain ⟨hresult, rfl, rfl⟩ := h
  constructor
  · rw [Script.run_bind, hresult]
    exact h'.result
  · rw [Script.run_bind, hresult]
    exact h'.files
  · rw [Script.history_bind, hresult]
    exact congrArg (_ ++ ·) h'.history

theorem Ends.run_eq {α : Type} {s : Script α} {fs files : FileSystem} {a : α}
    {history : List (Entry × FileSystem)} (h : Ends s fs a files history) :
    s.run fs = ⟨.ok a, history.map Prod.fst, files⟩ := by
  have hentries := s.map_fst_history fs
  rw [h.history] at hentries
  rw [hentries, ← h.result, ← h.files]

theorem Ends.attempt {α : Type} (s : Script α) (fs : FileSystem) :
    Ends s.attempt fs (s.run fs).result (s.run fs).files (s.history fs) := by
  constructor
  · rw [Script.run_attempt]
  · rw [Script.run_attempt]
  · exact s.history_attempt fs

/-- A run goes on behind an attempt with the files that the attempt left, unless it failed and that
ends the run. -/
theorem ends_generateAll_cons {o : Options} {m : Manifest} {total index failed n : Nat}
    {s : Selection} {rest : List Selection} {fs files : FileSystem}
    {history : List (Entry × FileSystem)}
    (h : Ends (if (attempt o m total index fs s).failed && !o.keepGoing then pure (failed + 1)
      else generateAll o m total (index + 1) (failed + (attempt o m total index fs s).failed.toNat)
        rest)
      (attempt o m total index fs s).outcome.files n files history) :
    Ends (generateAll o m total index failed (s :: rest)) fs n files
      ((attempt o m total index fs s).history ++ history) := by
  have hattempt := Ends.attempt (generate o m total index s) fs
  rw [Attempt.history, List.append_assoc]
  refine hattempt.bind ?_
  change Ends (match (attempt o m total index fs s).outcome.result with | .ok _ => _ | .error _ => _) _ _ _ _
  cases hresult : (attempt o m total index fs s).outcome.result with
  | ok u =>
    have hok : (attempt o m total index fs s).failed = false := by simp [Attempt.failed, hresult]
    have hverdict : (attempt o m total index fs s).verdict = [] := by
      simp [Attempt.verdict, hresult]
    rw [hok] at h
    rw [hverdict]
    exact h
  | error e =>
    have hfailed : (attempt o m total index fs s).failed = true := by
      simp [Attempt.failed, hresult]
    have hreport : Ends (Script.report .critical (s.label ++ ": " ++ e.message))
        (attempt o m total index fs s).outcome.files ()
        (attempt o m total index fs s).outcome.files (attempt o m total index fs s).verdict := by
      rw [Attempt.verdict, hresult]
      exact ⟨rfl, rfl, rfl⟩
    refine hreport.bind ?_
    rw [hfailed] at h
    cases hgo : o.keepGoing with
    | true =>
      rw [hgo] at h
      exact h
    | false =>
      rw [hgo] at h
      exact h

/-- A run performs attempts in order and counts those that failed. -/
theorem ends_generateAll (o : Options) (m : Manifest) (total index failed : Nat) (fs : FileSystem)
    (selected : List Selection) {as : List Attempt}
    (has : as = performed o (attempts o m total index fs selected)) :
    Ends (generateAll o m total index failed selected) fs (failed + as.countP Attempt.failed)
      (Attempt.filesAfter fs as) (as.flatMap Attempt.history) := by
  induction selected generalizing index failed fs as with
  | nil =>
    rw [attempts, performed_nil] at has
    rw [has]
    exact ⟨rfl, rfl, rfl⟩
  | cons s rest ih =>
    rw [attempts, performed_cons] at has
    rw [has, List.countP_cons, List.flatMap_cons]
    apply ends_generateAll_cons
    split
    · next hstop =>
      rw [Bool.and_eq_true] at hstop
      rw [hstop.1]
      exact ⟨rfl, rfl, rfl⟩
    · have hrest := ih (index + 1) (failed + (attempt o m total index fs s).failed.toNat)
        (attempt o m total index fs s).outcome.files rfl
      have hcount : ∀ n, failed + (attempt o m total index fs s).failed.toNat + n =
          failed + (n + if (attempt o m total index fs s).failed = true then 1 else 0) := by
        intro n
        cases (attempt o m total index fs s).failed with
        | false => rfl
        | true => exact (Nat.add_assoc failed 1 n).trans (congrArg _ (Nat.add_comm 1 n))
      rw [hcount] at hrest
      exact hrest

theorem run_reportAll (entries : List Entry) (fs : FileSystem) :
    (Script.reportAll entries).run fs = ⟨.ok (), entries, fs⟩ := by
  induction entries with
  | nil => rfl
  | cons e rest ih =>
    change (Script.note e (Script.reportAll rest)).run fs = _
    rw [Script.run, ih]

/-- An artifact that cannot be rendered, or that cannot be written although it is to be. -/
def CannotBeMade (o : Options) (m : Manifest) (a : Attempt) : Prop :=
  (∃ e, ((m.render a.selection).run a.start).result = .error e) ∨
    ∃ artifact, ((m.render a.selection).run a.start).result = .ok artifact ∧ o.dryRun = false ∧
      ∃ e, (artifact.write.run ((m.render a.selection).run a.start).files).result = .error e

/-- An attempt fails if its artifact cannot be made. -/
theorem failed_attempt_iff (o : Options) (m : Manifest) (total index : Nat) (fs : FileSystem)
    (s : Selection) :
    (attempt o m total index fs s).failed = true ↔
      CannotBeMade o m (attempt o m total index fs s) := by
  have hfailed : ∀ a : Attempt, a.failed = true ↔ ∃ e, a.outcome.result = .error e := by
    intro a
    unfold Attempt.failed
    cases a.outcome.result with
    | ok u => exact iff_of_false nofun fun ⟨_, h⟩ => nomatch h
    | error e => exact iff_of_true rfl ⟨e, rfl⟩
  rw [hfailed]
  unfold CannotBeMade
  change (∃ e, ((generate o m total index s).run fs).result = _) ↔
    (∃ e, ((m.render s).run fs).result = .error e) ∨
      ∃ a : Artifact, ((m.render s).run fs).result = .ok a ∧ o.dryRun = false ∧
        ∃ e, (a.write.run ((m.render s).run fs).files).result = .error e
  unfold generate
  rw [Script.run_bind]
  cases hrender : ((m.render s).run fs).result with
  | error e => exact iff_of_true ⟨e, rfl⟩ (.inl ⟨e, rfl⟩)
  | ok a =>
    have hreport : ∀ kind text, (Script.report kind text).run ((m.render s).run fs).files =
        ⟨.ok (), [⟨kind, text⟩], ((m.render s).run fs).files⟩ := fun _ _ => rfl
    have hrendered : ¬ ∃ e : Fault, Except.ok a = (Except.error e : Except Fault Artifact) :=
      fun ⟨_, h⟩ => nomatch h
    rw [or_iff_right hrendered]
    simp only [Script.run_bind, hreport, run_reportAll]
    constructor
    · rintro ⟨e, he⟩
      cases hdry : o.dryRun with
      | true =>
        rw [hdry] at he
        exact nomatch he
      | false =>
        rw [hdry] at he
        exact ⟨a, rfl, rfl, e, he⟩
    · rintro ⟨a', ha, hdry, e, he⟩
      obtain rfl := Except.ok.inj ha
      rw [hdry]
      exact ⟨e, he⟩

theorem failed_iff_of_mem_attempts {o : Options} {m : Manifest} {total index : Nat}
    {fs : FileSystem} {selected : List Selection} {a : Attempt}
    (h : a ∈ attempts o m total index fs selected) : a.failed = true ↔ CannotBeMade o m a := by
  induction selected generalizing index fs with
  | nil => exact absurd h List.not_mem_nil
  | cons s rest ih =>
    rcases List.mem_cons.mp h with rfl | h
    · exact failed_attempt_iff o m total index fs s
    · exact ih h

end CommandLine
end KernelDispatch
