import KernelDispatch.Proofs.Run.Attempts

/-! What is done before an artifact is written: files are read only, and no entry is reported that
every verbosity shows. -/
namespace KernelDispatch

/-- An entry that is left out at the least verbosity. -/
def Entry.Hidden (e : Entry) : Prop := Verbosity.off.shows e = false

theorem Entry.hidden_of_threshold {kind : EntryKind} (h : kind.threshold ≠ .off) (text : String) :
    (⟨kind, text⟩ : Entry).Hidden := by
  cases kind <;> first | rfl | exact absurd rfl h

namespace Reported
variable {ε α β : Type}

def Quiet (x : Reported ε α) : Prop := ∀ e ∈ x.entries, e.Hidden

theorem quiet_pure (a : α) : (pure a : Reported ε α).Quiet := nofun

theorem quiet_ofExcept (x : Except ε α) : (ofExcept x).Quiet := nofun

theorem quiet_report (kind : EntryKind) (text : String) (h : kind.threshold ≠ .off) :
    (report kind text : Reported ε Unit).Quiet := by
  intro e he
  rw [List.mem_singleton.mp he]
  exact Entry.hidden_of_threshold h text

theorem Quiet.bind {x : Reported ε α} {f : α → Reported ε β} (hx : x.Quiet)
    (hf : ∀ a, (f a).Quiet) : (x >>= f).Quiet := by
  intro e he
  change e ∈ (Reported.bind x f).entries at he
  unfold Reported.bind at he
  cases hresult : x.result with
  | error _ =>
    rw [hresult] at he
    exact hx e he
  | ok a =>
    rw [hresult] at he
    exact (List.mem_append.mp he).elim (hx e) (hf a e)

end Reported

namespace Tree
open Reported

theorem Stop.quiet_inspect (s : Stop) : s.inspect.Quiet := by
  match s with
  | .leaf _ [] => exact quiet_pure _
  | .leaf _ [_] => exact (quiet_report .detail _ nofun).bind fun _ => quiet_pure _
  | .leaf _ (_ :: _ :: _) => exact quiet_ofExcept _
  | .ambiguous _ _ _ => exact (quiet_report .warning _ nofun).bind fun _ => quiet_pure _

theorem quiet_inspectAll (ss : List Stop) : (inspectAll ss).Quiet := by
  induction ss with
  | nil => exact quiet_pure _
  | cons s rest ih => exact s.quiet_inspect.bind fun _ => ih.bind fun _ => quiet_pure _

end Tree

section
open Reported

theorem Flat.quiet_plan (variants : List Variant) (hierarchy : List Param) (default : Variant) :
    (Flat.plan variants hierarchy default).Quiet := by
  intro e he
  rcases List.mem_append.mp he with he | he
  · obtain ⟨v, -, rfl⟩ := List.mem_map.mp he
    rfl
  · obtain ⟨f, -, rfl⟩ := List.mem_map.mp he
    rfl

theorem Dispatch.quiet_plan (d : Dispatch) (variants : List Variant) (default : Variant) :
    (d.plan variants default).Quiet := by
  refine (quiet_ofExcept _).bind fun _ => ?_
  cases d.style with
  | tree => exact (Tree.quiet_inspectAll _).bind fun _ => quiet_pure _
  | flat => exact Flat.quiet_plan _ _ _

theorem quiet_renderSource (d : Dispatch) (f : Family) (parts : SourceParts) :
    (renderSource d f parts).Quiet := by
  have hbodies : ∀ vs : List Variant,
      (vs.forM fun v => (report .detail ("body " ++ v.symbol) : Reported ConfigError Unit)).Quiet := by
    intro vs
    induction vs with
    | nil => exact quiet_pure _
    | cons v rest ih => exact (quiet_report .detail _ nofun).bind fun _ => ih
  have hwrappers : (renderWrappers d f).Quiet :=
    (d.quiet_plan _ _).bind fun _ => (quiet_ofExcept _).bind fun _ => quiet_pure _
  exact (quiet_ofExcept _).bind fun _ => (quiet_report .trace _ nofun).bind fun _ =>
    hwrappers.bind fun _ => (hbodies _).bind fun _ => (quiet_ofExcept _).bind fun _ => quiet_pure _

namespace Manifest

theorem quiet_resolve (m : Manifest) (tag : String) : (m.resolve tag).Quiet := by
  have hresolved : ∀ t, (reportResolved t).Quiet := fun _ => quiet_report .detail _ nofun
  have hderived : ∀ base derived, (m.deriveAll base derived).Quiet := by
    intro base derived
    induction derived with
    | nil => exact quiet_pure _
    | cons t farther ih =>
      exact ih.bind fun _ => (hresolved _).bind fun _ => quiet_pure _
  exact (quiet_ofExcept _).bind fun _ => (quiet_ofExcept _).bind fun _ =>
    (hresolved _).bind fun _ => hderived _ _

theorem quiet_resolveAll (m : Manifest) (tags : List String) : (m.resolveAll tags).Quiet := by
  induction tags with
  | nil => exact quiet_pure _
  | cons tag rest ih =>
    exact (m.quiet_resolve tag).bind fun _ => ih.bind fun _ => quiet_pure _

end Manifest
end

namespace Script
variable {α β : Type}

/-- A script that changes no files and reports nothing that every verbosity shows. -/
structure Quiet (s : Script α) : Prop where
  files : ∀ fs, (s.run fs).files = fs
  hidden : ∀ fs, ∀ e ∈ (s.run fs).entries, e.Hidden

theorem quiet_pure (a : α) : (pure a : Script α).Quiet := ⟨fun _ => rfl, fun _ => nofun⟩

theorem Quiet.bind {s : Script α} {f : α → Script β} (hs : s.Quiet) (hf : ∀ a, (f a).Quiet) :
    (s >>= f).Quiet := by
  constructor
  · intro fs
    rw [run_bind]
    cases (s.run fs).result with
    | error e => exact hs.files fs
    | ok a => exact ((hf a).files _).trans (hs.files fs)
  · intro fs e he
    rw [run_bind] at he
    cases hresult : (s.run fs).result with
    | error _ =>
      rw [hresult] at he
      exact hs.hidden fs e he
    | ok a =>
      rw [hresult] at he
      exact (List.mem_append.mp he).elim (hs.hidden fs e) ((hf a).hidden _ e)

theorem quiet_ofExcept (x : Except Fault α) : (ofExcept x).Quiet := by
  cases x with
  | error e => exact ⟨fun _ => rfl, fun _ => nofun⟩
  | ok a => exact ⟨fun _ => rfl, fun _ => nofun⟩

theorem quiet_report (kind : EntryKind) (text : String) (h : kind.threshold ≠ .off) :
    (report kind text).Quiet := by
  refine ⟨fun _ => rfl, fun fs e he => ?_⟩
  rw [List.mem_singleton.mp he]
  exact Entry.hidden_of_threshold h text

theorem quiet_ofReported {ε : Type} (fault : ε → Fault) {x : Reported ε α} (h : x.Quiet) :
    (ofReported fault x).Quiet := by
  refine Quiet.bind ⟨fun fs => ?_, fun fs e he => ?_⟩ fun _ => quiet_ofExcept _
  · rw [CommandLine.run_reportAll]
  · rw [CommandLine.run_reportAll] at he
    exact h e he

theorem quiet_readText {path : String} {next : Except FileError String → Script α}
    (h : ∀ r, (next r).Quiet) : (Script.readText path next).Quiet :=
  ⟨fun fs => (h _).files fs, fun fs => (h _).hidden fs⟩

end Script

namespace Manifest
open Script

theorem quiet_load (path : String) : (load path).Quiet :=
  quiet_readText fun _ => (quiet_ofExcept _).bind fun _ => quiet_ofExcept _

theorem quiet_loadTemplate (m : Manifest) (name : String) : (m.loadTemplate name).Quiet :=
  quiet_readText fun _ => (quiet_ofExcept _).bind fun _ => quiet_pure _

/-- Whatever becomes of an artifact, rendering it leaves the files as they are. -/
theorem quiet_render (m : Manifest) (s : Selection) : (m.render s).Quiet := by
  cases s with
  | target tag =>
    exact (quiet_ofReported _ (m.quiet_resolve tag)).bind fun t =>
      (quiet_ofExcept _).bind fun d => (m.quiet_loadTemplate _).bind fun _ =>
      (m.quiet_loadTemplate _).bind fun _ =>
      (quiet_ofReported _ (quiet_renderSource _ _ _)).bind fun _ => quiet_pure _
  | header =>
    exact (quiet_ofExcept _).bind fun h => (quiet_ofReported _ (m.quiet_resolveAll _)).bind fun _ =>
      (m.quiet_loadTemplate _).bind fun _ => (quiet_ofExcept _).bind fun _ => quiet_pure _

end Manifest
end KernelDispatch
