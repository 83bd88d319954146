/-! What is reported while an artifact is generated, and computations that report. -/
namespace KernelDispatch

/-- How much of the journal is shown. -/
inductive Verbosity where
  | off
  | basic
  | full
  deriving DecidableEq, Repr

/-- What a journal entry is. -/
inductive EntryKind where
  | progress
  | trace
  /-- Something odd that the diagnostics of the artifact repeat. -/
  | warning
  /-- A decision on one variant. -/
  | detail
  | diagnostic
  | critical
  deriving DecidableEq, Repr

structure Entry where
  kind : EntryKind
  text : String
  deriving DecidableEq, Repr

/-- The least verbosity at which entries of a kind are shown. -/
def EntryKind.threshold : EntryKind → Verbosity
  | .progress | .diagnostic | .critical => .off
  | .trace | .warning => .basic
  | .detail => .full

namespace Verbosity

def rank : Verbosity → Nat
  | .off => 0
  | .basic => 1
  | .full => 2

def shows (v : Verbosity) (e : Entry) : Bool := e.kind.threshold.rank ≤ v.rank

end Verbosity

/-- A computation that reports and then returns a value or fails. A failure keeps what was
reported before it. -/
structure Reported (ε α : Type) where
  entries : List Entry
  result : Except ε α

namespace Reported
variable {ε α β : Type}

protected def pure (a : α) : Reported ε α := ⟨[], .ok a⟩

protected def bind (x : Reported ε α) (f : α → Reported ε β) : Reported ε β :=
  match x.result with
  | .error e => ⟨x.entries, .error e⟩
  | .ok a => ⟨x.entries ++ (f a).entries, (f a).result⟩

instance : Monad (Reported ε) where
  pure := Reported.pure
  bind := Reported.bind

def ofExcept (x : Except ε α) : Reported ε α := ⟨[], x⟩

instance : MonadLift (Except ε) (Reported ε) := ⟨ofExcept⟩

def report (kind : EntryKind) (text : String) : Reported ε Unit := ⟨[⟨kind, text⟩], .ok ()⟩

@[simp] theorem result_bind (x : Reported ε α) (f : α → Reported ε β) :
    (x >>= f).result = x.result >>= fun a => (f a).result := by
  change (Reported.bind x f).result = _
  unfold Reported.bind
  cases h : x.result <;> rfl

theorem result_bind_eq_ok_iff {x : Reported ε α} {f : α → Reported ε β} {b : β} :
    (x >>= f).result = .ok b ↔ ∃ a, x.result = .ok a ∧ (f a).result = .ok b := by
  rw [result_bind]
  cases x.result with
  | error e => exact iff_of_false nofun fun ⟨a, ha, _⟩ => nomatch ha
  | ok a => exact ⟨fun h => ⟨a, rfl, h⟩, fun ⟨_, ha, h⟩ => Except.ok.inj ha ▸ h⟩

@[simp] theorem result_ofExcept (x : Except ε α) : (ofExcept x).result = x := rfl

protected theorem bind_pure (x : Reported ε α) : Reported.bind x Reported.pure = x := by
  obtain ⟨es, r⟩ := x
  cases r <;> simp [Reported.bind, Reported.pure]

protected theorem bind_assoc {γ : Type} (x : Reported ε α) (f : α → Reported ε β)
    (g : β → Reported ε γ) :
    Reported.bind (Reported.bind x f) g = Reported.bind x fun a => Reported.bind (f a) g := by
  obtain ⟨es, r⟩ := x
  cases r with
  | error e => rfl
  | ok a => cases h : (f a).result <;> simp [Reported.bind, h]

instance : LawfulMonad (Reported ε) :=
  LawfulMonad.mk' _ Reported.bind_pure
    (fun a f => by
      change Reported.bind (Reported.pure a) f = f a
      simp [Reported.bind, Reported.pure])
    Reported.bind_assoc

end Reported
end KernelDispatch
