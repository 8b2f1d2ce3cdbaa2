import TypedIsl.Diagnostic.Basic

/-! # Results with diagnostics -/

namespace TypedIsl

/-- A result together with the diagnostics found on the way to it, in order. -/
structure Judged (α : Type) where
  result : α
  diagnostics : List Diagnostic

namespace Judged

variable {α β : Type}

instance : Monad Judged where
  pure a := ⟨a, []⟩
  bind x f :=
    let y := f x.result
    ⟨y.result, x.diagnostics ++ y.diagnostics⟩

instance : LawfulMonad Judged := LawfulMonad.mk' Judged
  (by intro _ x; simp [Functor.map])
  (by intros; simp [bind, pure])
  (by intros; simp [bind])

/-- Adds a diagnostic. -/
def report (d : Diagnostic) : Judged Unit := ⟨(), [d]⟩

/-- Adds a diagnostic without notes unless the condition holds. -/
def ensure (holds : Bool) (range : Range) (problem : Problem) : Judged Unit :=
  if holds then pure () else report ⟨problem, range, []⟩

@[simp] theorem result_pure (a : α) : (pure a : Judged α).result = a := rfl

@[simp] theorem diagnostics_pure (a : α) : (pure a : Judged α).diagnostics = [] := rfl

@[simp] theorem result_bind (x : Judged α) (f : α → Judged β) :
    (x >>= f).result = (f x.result).result := rfl

@[simp] theorem diagnostics_bind (x : Judged α) (f : α → Judged β) :
    (x >>= f).diagnostics = x.diagnostics ++ (f x.result).diagnostics := rfl

end Judged

end TypedIsl
