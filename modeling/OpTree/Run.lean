/-
Computations that change a state and may stop. A run always gives its final
state back, also when it stops: with an error, or because it was given too few
steps to tell.
-/
import OpTree.EvalError

namespace OpTree

/-- Why a run stopped without a value. -/
inductive Stop where
  | failed (error : EvalError)
  /-- The bound on the number of steps was reached; nothing is known. -/
  | exhausted
deriving DecidableEq, Repr

/-- An answer that may be an error, as one that may also be missing. -/
def Stop.ofExcept {α : Type} : Except EvalError α → Except Stop α
  | .ok a => .ok a
  | .error e => .error (.failed e)

/-- A computation over a state. -/
def Run (σ α : Type) : Type := σ → Except Stop α × σ

namespace Run

variable {σ α β : Type}

protected def pure (a : α) : Run σ α := fun s => (.ok a, s)

protected def bind (m : Run σ α) (f : α → Run σ β) : Run σ β := fun s =>
  match m s with
  | (.ok a, s') => f a s'
  | (.error e, s') => (.error e, s')

instance : Monad (Run σ) where
  pure := Run.pure
  bind := Run.bind

def ofStop (r : Except Stop α) : Run σ α := fun s => (r, s)

/-- An answer that does not depend on the state and is never missing. -/
def ofExcept (r : Except EvalError α) : Run σ α := fun s => (Stop.ofExcept r, s)

instance : MonadLift (Except EvalError) (Run σ) := ⟨ofExcept⟩

instance : MonadLift (Except Stop) (Run σ) := ⟨ofStop⟩

def fail (cause : Cause) : Run σ α := fun s => (.error (.failed (.of cause)), s)

def exhausted : Run σ α := fun s => (.error .exhausted, s)

instance : Inhabited (Run σ α) := ⟨exhausted⟩

def gets (f : σ → α) : Run σ α := fun s => (.ok (f s), s)

def modify (f : σ → σ) : Run σ Unit := fun s => (.ok (), f s)

/-- Change the state and answer something about the change. -/
def modifyGet (f : σ → α × σ) : Run σ α := fun s =>
  match f s with
  | (a, s') => (.ok a, s')

/-- Give the span to an error that has none. -/
def orSpan (span : Span) (m : Run σ α) : Run σ α := fun s =>
  match m s with
  | (.error (.failed e), s') => (.error (.failed (e.orSpan span)), s')
  | r => r

/-- Restore a part of the state afterwards, however the run ends. -/
def restoring (m : Run σ α) (restore : σ → σ) : Run σ α := fun s =>
  match m s with
  | (r, s') => (r, restore s')

def mapList (f : α → Run σ β) : List α → Run σ (List β)
  | [] => pure []
  | a :: as => do
    let b ← f a
    let bs ← mapList f as
    return b :: bs

def forList (f : α → Run σ Unit) : List α → Run σ Unit
  | [] => pure ()
  | a :: as => do
    f a
    forList f as

end Run

end OpTree
