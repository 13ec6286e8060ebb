import Bindery.Diagnostic
import Bindery.Failure

/-!
# Attempts

Building a declaration can fail, and either way there is something to tell about it:
what is to be reported, and which classes and interfaces were met on the way, so that
they are built as well. A `Bindery.Assembly.Attempt` is the outcome together with these
**notes**. Attempts are put together one after the other; the first that fails ends
them, and the notes made until then stay.

A failure that only concerns a single member is **recovered** from
(`Bindery.Assembly.Attempt.recover`): it becomes a diagnostic, and there is nothing in
place of the member.
-/

namespace Bindery.Assembly

variable {n : Nat} {α β : Type}

/-- What an attempt leaves behind, apart from its outcome. Symbols are numbers below
`n`. -/
structure Notes (n : Nat) where
  report : Report
  /-- The classes and interfaces that were met, in order. -/
  met : List (Fin n)
  deriving DecidableEq, Repr

namespace Notes

/-- No notes. -/
def empty : Notes n := ⟨∅, []⟩

/-- The notes of two attempts, the first before the second. -/
def append (first second : Notes n) : Notes n :=
  ⟨first.report ++ second.report, first.met ++ second.met⟩

instance : Append (Notes n) := ⟨append⟩

end Notes

/-- **An attempt to build something**. -/
structure Attempt (n : Nat) (α : Type) where
  outcome : Except Failure α
  notes : Notes n

namespace Attempt

/-- An attempt that succeeds without notes. -/
def done (value : α) : Attempt n α := ⟨.ok value, .empty⟩

/-- An attempt that fails without notes. -/
def fail (failure : Failure) : Attempt n α := ⟨.error failure, .empty⟩

/-- An attempt that goes on with the outcome of another. -/
def andThen (attempt : Attempt n α) (next : α → Attempt n β) : Attempt n β :=
  match attempt.outcome with
  | .ok value =>
    let rest := next value
    ⟨rest.outcome, attempt.notes ++ rest.notes⟩
  | .error failure => ⟨.error failure, attempt.notes⟩

instance : Monad (Attempt n) where
  pure := done
  bind := andThen

/-- Something is reported. -/
def tell (report : Report) : Attempt n Unit := ⟨.ok (), ⟨report, []⟩⟩

/-- A class or an interface is met. -/
def meet (symbol : Fin n) : Attempt n Unit := ⟨.ok (), ⟨∅, [symbol]⟩⟩

/-- **An attempt at a member**: a type without a rendering leaves the member out, and
says so. -/
def recover (what : String) (attempt : Attempt n α) : Attempt n (Option α) :=
  match attempt.outcome with
  | .ok value => ⟨.ok (some value), attempt.notes⟩
  | .error (.unrepresentable type) =>
    let message := "skipping " ++ what ++ ": " ++ (Failure.unrepresentable type).message
    ⟨.ok none, attempt.notes ++ ⟨.skipped message, []⟩⟩
  | .error failure => ⟨.error failure, attempt.notes⟩

end Attempt

end Bindery.Assembly
