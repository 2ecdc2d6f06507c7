import ObjectMemory.Arena.Bytes
import ObjectMemory.Random.Source

/-!
# Contexts

A context is all that a primitive may touch: the arena, and the random source behind the
selector "random". Primitives are actions of `PrimM`. They end in one of three ways: with a
value, with a `Failure` of their own, or with a `Stop` that the arena forced.
-/

namespace ObjectMemory

/-- All that a primitive may touch. -/
structure Context where
  arena : Arena
  source : Source

/-- Why a primitive gave no value. -/
inductive Refusal where
  /-- The arguments were refused. -/
  | failure (f : Failure)
  /-- The run ended. -/
  | stop (s : Stop)
  deriving DecidableEq, Repr

/-- Actions on a context. -/
abbrev PrimM := EStateM Refusal Context

namespace PrimM

/-- Refuses the arguments. -/
def refuse {α : Type} (f : Failure) : PrimM α :=
  throw (.failure f)

/-- The value of a reading function. -/
@[inline] def look {α : Type} (read : Arena → Except Stop α) : PrimM α := fun c =>
  match read c.arena with
  | .ok x => .ok x c
  | .error s => .error (.stop s) c

/-- The value of a reading function that may find none. -/
@[inline] def find {α : Type} (f : Failure) (read : Arena → Except Stop (Option α)) : PrimM α :=
  do
    match ← look read with
    | some x => pure x
    | none => refuse f

/-- An action on the arena. -/
@[inline] def onArena {α : Type} (act : ArenaM α) : PrimM α := fun ⟨arena, source⟩ =>
  match act arena with
  | .ok x after => .ok x ⟨after, source⟩
  | .error s after => .error (.stop s) ⟨after, source⟩

/-- A random pick from 1 to `n`. A pick from no places at all ends the run. -/
def pick (n : Nat) : PrimM Nat := fun ⟨arena, source⟩ =>
  if n = 0 then .error (.stop .badRange) ⟨arena, source⟩
  else
    let (i, after) := source.pick n
    .ok i ⟨arena, after⟩

end PrimM

namespace Context

/-- Contexts are shown by their arena. -/
def describe (c : Context) : String :=
  "PrimContext \x7b arena: " ++ c.arena.describe ++ ", .. \x7d"

end Context

end ObjectMemory
