import ObjectMemory.Primitive

/-!
# Calling primitives from a dispatch loop

A dispatch loop passes references around and nothing else. `Machine.call` therefore gives one
whenever the run goes on: where a primitive refuses its arguments, the result is false and the
failure waits in a slot until it is taken. False is also the proper result of some primitives, so
the slot is what tells the two apart.
-/

namespace ObjectMemory

/-- A context together with the failure that was recorded last and not taken yet. -/
structure Machine where
  context : Context
  failure : Option Failure := none

namespace Machine

/-- Runs a primitive by name. A refusal is recorded, and false is the result. -/
def call (name : String) (args : List Ref) : EStateM Stop Machine Ref := fun ⟨context, slot⟩ =>
  match Primitive.invoke name args context with
  | .ok r after => .ok r ⟨after, slot⟩
  | .error (.stop s) after => .error s ⟨after, slot⟩
  | .error (.failure f) ⟨arena, source⟩ =>
    let journal := arena.journal.push (.primitiveFailed name f)
    .ok .false ⟨⟨{ arena with journal }, source⟩, some f⟩

/-- Is a failure waiting? -/
def hasFailure (m : Machine) : Bool :=
  m.failure.isSome

/-- The failure that waits, which then no longer does. -/
def takeFailure (m : Machine) : Option Failure × Machine :=
  (m.failure, { m with failure := none })

/-- Records a failure. -/
def setFailure (m : Machine) (f : Failure) : Machine :=
  { m with failure := some f }

/-- Forgets the failure that waits. -/
def clearFailure (m : Machine) : Machine :=
  { m with failure := none }

end Machine

end ObjectMemory
