import FiberLoop.Defect

/-!
# Exits and causes

An effect ends with exactly one `Exit`: a value, or the `Cause` why there is none. A cause is an expected
failure, a defect, or interruption.

The operations here look at an exit, transform one side of it, or collapse it; the debug forms take the
debug forms of the error and of the value as arguments.
-/

namespace FiberLoop

/-- Why an effect produced no value. -/
inductive Cause (ε : Type) where
  /-- An expected failure. -/
  | failed (error : ε)
  /-- An unexpected defect. -/
  | aborted (defect : Defect)
  /-- Cooperative cancellation. -/
  | interrupted
deriving BEq, Repr, Inhabited

/-- The outcome of an effect. -/
inductive Exit (ε α : Type) where
  | value (result : α)
  | cause (reason : Cause ε)
deriving BEq, Repr

variable {ε ε' α β : Type}

namespace Cause

def isFailed : Cause ε → Bool
  | .failed _ => true
  | _ => false

def isAborted : Cause ε → Bool
  | .aborted _ => true
  | _ => false

def isInterrupted : Cause ε → Bool
  | .interrupted => true
  | _ => false

/-- The expected failure, if that is the cause. -/
def failure? : Cause ε → Option ε
  | .failed e => some e
  | _ => none

/-- Transform an expected failure; defects and interruption stay. -/
def mapError (f : ε → ε') : Cause ε → Cause ε'
  | .failed e => .failed (f e)
  | .aborted d => .aborted d
  | .interrupted => .interrupted

/-- One line for a reader; a failure appears in its debug form. -/
def display (debugError : ε → String) : Cause ε → String
  | .failed e => "failed: " ++ debugError e
  | .aborted d => "aborted: " ++ d.display
  | .interrupted => "interrupted"

/-- The debug form. -/
def debug (debugError : ε → String) : Cause ε → String
  | .failed e => "Failed(" ++ debugError e ++ ")"
  | .aborted d => "Aborted(" ++ d.debug ++ ")"
  | .interrupted => "Interrupted"

end Cause

namespace Exit

def failed (e : ε) : Exit ε α := .cause (.failed e)

def aborted (d : Defect) : Exit ε α := .cause (.aborted d)

def interrupted : Exit ε α := .cause .interrupted

def isValue : Exit ε α → Bool
  | .value _ => true
  | .cause _ => false

def isInterrupted : Exit ε α → Bool
  | .cause .interrupted => true
  | _ => false

def value? : Exit ε α → Option α
  | .value a => some a
  | .cause _ => none

def cause? : Exit ε α → Option (Cause ε)
  | .value _ => none
  | .cause c => some c

/-- Transform the value. -/
def map (f : α → β) : Exit ε α → Exit ε β
  | .value a => .value (f a)
  | .cause c => .cause c

/-- Transform an expected failure. -/
def mapError (f : ε → ε') : Exit ε α → Exit ε' α
  | .value a => .value a
  | .cause c => .cause (c.mapError f)

/-- Collapse both sides into one. -/
def fold (onValue : α → β) (onCause : Cause ε → β) : Exit ε α → β
  | .value a => onValue a
  | .cause c => onCause c

/-- The value, or a default in its place. -/
def getOr (default : α) : Exit ε α → α := fold id fun _ => default

/-- The exit of a computation that either returns or fails as expected. -/
def ofExcept : Except ε α → Exit ε α
  | .ok a => .value a
  | .error e => failed e

/-- The value, or the whole cause as an error. -/
def toExcept : Exit ε α → Except (Cause ε) α := fold .ok .error

/-- The debug form. -/
def debug (debugError : ε → String) (debugValue : α → String) : Exit ε α → String
  | .value a => "Value(" ++ debugValue a ++ ")"
  | .cause c => "Cause(" ++ c.debug debugError ++ ")"

theorem map_id (x : Exit ε α) : x.map id = x := by cases x <;> rfl

theorem cause?_eq_none_iff (x : Exit ε α) : x.cause? = none ↔ x.isValue = true := by
  cases x <;> simp [cause?, isValue]

theorem getOr_map (f : α → β) (a : α) (x : Exit ε α) : (x.map f).getOr (f a) = f (x.getOr a) := by
  cases x <;> rfl

theorem toExcept_ofExcept (r : Except ε α) : (ofExcept r).toExcept = r.mapError .failed := by
  cases r <;> rfl

end Exit

end FiberLoop
