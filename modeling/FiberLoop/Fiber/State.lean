import FiberLoop.Effect

/-!
# The state of a fiber

A fiber is one run of an effect. While it runs, it owns a stack of frames, a stack of masks and the next
instruction; while it is parked, the two stacks are stored in its record together with the way to cancel what it
waits for.

Each registration of a callback gets a fresh epoch, and so does each end of a registration: a callback that
remembers an older epoch is stale.

A fiber has a home, the loop that runs it. It never moves.
-/

namespace FiberLoop

/-- One of the two loops of a world. -/
inductive LoopName where
  | own
  | shared
deriving DecidableEq, Repr, Inhabited

def LoopName.other : LoopName → LoopName
  | .own => .shared
  | .shared => .own

@[simp] theorem LoopName.other_other (name : LoopName) : name.other.other = name := by
  cases name <;> rfl

/-- What a fiber does next. -/
inductive Next where
  | eval (effect : Effect)
  | value (value : Value)
  | cause (cause : Cause Value)

/-- Go on with an exit. -/
def Next.ofExit : Exit Value Value → Next
  | .value v => .value v
  | .cause c => .cause c

/-- What is pending around the effect under evaluation. -/
inductive Frame where
  /-- Bind the value; let a cause pass. -/
  | chain (next : Continuation)
  /-- Bind the value or handle the cause. -/
  | fold (onValue : Continuation) (onCause : Recovery)
  /-- Leave a region. -/
  | region

/-- The part of a run that is kept while it waits. -/
structure Run where
  frames : List Frame := []
  masks : Masks := {}

/-- A timer, by its place in the order of creation. -/
structure TimerId where
  index : Nat
deriving DecidableEq, Repr, Inhabited

/-- How to cancel what a fiber waits for. -/
inductive Canceler where
  | none
  | actions (actions : List Action) (env : Env)
  /-- Keep a timer from running. -/
  | timer (timer : TimerId)
  /-- Leave the line of a deferred. -/
  | waiter (deferred : DeferredId) (key : Nat)
  /-- Withdraw a listener from a fiber. -/
  | listener (fiber : FiberId) (key : Nat)
  /-- Interrupt some fibers. -/
  | interrupt (fibers : List FiberId)

/-- Whether cancelling would do anything. -/
def Canceler.isNoop : Canceler → Bool
  | .none => true
  | _ => false

/-- The right to complete one registration of one fiber. -/
structure Callback where
  fiber : FiberId
  epoch : Nat
deriving DecidableEq, Repr

/-- What is told about a fiber's exit once it is there. -/
inductive Listener where
  /-- Complete a callback with the exit as a value. -/
  | resume (callback : Callback)
  /-- Log the exit under the fiber's name. -/
  | report (name : Name)
  /-- Log the exit under a tag. -/
  | note (tag : Name)
  /-- Run actions. -/
  | actions (actions : List Action) (env : Env)

/-- The exit of a forked fiber, or who waits for it. -/
inductive ExitNotice where
  /-- The listeners with their keys, and the key for the next one. -/
  | pending (listeners : List (Nat × Listener)) (nextKey : Nat)
  | done (exit : Exit Value Value)

/-- The exit, once it is there. -/
def ExitNotice.exit? : ExitNotice → Option (Exit Value Value)
  | .pending .. => none
  | .done exit => some exit

/-- A race between two fibers. -/
structure RaceId where
  index : Nat
deriving DecidableEq, Repr, Inhabited

/-- Two fibers whose values are to be combined. -/
structure PairingId where
  index : Nat
deriving DecidableEq, Repr, Inhabited

/-- One of two fibers that run side by side. -/
inductive Side where
  | left
  | right
deriving DecidableEq, Repr

def Side.other : Side → Side
  | .left => .right
  | .right => .left

/-- What becomes of a fiber's exit. -/
inductive ExitHook where
  /-- Log it under the fiber's name, and perhaps throw afterwards. -/
  | report (name : Name) (throws : Bool)
  /-- Put it into the fiber's own notice. -/
  | publish
  | race (race : RaceId) (side : Side)
  | parZip (pairing : PairingId) (side : Side)
  /-- Put it into an outbox. -/
  | deliver (outbox : Nat)

/-- Where a fiber is in its life. -/
inductive Phase where
  /-- Not started yet. -/
  | created (root : Effect)
  /-- A task holds the run. -/
  | running
  /-- A callback is being registered; a completion that comes early is kept. -/
  | registering (early : Option (Exit Value Value))
  /-- Parked. -/
  | suspended (run : Run) (canceler : Canceler)
  | done

/-- What can be told about a fiber from outside. -/
inductive FiberState where
  | runnable
  | running
  | suspended
  | completed
  | failed
  | cancelled
deriving DecidableEq, Repr

namespace FiberState

/-- The states in order. -/
def all : List FiberState := [.runnable, .running, .suspended, .completed, .failed, .cancelled]

def name : FiberState → String
  | .runnable => "Runnable"
  | .running => "Running"
  | .suspended => "Suspended"
  | .completed => "Completed"
  | .failed => "Failed"
  | .cancelled => "Cancelled"

/-- Whether the fiber has exited. -/
def isTerminal : FiberState → Bool
  | .completed | .failed | .cancelled => true
  | _ => false

/-- The state of a fiber that ended with an exit. -/
def ofExit : Exit Value Value → FiberState
  | .value _ => .completed
  | .cause .interrupted => .cancelled
  | .cause _ => .failed

theorem mem_all (s : FiberState) : s ∈ all := by cases s <;> decide

theorem isTerminal_ofExit (x : Exit Value Value) : (ofExit x).isTerminal = true := by
  cases x with
  | value v => rfl
  | cause c => cases c <;> rfl

end FiberState

/-- The record of a fiber. -/
structure Fiber where
  /-- The loop that runs the fiber. -/
  home : LoopName := .own
  phase : Phase
  epoch : Nat := 0
  /-- The state to tell once the fiber is done. -/
  outcome : FiberState := .runnable
  interruptRequested : Bool := false
  hook : Option ExitHook
  /-- The notice of a forked fiber. -/
  notice : Option ExitNotice

namespace Fiber

def state (f : Fiber) : FiberState :=
  match f.phase with
  | .created _ => .runnable
  | .running | .registering _ => .running
  | .suspended .. => .suspended
  | .done => f.outcome

def isDone (f : Fiber) : Bool :=
  match f.phase with
  | .done => true
  | _ => false

/-- The exit of a forked fiber, once it is there. -/
def exit? (f : Fiber) : Option (Exit Value Value) := f.notice.bind ExitNotice.exit?

end Fiber

end FiberLoop
