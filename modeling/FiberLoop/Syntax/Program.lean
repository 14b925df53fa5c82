import FiberLoop.Queue.Overflow
import FiberLoop.Syntax.Expr

/-!
# Programs

The text of an effect: which constructors and combinators build its description, and in which order. A
program is only syntax; `Program.build` turns it into a description.

Operands that are programs are built together with the whole, and plain expressions are evaluated then. A
program under a binder, and one in the place of a thunk, is built each time its closure runs.
-/

namespace FiberLoop

/-- Operations on a cell; the first operand is the cell. -/
inductive CellRequest where
  | make (initial : Expr)
  | get (cell : Expr)
  | set (cell value : Expr)
  /-- `name` stands for the old contents in `value`. -/
  | update (cell : Expr) (name : Name) (value : Expr)
  | updateAndGet (cell : Expr) (name : Name) (value : Expr)
  /-- `name` stands for the old contents in `value` and in `result`. -/
  | modify (cell : Expr) (name : Name) (value result : Expr)
deriving Repr

/-- Operations on a deferred. -/
inductive DeferredRequest where
  | make
  | wait (deferred : Expr)
  | complete (deferred exit : Expr)
  | done (deferred value : Expr)
  | error (deferred error : Expr)
  | abort (deferred message : Expr)
  | interrupt (deferred : Expr)
  | cause (deferred cause : Expr)
  | isCompleted (deferred : Expr)
  | poll (deferred : Expr)
deriving Repr

/-- Operations on a semaphore. -/
inductive SemaphoreRequest where
  | make (permits : Nat)
  | acquire (semaphore : Expr)
  | tryAcquire (semaphore : Expr)
  | release (semaphore : Expr)
  | available (semaphore : Expr)
  | waiting (semaphore : Expr)
deriving Repr

/-- Operations on a queue. -/
inductive QueueRequest where
  | make (policy : Overflow)
  | take (queue : Expr)
  | offer (queue item : Expr)
  | offerAll (queue items : Expr)
  | size (queue : Expr)
deriving Repr

/-- Operations on fibers. -/
inductive FiberRequest where
  | join (fiber : Expr)
  | await (fiber : Expr)
  | interrupt (fiber : Expr)
  | state (fiber : Expr)
  /-- Interrupt the fiber of that name. -/
  | interruptNamed (fiber : Name)
deriving Repr

/-- The text of an effect. -/
inductive Program where
  | succeed (value : Expr)
  | fail (error : Expr)
  | abort (message : Expr)
  /-- Abort with a message fixed beforehand. -/
  | abortFixed
  /-- Abort with a defect without a message. -/
  | abortSealed (payload : Expr)
  | interrupted
  | caused (cause : Expr)
  | completed (exit : Expr)
  /-- Evaluate when the step is reached. -/
  | sync (value : Expr)
  /-- Evaluate when the step is reached; the condition decides whether the value is a result or an error. -/
  | trySync (condition value : Expr)
  /-- Build when the step is reached. -/
  | suspend (body : Program)
  | never
  | unitValue
  | sleep (delay : Nat)
  | log (value : Expr)
  /-- The yield budget of the loop. -/
  | budget
  /-- Whether the step runs on the loop. -/
  | onLoop
  /-- Block on a program from inside the loop. -/
  | blockOn (body : Program)
  /-- Queue a task on the loop. -/
  | dispatch (actions : List Action)
  /-- Register a callback. -/
  | async (register : List Action) (cancel : Option (List Action))
  /-- Register a callback and complete it with a value at once. -/
  | asyncTotal (register : List Action) (cancel : Option (List Action)) (value : Expr)
  | map (source : Program) (name : Name) (value : Expr)
  | chain (source : Program) (name : Name) (next : Program)
  | fold (source : Program) (name : Name) (onValue : Program) (causeName : Name) (onCause : Program)
  | chainError (source : Program) (name : Name) (handler : Program)
  | mapError (source : Program) (name : Name) (error : Expr)
  | result (source : Program)
  | zip (left right : Program)
  | zipWith (left right : Program) (leftName rightName : Name) (value : Expr)
  /-- Apply a function that the second program yields to the value of the first. -/
  | ap (argument function : Program) (argumentName functionName : Name) (value : Expr)
  | applyFirst (left right : Program)
  | applySecond (left right : Program)
  | asValue (source : Program) (value : Expr)
  | unit (source : Program)
  /-- Yield a description, then run it. -/
  | flatten (source : Program) (name : Name) (next : Program)
  | onInterrupted (source finalizer : Program)
  | uninterruptible (source : Program)
  | bracket (acquire : Program) (releaseName : Name) (release : Program) (useName : Name) (use : Program)
  | bracketExit (acquire : Program) (releaseName exitName : Name) (release : Program) (useName : Name)
      (use : Program)
  | race (left right : Program)
  | parZip (left right : Program)
  | parZipWith (left right : Program) (leftName rightName : Name) (value : Expr)
  /-- Decide while building which of two programs to build. -/
  | cond (condition : Expr) (yes no : Program)
  /-- Build the body of a definition. -/
  | call (definition : Name) (argument : Expr)
  | chainRepeat (count : Nat) (source : Program) (name : Name) (next : Program)
  | mapRepeat (count : Nat) (source : Program) (name : Name) (value : Expr)
  | chainErrorRepeat (count : Nat) (source : Program) (name : Name) (handler : Program)
  | maskRepeat (count : Nat) (source : Program)
  | fork (body : Program)
  | fiber (request : FiberRequest)
  /-- Complete the oldest callback kept under a key. -/
  | settleKept (key : Name) (how : Settlement) (value : Expr)
  | cell (request : CellRequest)
  | deferred (request : DeferredRequest)
  /-- Run a program and complete a deferred with its exit. -/
  | completeFrom (deferred : Expr) (source : Program)
  | semaphore (request : SemaphoreRequest)
  | withPermit (semaphore : Expr) (body : Program)
  | queue (request : QueueRequest)
  /-- Redeem a ticket with the given acquisition and cleanup. -/
  | ticket (acquire cleanup : Program)
  /-- Redeem a ticket that is granted with the given value. -/
  | ticketGranted (value : Expr) (cleanup : Program)
  /-- Run both halves of a granted ticket. -/
  | ticketParts (value : Expr) (cleanup : Program)
deriving Repr, Inhabited

/-- A named program with one parameter. -/
structure Definition where
  param : Name
  body : Program
deriving Repr, Inhabited

end FiberLoop
