import FiberLoop.Exit
import FiberLoop.Mask
import FiberLoop.Syntax.Program

/-!
# Effect descriptions

An `Effect` is an inert tree of nine kinds of node; a fiber interprets it step by step. What a node calls
when its turn comes is a closure, and closures are data: a piece of syntax together with the environment it was
met in, or one of the closures of the library's own combinators and primitives.

The kinds of closure, by what they are given and what they yield:

| closure | given | yields |
|---|---|---|
| `Thunk` | nothing | what to do next |
| `Operation` | nothing | a value |
| `Continuation` | a value | what to do next |
| `Recovery` | a cause | what to do next |
| `Transform` | a value | a value |
| `Combine` | two values | a value |
| `Release` | a resource and an exit | an effect |
| `Registration` | a callback | how to cancel |

Values, effects and closures refer to each other: a value may be an effect, an effect holds closures, and
closures hold values.
-/

namespace FiberLoop

/-- A fiber, by its place in the order of creation. -/
structure FiberId where
  index : Nat
deriving DecidableEq, Repr, Inhabited

/-- A cell. -/
structure CellId where
  index : Nat
deriving DecidableEq, Repr, Inhabited

/-- A deferred. -/
structure DeferredId where
  index : Nat
deriving DecidableEq, Repr, Inhabited

/-- A semaphore. -/
structure SemaphoreId where
  index : Nat
deriving DecidableEq, Repr, Inhabited

/-- A queue. -/
structure QueueId where
  index : Nat
deriving DecidableEq, Repr, Inhabited

mutual

/-- What effects yield and closures are given. -/
inductive Value where
  | null
  | bool (value : Bool)
  | int (value : Int)
  | str (value : String)
  | list (items : List Value)
  | exit (exit : Exit Value Value)
  | cause (cause : Cause Value)
  | cell (id : CellId)
  | deferred (id : DeferredId)
  | semaphore (id : SemaphoreId)
  | queue (id : QueueId)
  | fiber (id : FiberId)
  /-- A description that has not been run. -/
  | effect (description : Effect)
  /-- A pending grant: how to wait for it, and how to undo it. -/
  | ticket (acquire cleanup : Effect)
  | function (param : Name) (body : Expr) (env : Env)

/-- The bindings in scope, innermost first. -/
inductive Env where
  | empty
  | bind (name : Name) (value : Value) (outer : Env)

/-- An inert description of an effect. -/
inductive Effect where
  /-- Yield a value. -/
  | succeeded (value : Value)
  /-- Stop with a cause. -/
  | caused (cause : Cause Value)
  /-- Go on with an exit. -/
  | complete (exit : Exit Value Value)
  /-- Run a closure that says what to do next. -/
  | suspend (thunk : Thunk)
  /-- Register a callback and wait until it is completed. -/
  | async (registration : Registration)
  /-- Hand the value to a closure; a cause passes. -/
  | chain (source : Effect) (next : Continuation)
  /-- Hand the value to one closure, or the cause to another. -/
  | fold (source : Effect) (onValue : Continuation) (onCause : Recovery)
  /-- Yield the loop that the fiber runs on; nothing can be read from it directly. -/
  | currentLoop
  /-- Run a body inside a region. -/
  | region (body : Effect) (status : Interruptibility)

/-- The closure of a suspended step. -/
inductive Thunk where
  /-- Evaluate and yield the value. -/
  | eval (value : Expr) (env : Env)
  /-- Evaluate; the condition decides between a value and a failure. -/
  | tryEval (condition value : Expr) (env : Env)
  /-- Build a program and go on with it. -/
  | build (body : Program) (env : Env)
  /-- Go on with an exit. -/
  | resume (exit : Exit Value Value)
  /-- Hand a value to a continuation. -/
  | continue (next : Continuation) (value : Value)
  /-- Yield a value. -/
  | yield (value : Value)
  /-- Perform an operation and yield its value. -/
  | perform (operation : Operation)

/-- An operation that takes effect at once. -/
inductive Operation where
  | log (value : Expr) (env : Env)
  | settleKept (key : Name) (how : Settlement) (value : Expr) (env : Env)
  | interruptNamed (fiber : Name)
  | interruptFiber (fiber : FiberId)
  | fiberState (fiber : FiberId)
  | fork (body : Effect)
  | makeCell (initial : Value)
  | getCell (cell : CellId)
  | setCell (cell : CellId) (value : Value)
  | updateCell (cell : CellId) (name : Name) (value : Expr) (env : Env)
  | updateAndGetCell (cell : CellId) (name : Name) (value : Expr) (env : Env)
  | modifyCell (cell : CellId) (name : Name) (value result : Expr) (env : Env)
  | makeDeferred
  | completeDeferred (deferred : DeferredId) (exit : Exit Value Value)
  | isCompleted (deferred : DeferredId)
  | pollDeferred (deferred : DeferredId)
  | makeSemaphore (permits : Nat)
  /-- Take a permit or a place in the line, and yield the ticket for it. -/
  | requestPermit (semaphore : SemaphoreId)
  | tryAcquire (semaphore : SemaphoreId)
  | releasePermit (semaphore : SemaphoreId)
  | availablePermits (semaphore : SemaphoreId)
  | waitingForPermit (semaphore : SemaphoreId)
  /-- Give up a place in the line for a permit. -/
  | abandonPermit (semaphore : SemaphoreId) (latch : DeferredId)
  | makeQueue (policy : Overflow)
  /-- Take an item or a place in the line, and yield the ticket for it. -/
  | requestItem (queue : QueueId)
  | offerItem (queue : QueueId) (item : Value)
  | queueSize (queue : QueueId)
  /-- Return an item that was taken and never delivered. -/
  | putBackItem (queue : QueueId) (item : Value)
  /-- Give up a place in the line for an item. -/
  | abandonItem (queue : QueueId) (latch : DeferredId)

/-- The closure of a chain, and of a fold whose source yields a value. -/
inductive Continuation where
  /-- Yield the transformed value. -/
  | transform (f : Transform)
  /-- Build a program with the value bound. -/
  | build (name : Name) (body : Program) (env : Env)
  /-- Go on with an effect, whatever the value. -/
  | proceed (next : Effect)
  /-- Run a second effect and combine its value with this one. -/
  | combineWith (right : Effect) (f : Combine)
  /-- Combine with the value of the first effect. -/
  | combineLeft (left : Value) (f : Combine)
  /-- Run the effect that the value is. -/
  | run
  /-- Go on with the exit that the value is. -/
  | adopt
  /-- Use a resource, then release it. -/
  | useResource (release : Release) (use : Continuation)
  /-- Release a resource after its use ended with the exit that the value is. -/
  | releaseResource (release : Release) (resource : Value)
  /-- Complete a deferred with the exit that the value is. -/
  | completeDeferred (deferred : DeferredId)
  /-- Wait on the ticket that the value is. -/
  | awaitTicket
  /-- Stop with a cause, whatever the value. -/
  | stop (cause : Cause Value)

/-- The closure of a fold whose source ends with a cause. -/
inductive Recovery where
  /-- Build a program with the cause bound. -/
  | build (name : Name) (body : Program) (env : Env)
  /-- Hand an expected failure to a continuation; other causes pass. -/
  | onFailed (handler : Continuation)
  /-- Transform an expected failure; other causes pass. -/
  | mapFailed (f : Transform)
  /-- Yield the exit with the cause as a value. -/
  | reify
  /-- Run a finalizer after interruption and stay interrupted; other causes pass. -/
  | finalize (finalizer : Effect)

/-- A function of one value. -/
inductive Transform where
  | eval (name : Name) (value : Expr) (env : Env)
  | const (value : Value)
  | same
  /-- The exit with the value. -/
  | reify
  /-- The description that a program builds. -/
  | build (name : Name) (body : Program) (env : Env)
  /-- A function that remembers the value. -/
  | lambda (param name : Name) (value : Expr) (env : Env)
  /-- The yield budget of the loop. -/
  | budget
  /-- Whether the step runs on the loop. -/
  | onLoop
  /-- Block on an effect from inside the loop. -/
  | blockOn (body : Effect)
  /-- Queue a task on the loop. -/
  | dispatch (actions : List Action) (env : Env)

/-- A function of two values. -/
inductive Combine where
  | eval (leftName rightName : Name) (value : Expr) (env : Env)
  | pair
  | first
  /-- Call the second, a function, with the first. -/
  | call

/-- The closure that releases a resource. -/
inductive Release where
  /-- Build a program with the resource bound, and the exit too if it has a name. -/
  | build (name : Name) (exitName : Option Name) (body : Program) (env : Env)
  /-- The same effect for every resource and exit. -/
  | const (effect : Effect)
  /-- An effect after interruption, nothing otherwise. -/
  | ifInterrupted (effect : Effect)
  /-- The cleanup of the ticket that the resource is, after interruption; nothing otherwise. -/
  | cleanup

/-- The closure that registers a callback. -/
inductive Registration where
  | never
  /-- Run actions with the callback at hand. -/
  | actions (register : List Action) (cancel : Option (List Action)) (env : Env)
  /-- Run actions, then complete with a value. -/
  | total (register : List Action) (cancel : Option (List Action)) (value : Expr) (env : Env)
  /-- Complete after a delay. -/
  | timer (delay : Nat)
  /-- Wait for a deferred. -/
  | deferred (deferred : DeferredId)
  /-- Wait for the exit of a fiber. -/
  | exitOf (fiber : FiberId)
  /-- Run two effects and keep the first exit. -/
  | race (left right : Effect)
  /-- Run two effects and combine their values. -/
  | parZip (left right : Effect) (f : Combine)

end

instance : Inhabited Value := ⟨.null⟩
instance : Inhabited Env := ⟨.empty⟩
instance : Inhabited Effect := ⟨.currentLoop⟩

namespace Env

/-- The innermost binding of a name. -/
def lookup (name : Name) : Env → Option Value
  | .empty => none
  | .bind n v outer => if n = name then some v else outer.lookup name

@[simp] theorem lookup_bind_self (name : Name) (v : Value) (env : Env) :
    (Env.bind name v env).lookup name = some v := by
  simp [lookup]

theorem lookup_bind_of_ne {n name : Name} (h : n ≠ name) (v : Value) (env : Env) :
    (Env.bind n v env).lookup name = env.lookup name := by
  simp [lookup, h]

end Env

namespace Value

/-- The value of a constant. -/
def ofDatum : Datum → Value
  | .null => .null
  | .bool b => .bool b
  | .int n => .int n
  | .str s => .str s
  | .list items => .list (items.map ofDatum)

/-- An optional value; its absence is null. -/
def ofOption : Option Value → Value
  | none => .null
  | some v => v

def pair (a b : Value) : Value := .list [a, b]

mutual

/-- Structural equality of data; handles of cells and deferreds are equal if they name the same one, and
no other handle, function or description is equal to anything. -/
def equal : Value → Value → Bool
  | .null, .null => true
  | .bool a, .bool b => a == b
  | .int a, .int b => a == b
  | .str a, .str b => a == b
  | .list as, .list bs => equalList as bs
  | .exit a, .exit b => equalExit a b
  | .cause a, .cause b => equalCause a b
  | .cell a, .cell b => a == b
  | .deferred a, .deferred b => a == b
  | _, _ => false

/-- Equality of lists, item by item. -/
def equalList : List Value → List Value → Bool
  | [], [] => true
  | a :: as, b :: bs => equal a b && equalList as bs
  | _, _ => false

/-- Equality of exits. -/
def equalExit : Exit Value Value → Exit Value Value → Bool
  | .value a, .value b => equal a b
  | .cause a, .cause b => equalCause a b
  | _, _ => false

/-- Equality of causes. -/
def equalCause : Cause Value → Cause Value → Bool
  | .failed a, .failed b => equal a b
  | .aborted a, .aborted b => a == b
  | .interrupted, .interrupted => true
  | _, _ => false

end

end Value

namespace Effect

/-- The name of a node's kind. -/
def tag : Effect → String
  | .succeeded _ => "succeeded"
  | .caused _ => "caused"
  | .complete _ => "complete"
  | .suspend _ => "suspend"
  | .async _ => "async"
  | .chain .. => "chain"
  | .fold .. => "fold"
  | .currentLoop => "get-runtime"
  | .region .. => "region"

/-- The debug form shows the kind of the outermost node. -/
def debug (e : Effect) : String := "IO(" ++ e.tag ++ ")"

end Effect

end FiberLoop
