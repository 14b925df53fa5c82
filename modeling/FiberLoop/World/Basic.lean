import FiberLoop.Config
import FiberLoop.Fiber.State
import FiberLoop.Table

/-!
# The world

Everything that a run can observe or change: two loops, each with an inbox and timers, and what they have in
common: the clock, the fibers, the stores, and the session around them (named things, kept callbacks and a log).

The inbox is a list with the next message first. Tables never lose rows, so an identifier that was handed out
stays valid.

Only one of the loops runs at a time. It is the `loop` of the world; the other one stands `aside` and is
still sent the tasks of the fibers that it runs (`dispatchTo`). `switch_switch` says that changing over twice
is the same as not changing over.
-/

namespace FiberLoop

/-- A piece of work for the loop. -/
inductive Task where
  /-- Begin a fiber. -/
  | start (fiber : FiberId)
  /-- Go on with a fiber that yielded or was resumed. -/
  | resume (fiber : FiberId) (run : Run) (next : Next)
  /-- Cancel what an interrupted fiber waited for and unwind it. -/
  | unwind (fiber : FiberId) (canceler : Canceler) (run : Run)
  /-- Complete a callback with a value. -/
  | succeed (callback : Callback) (value : Value)
  | actions (actions : List Action) (env : Env)

/-- What comes into the loop. -/
inductive Message where
  | task (task : Task)
  /-- A request to run a task at a time. -/
  | timer (deadline : Nat) (timer : TimerId) (task : Task)
  | shutdown

/-- A timer that the loop holds. -/
structure Timer where
  deadline : Nat
  /-- The place in the order of arrival at the loop. -/
  arrival : Nat
  timer : TimerId
  task : Task

/-- Whether a timer goes before another one. -/
def Timer.before (a b : Timer) : Bool :=
  a.deadline < b.deadline || (a.deadline == b.deadline && a.arrival < b.arrival)

/-- A loop: a queue of messages, and the timers in the order in which they run. -/
structure EventLoop where
  config : Config := {}
  inbox : List Message := []
  timers : List Timer := []
  /-- The number of timers that have arrived. -/
  arrivals : Nat := 0
  /-- The number of tasks that were ever queued. -/
  dispatched : Nat := 0
  /-- Whether the loop was asked to stop. -/
  shutDown : Bool := false
  /-- Whether the loop has stopped. -/
  stopped : Bool := false

/-- Queue a task behind everything that is queued. -/
def EventLoop.queue (task : Task) (l : EventLoop) : EventLoop :=
  { l with inbox := l.inbox ++ [.task task], dispatched := l.dispatched + 1 }

/-- A write-once cell: who waits for it, or its exit. -/
inductive Deferred where
  /-- The waiters with their keys in the order of arrival, and the key for the next one. -/
  | pending (waiters : List (Nat × Callback)) (nextKey : Nat)
  | done (exit : Exit Value Value)

namespace Deferred

/-- A deferred that nobody waits for. -/
def fresh : Deferred := .pending [] 0

def exit? : Deferred → Option (Exit Value Value)
  | .pending .. => none
  | .done exit => some exit

end Deferred

/-- Free permits, and the latches of those who wait for one in the order of arrival. -/
structure Semaphore where
  permits : Nat
  waiters : List DeferredId := []

/-- The two sides of a queue, which are never there at once. -/
inductive QueueState where
  /-- The latches of those who wait for an item in the order of arrival. -/
  | waiting (latches : List DeferredId)
  /-- The items, oldest first. -/
  | ready (items : List Value)

/-- A queue; a bounded one has a gate with a permit for each free place. -/
structure Queue where
  policy : Overflow
  gate : Option SemaphoreId
  state : QueueState := .ready []

/-- A race; the callback is there until the first exit. -/
structure Race where
  callback : Option Callback
  fibers : List FiberId := []

/-- Two fibers whose values are combined; the callback is there until the pairing has ended. -/
structure Pairing where
  callback : Option Callback
  left : Option Value := none
  right : Option Value := none
  fibers : List FiberId := []
  combine : Combine

/-- The shared stores. -/
structure Stores where
  cells : Table Value := {}
  deferreds : Table Deferred := {}
  semaphores : Table Semaphore := {}
  queues : Table Queue := {}
  races : Table Race := {}
  pairings : Table Pairing := {}
  /-- For each timer whether it was cancelled. -/
  timers : Table Bool := {}
  /-- The serial number for the next defect without a message. -/
  nextSerial : Nat := 0

/-- A line of the log. -/
inductive LogEntry where
  | value (value : Value)
  /-- A fiber exited. -/
  | exited (name : Name) (exit : Exit Value Value)
  /-- A listener was told an exit. -/
  | noted (tag : Name) (exit : Exit Value Value)

/-- What a session knows by name. -/
structure Session where
  definitions : List (Name × Definition) := []
  globals : List (Name × Value) := []
  /-- The named fibers in the order of creation. -/
  fibers : List (Name × FiberId) := []
  /-- The kept callbacks with their keys, oldest first. -/
  kept : List (Name × Callback) := []
  /-- The cancelers of named timers. -/
  cancelers : List (Name × Canceler) := []
  /-- The log, newest line first. -/
  log : List LogEntry := []
  /-- The exits delivered to each outbox. -/
  outboxes : Table (Option (Exit Value Value)) := {}

/-- The whole state of a run. -/
structure World where
  /-- The loop that runs now. -/
  loop : EventLoop := {}
  /-- The name of the loop that runs now. -/
  here : LoopName := .own
  /-- The other loop. -/
  aside : EventLoop := {}
  /-- The time in milliseconds. -/
  clock : Nat := 0
  fibers : Table Fiber := {}
  stores : Stores := {}
  session : Session := {}
  /-- The number of throws that were caught. -/
  caughtThrows : Nat := 0

instance : Inhabited World := ⟨{}⟩

/-- A computation on the world that may throw; what it did before it threw stays done. -/
abbrev Act (α : Type) := ExceptT Defect (StateM World) α

namespace World

/-! ## Parts of the world -/

def fiber? (w : World) (f : FiberId) : Option Fiber := w.fibers.get? f.index

/-- Change the record of a fiber. -/
def modifyFiber (w : World) (f : FiberId) (change : Fiber → Fiber) : World :=
  { w with fibers := w.fibers.modify f.index change }

/-- Add a line to the log. -/
def log (entry : LogEntry) (w : World) : World :=
  { w with session := { w.session with log := entry :: w.session.log } }

/-- Queue a task on the loop that runs now. -/
def dispatch (task : Task) (w : World) : World := { w with loop := w.loop.queue task }

/-- Queue a task on the loop of that name. -/
def dispatchTo (name : LoopName) (task : Task) (w : World) : World :=
  if name = w.here then w.dispatch task else { w with aside := w.aside.queue task }

/-- Let the loops change places. -/
def switch (w : World) : World := { w with loop := w.aside, here := w.here.other, aside := w.loop }

/-- Ask for a task to be run after a delay, and name the timer. -/
def schedule (delay : Nat) (task : Task) (w : World) : TimerId × World :=
  let timer : TimerId := ⟨w.stores.timers.size⟩
  (timer, { w with
    stores := { w.stores with timers := w.stores.timers.push false }
    loop := { w.loop with
      inbox := w.loop.inbox ++ [.timer (w.clock + delay) timer task] } })

/-- Keep a timer from running its task. -/
def cancelTimer (timer : TimerId) (w : World) : World :=
  { w with stores := { w.stores with timers := w.stores.timers.set timer.index true } }

/-- Ask the loop to stop once it has come to this point of its inbox; asking again changes nothing. -/
def requestShutdown (w : World) : World :=
  if w.loop.shutDown then w
  else { w with loop := { w.loop with shutDown := true, inbox := w.loop.inbox ++ [.shutdown] } }

/-- A serial number that no defect carries yet. -/
def freshSerial (w : World) : Nat × World :=
  (w.stores.nextSerial,
    { w with stores := { w.stores with nextSerial := w.stores.nextSerial + 1 } })

@[simp] theorem switch_switch (w : World) : w.switch.switch = w := by simp [switch]

/-- A task for the other loop is queued there. -/
theorem dispatchTo_other (w : World) (task : Task) :
    w.dispatchTo w.here.other task = (w.switch.dispatch task).switch := by
  have h : w.here.other ≠ w.here := by cases w.here <;> decide
  simp [dispatchTo, h, switch, dispatch]

end World

namespace Act

variable {α : Type}

/-- Change the world. -/
def update (f : World → World) : Act Unit := modify f

/-- Change the world and yield a result. -/
def updateGet (f : World → α × World) : Act α := modifyGet f

/-- Throw a text. -/
def throwText (message : String) : Act α := throw (.text message)

/-- Run a computation to its end, whether it returns or throws; a throw is counted. -/
def caught (act : Act α) (w : World) : Except Defect α × World :=
  match act.run w with
  | (.ok a, w) => (.ok a, w)
  | (.error d, w) => (.error d, { w with caughtThrows := w.caughtThrows + 1 })

/-- Run a computation for what it does; a throw is counted and forgotten. -/
def attempt (act : Act α) (w : World) : World := (act.caught w).2

end Act

end FiberLoop
