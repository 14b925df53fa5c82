import FiberLoop.Scenario

/-!
# Calls from outside the loops

The operations here are made by a thread that is no loop's: it starts programs, waits for their exits, and lets
the loops come to rest after each step. While it waits, time passes, so the clock moves on to the next timer
whenever no loop has anything else to do.

Some operations use the loop that is shared by the whole process, which has the default configuration and
is never asked to stop. The two loops run the same definitions and see the same stores, kept callbacks and log; a
callback of a fiber of one loop may be completed on the other, and the fiber goes on at home.

A loop that has stopped drops what is queued on it; whoever waits for an exit then gets a defect.
-/

namespace FiberLoop

namespace EventLoop

/-- Whether a loop has nothing to do but to wait for a time. -/
def isIdle (l : EventLoop) : Bool := l.stopped || l.inbox.isEmpty

/-- The deadline for which a loop waits. -/
def nextDeadline? (l : EventLoop) : Option Nat :=
  if l.stopped then none else l.timers.head?.map Timer.deadline

end EventLoop

namespace World

/-- Whether both loops have nothing to do but to wait for a time. -/
def isIdle (w : World) : Bool := w.loop.isIdle && w.aside.isIdle

/-- The earliest deadline for which a loop waits. -/
def nextDeadline? (w : World) : Option Nat := w.loop.nextDeadline?.merge min w.aside.nextDeadline?

/-- One pass of each loop. -/
def passBoth (w : World) : World := w.pass.switch.pass.switch

/-- Let both loops go on until something has come about, or the loop that runs now has stopped, or nothing can
happen any more. -/
def passTo (limit : Nat) (finished : World → Bool) (w : World) : World :=
  match limit with
  | 0 => w
  | limit + 1 =>
    if finished w || w.loop.stopped then w
    else if w.isIdle then
      match w.nextDeadline? with
      | none => w
      | some deadline => passTo limit finished { w with clock := max w.clock deadline }.passBoth
    else passTo limit finished w.passBoth

/-- Let both loops come to rest, one after the other, until neither has left anything for the other to do. A loop
that does not come to rest ends it. -/
def restBoth : Nat → World → World
  | 0, w => w
  | n + 1, w =>
    let (here, w) := w.comeToRest
    let (there, w) := w.switch.comeToRest
    let w := w.switch
    if here && there && !w.isIdle then restBoth n w else w

/-- The number of passes after which nobody waits any longer. -/
def patience : Nat := 1000000000000

/-- The exit in an outbox. -/
def outbox? (w : World) (outbox : Nat) : Option (Exit Value Value) :=
  (w.session.outboxes.get? outbox).join

/-- A new outbox. -/
def makeOutbox (w : World) : Nat × World :=
  (w.session.outboxes.size,
    { w with session := { w.session with outboxes := w.session.outboxes.push none } })

/-- Start an effect whose exit goes to a new outbox. -/
def launchDelivering (root : Effect) (w : World) : Nat × FiberId × World :=
  let (outbox, w) := w.makeOutbox
  let (f, w) := w.launch root (.deliver outbox) none
  (outbox, f, w)

/-- Wait until an outbox is filled or the loop has stopped. -/
def await (outbox : Nat) (w : World) : World := w.passTo patience fun w => (w.outbox? outbox).isSome

/-- The exit for somebody whose fiber was dropped. -/
def droppedExit : Exit Value Value := .aborted (.literal "fiber dropped before exiting")

/-- Run an effect and block until it has exited. -/
def blockOn (root : Effect) (w : World) : Exit Value Value × World :=
  let (outbox, _, w) := w.launchDelivering root
  let w := w.await outbox
  ((w.outbox? outbox).getD droppedExit, w)

end World

/-- An operation from outside the loops. -/
inductive OutsideOp where
  | blockOn (loop : LoopName) (body : Program)
  | runFuture (loop : LoopName) (body : Program)
  | runFutureTotal (loop : LoopName) (body : Program)
  | runCallback (loop : LoopName) (body : Program)
  | blockOnTwice (body : Program)
  | forkJoin (body : Program)
  | blockOnFromLoop (body : Program)
  | loopThreadName
  | after (delay : Nat)
  | config (loop : LoopName)
  | isLoopThread
  | isShutDown
  | shutdown
  | dispatched
  | debug
deriving Repr

/-- The result of an operation from outside. -/
inductive OutsideAnswer where
  | nothing
  | bool (value : Bool)
  | number (value : Nat)
  | text (value : String)
  | exit (exit : Exit Value Value)
  | exits (first second : Exit Value Value)
  /-- A value or a cause. -/
  | result (result : Except (Cause Value) Value)
  | callback (exit : Option (Exit Value Value)) (state : FiberState) (done : Bool)
  | joined (join await : Exit Value Value) (done : Bool) (poll : Option (Exit Value Value))
  | config (config : Config)
  /-- The loop has stopped, and what was queued on it never ran. -/
  | dropped
  | thrown (message : String)

/-- What is recorded after an operation from outside. -/
structure OutsideRecord where
  answer : OutsideAnswer
  log : List LogEntry

namespace Outside

/-- Run an effect with `use` once its program is built; a throw while building is the answer. -/
def withEffect (body : Program) (w : World) (use : Effect → World → OutsideAnswer × World) :
    OutsideAnswer × World :=
  match (body.build .empty).run w with
  | (.ok root, w) => use root w
  | (.error d, w) => (.thrown (d.message?.getD ""), w)

/-- Run an effect and answer what its callback was given and how the fiber stands. -/
def runCallback (root : Effect) (w : World) : OutsideAnswer × World :=
  let (outbox, f, w) := w.launchDelivering root
  let w := w.await outbox
  (.callback (w.outbox? outbox) (w.fiberState f) ((w.fiber? f).any Fiber.isDone), w)

/-- Fork an effect, join it, wait for its exit as a value, and ask for its exit. -/
def forkJoin (root : Effect) (w : World) : OutsideAnswer × World :=
  let (f, w) := w.fork root
  let (join, w) := w.blockOn (.join f)
  let (await, w) := w.blockOn (Effect.awaitExit f).convert
  let poll := (w.fiber? f).bind Fiber.exit?
  (.joined join await poll.isSome poll, w)

/-- Queue a task that does nothing to the world, and answer what it tells unless the loop has stopped. -/
def tellFromLoop (told : OutsideAnswer) (w : World) : OutsideAnswer × World :=
  let w := w.dispatch (.actions [] .empty)
  (if w.loop.stopped then .dropped else told, w)

/-- Ask the loop to stop and wait until it has. -/
def stopLoop (w : World) : World := w.requestShutdown.passTo World.patience fun _ => false

/-- Do an operation on the loop that runs now. -/
def act (op : OutsideOp) (w : World) : OutsideAnswer × World :=
  match op with
  | .blockOn _ body => withEffect body w fun root w => (w.blockOn root).map .exit id
  | .runFuture _ body => withEffect body w fun root w => (w.blockOn root).map (.result ·.toExcept) id
  | .runFutureTotal _ body => withEffect body w fun root w => (w.blockOn root).map .exit id
  | .runCallback _ body => withEffect body w runCallback
  | .blockOnTwice body => withEffect body w fun root w =>
    let (first, w) := w.blockOn root
    let (second, w) := w.blockOn root
    (.exits first second, w)
  | .forkJoin body => withEffect body w forkJoin
  | .blockOnFromLoop body => withEffect body w fun _ w =>
    tellFromLoop (.exit (.aborted (.literal "block_on called from the event-loop thread"))) w
  | .loopThreadName => tellFromLoop (.text w.loop.config.threadName) w
  | .after delay => (.bool (Canceler.timer (w.schedule delay (.actions [] .empty)).1).isNoop,
      (w.schedule delay (.actions [] .empty)).2)
  | .config _ => (.config w.loop.config, w)
  | .isLoopThread => (.bool false, w)
  | .isShutDown => (.bool w.loop.shutDown, w)
  | .shutdown => (.nothing, stopLoop w)
  | .dispatched => (.number w.loop.dispatched, w)
  | .debug => (.text w.debugLoop, w)

/-- The loop that an operation uses. -/
def loopName : OutsideOp → LoopName
  | .blockOn name _ | .runFuture name _ | .runFutureTotal name _ | .runCallback name _ | .config name => name
  | _ => .own

/-- Do something while the loop of that name is the one that runs. -/
def onLoop {α : Type} (name : LoopName) (use : World → α × World) (w : World) : α × World :=
  if name = w.here then use w
  else
    let (a, w) := use w.switch
    (a, w.switch)

/-- Do an operation, let the loops come to rest, and take what was logged. -/
def perform (op : OutsideOp) (w : World) : OutsideRecord × World :=
  let (answer, w) := onLoop (loopName op) (act op) w
  let (log, w) := (w.restBoth World.roundLimit).takeLog
  ({ answer := answer, log := log }, w)

/-- Do operations in order. -/
def performAll : List OutsideOp → World → List OutsideRecord
  | [], _ => []
  | op :: rest, w =>
    let (record, w) := perform op w
    record :: performAll rest w

/-- Run operations on fresh loops; the configuration is that of the own one. -/
def run (config : Config) (definitions : List (Name × Definition)) (ops : List OutsideOp) :
    Except StartError (List OutsideRecord) := do
  let config ← config.accept
  return performAll ops (Scenario.initial config definitions)

end Outside

end FiberLoop
