import FiberLoop.Loop.Pass
import FiberLoop.World.Debug

/-!
# Scenarios

A scenario is a list of operations that run on the loop, one after the other, inside one task. Only three of them
let the loop go on: a number of rounds, coming to rest, and advancing the clock. After each operation the result,
what was logged meanwhile and the states of all named fibers are recorded.

A throw ends its operation and nothing else. If the loop stops while it is let go on, the scenario ends there.
-/

namespace FiberLoop

/-- An operation of a scenario. -/
inductive ScenarioOp where
  /-- Run a program on a named fiber and log its exit; perhaps throw after logging. -/
  | run (name : Name) (body : Program) (throws : Bool)
  /-- Fork a program on a named fiber, and perhaps log its exit. -/
  | fork (name : Name) (body : Program) (reports : Bool)
  /-- Log the exit of a fiber under a tag. -/
  | onExit (name tag : Name)
  /-- Tell all about a forked fiber. -/
  | poll (name : Name)
  | fiberNumber (name : Name)
  | isDone (name : Name)
  | interrupt (name : Name)
  | settle
  | rounds (count : Nat)
  | advance (milliseconds : Nat)
  | setGlobal (name : Name) (value : Expr)
  | newCell (name : Name) (initial : Expr)
  | newDeferred (name : Name)
  | newSemaphore (name : Name) (permits : Nat)
  | newQueue (name : Name) (policy : Overflow)
  | settleKept (key : Name) (how : Settlement) (value : Expr)
  | dropKept (key : Name)
  | debugKept (key : Name)
  | act (actions : List Action)
  | dispatch (actions : List Action)
  /-- Run actions after a delay and keep the canceler under a name. -/
  | after (name : Name) (delay : Nat) (actions : List Action)
  | cancel (name : Name)
  | eval (value : Expr)
  | debug (value : Expr)
  | debugHandle (name : Name)
  | dispatched
  | caughtThrows
  | loopInfo
  | shutdown
deriving Repr

/-- What is told about a forked fiber. -/
structure FiberReport where
  /-- The exit in the fiber's notice. -/
  exit : Option (Exit Value Value)
  /-- Whether the notice holds an exit. -/
  exited : Bool
  /-- Whether the fiber itself is done. -/
  done : Bool
  terminal : Bool
  number : Nat

/-- The result of an operation. -/
inductive Answer where
  | value (value : Value)
  | fiber (report : FiberReport)
  | loopInfo (onLoop : Bool) (thread : String) (shutDown : Bool)
  /-- The operation threw. -/
  | thrown (message : String)
  /-- The loop did not come to rest. -/
  | busy

/-- What is recorded after an operation. -/
structure StepRecord where
  answer : Answer
  log : List LogEntry
  /-- The named fibers in the order of creation. -/
  states : List (Name × FiberState)

namespace World

/-- Take everything that was logged since the log was last taken. -/
def takeLog (w : World) : List LogEntry × World :=
  (w.session.log.reverse, { w with session := { w.session with log := [] } })

/-- The states of the named fibers. -/
def namedStates (w : World) : List (Name × FiberState) :=
  w.session.fibers.map fun entry => (entry.1, w.fiberState entry.2)

/-- Take the canceler kept under a name. -/
def takeCanceler (name : Name) (w : World) : Option Canceler × World :=
  (w.session.cancelers.lookup name,
    { w with session := { w.session with
        cancelers := w.session.cancelers.filter (·.1 != name) } })

/-- Keep a canceler under a name, in place of the one that was there. -/
def keepCanceler (name : Name) (canceler : Canceler) (w : World) : World :=
  { w with session := { w.session with
      cancelers := (name, canceler) :: w.session.cancelers.filter (·.1 != name) } }

/-- All about a forked fiber. -/
def fiberReport (w : World) (f : FiberId) : FiberReport :=
  let exit := (w.fiber? f).bind Fiber.exit?
  { exit := exit
    exited := exit.isSome
    done := (w.fiber? f).any Fiber.isDone
    terminal := (w.fiberState f).isTerminal
    number := f.number }

end World

namespace ScenarioOp

/-- The global of a name, which must be a fiber. -/
def globalFiber (name : Name) : Act FiberId := do (← Act.resolve .empty name).asFiber

/-- Set a global to something new. -/
def bindNew {α : Type} (name : Name) (wrap : α → Value) (make : World → α × World) : Act Answer := do
  let id ← Act.updateGet make
  Act.update (World.setGlobal name (wrap id))
  return .value .null

/-- Do an operation that does not let the loop go on. -/
def perform : ScenarioOp → Act Answer
  | .run name body throws => do
    let root ← body.build .empty
    let f ← Act.updateGet (World.launch root (.report name throws) none)
    Act.update (World.nameFiber name f)
    return .value .null
  | .fork name body reports => do
    let root ← body.build .empty
    let f ← Act.updateGet (World.fork root)
    Act.update (World.setGlobal name (.fiber f))
    Act.update (World.nameFiber name f)
    if reports then
      let _ ← World.listen f (.report name)
    return .value .null
  | .onExit name tag => do
    let f ← globalFiber name
    let _ ← World.listen f (.note tag)
    return .value .null
  | .poll name => do
    let f ← globalFiber name
    return .fiber ((← get).fiberReport f)
  | .fiberNumber name => return .value (.int (← World.fiberNamed name).number)
  | .isDone name => do
    let f ← World.fiberNamed name
    return .value (.bool (((← get).fiber? f).any Fiber.isDone))
  | .interrupt name => do
    let f ← World.fiberNamed name
    Act.update (World.interrupt f)
    return .value .null
  | .setGlobal name value => do
    let v ← value.eval .empty
    Act.update (World.setGlobal name v)
    return .value .null
  | .newCell name initial => do
    let v ← initial.eval .empty
    bindNew name .cell (World.makeCell v)
  | .newDeferred name => bindNew name .deferred World.makeDeferred
  | .newSemaphore name permits => bindNew name .semaphore (World.makeSemaphore permits)
  | .newQueue name policy => bindNew name .queue (World.makeQueue policy)
  | .settleKept key how value => do
    let v ← value.eval .empty
    return .value (.bool (← Act.settleKept key how v))
  | .dropKept key => return .value (.bool (← Act.updateGet (World.takeKept key)).isSome)
  | .debugKept key => do
    let callback := (← get).session.kept.lookup key
    return .value (callback.elim .null fun cb => .str cb.debug)
  | .act actions => do
    Action.runAll .empty none actions
    return .value .null
  | .dispatch actions => do
    Act.update (World.dispatch (.actions actions .empty))
    return .value .null
  | .after name delay actions => do
    let timer ← Act.updateGet (World.schedule delay (.actions actions .empty))
    Act.update (World.keepCanceler name (.timer timer))
    return .value .null
  | .cancel name => do
    match ← Act.updateGet (World.takeCanceler name) with
    | none => return .value (.bool false)
    | some canceler =>
      canceler.cancel
      return .value (.bool true)
  | .eval value => return .value (← value.eval .empty)
  | .debug value => return .value (.str (← (← value.eval .empty).debugText))
  | .debugHandle name => do
    let f ← World.fiberNamed name
    return .value (.str ((← get).debugHandle f))
  | .dispatched => return .value (.int (← get).loop.dispatched)
  | .caughtThrows => return .value (.int (← get).caughtThrows)
  | .loopInfo => do
    let w ← get
    return .loopInfo true w.loop.config.threadName w.loop.shutDown
  | .shutdown => do
    Act.update World.requestShutdown
    return .value .null
  | .settle | .rounds _ | .advance _ => return .value .null

/-- The answer of a stretch in which the loop went on. -/
def restAnswer (result : Bool × World) : Answer × World :=
  (if result.1 then .value .null else .busy, result.2)

/-- Run an operation. A throw becomes its answer and is not counted. -/
def carryOut (op : ScenarioOp) (w : World) : Answer × World :=
  match op with
  | .settle => restAnswer w.comeToRest
  | .rounds count => (.value .null, w.rounds count)
  | .advance milliseconds => restAnswer (w.advance milliseconds)
  | op =>
    match op.perform.run w with
    | (.ok answer, w) => (answer, w)
    | (.error d, w) => (.thrown (d.message?.getD ""), w)

end ScenarioOp

namespace Scenario

/-- Run operations in order. The records end where the loop stops; the second part tells whether it did. -/
def runAll : List ScenarioOp → World → List StepRecord × Bool
  | [], _ => ([], false)
  | op :: rest, w =>
    let (answer, w) := op.carryOut w
    if w.loop.stopped then ([], true)
    else
      let (log, w) := w.takeLog
      let (records, stopped) := runAll rest w
      ({ answer := answer, log := log, states := w.namedStates } :: records, stopped)

/-- The world in which a scenario starts. -/
def initial (config : Config) (definitions : List (Name × Definition)) : World :=
  { loop := { config := config }, session := { definitions := definitions } }

/-- Run a scenario. -/
def run (config : Config) (definitions : List (Name × Definition)) (ops : List ScenarioOp) :
    Except StartError (List StepRecord × Bool) := do
  let config ← config.accept
  return runAll ops (initial config definitions)

end Scenario

end FiberLoop
