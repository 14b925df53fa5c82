import FiberLoop.Building
import FiberLoop.Stores.Cell

/-!
# What closures do

Each kind of closure is a computation on the world that may throw. None of them runs a step of a fiber: a closure
yields what comes next, and the fiber that called it goes on from there.
-/

namespace FiberLoop

/-- A closure met a value that the combinators never hand to it. -/
def Act.unexpectedValue {α : Type} : Act α := throw (.literal "value of an unexpected kind")

namespace Transform

/-- The transformed value. -/
def apply (f : Transform) (v : Value) : Act Value :=
  match f with
  | .eval name value env => value.eval (.bind name v env)
  | .const c => return c
  | .same => return v
  | .reify => return .exit (.value v)
  | .build name body env => return .effect (← body.build (.bind name v env))
  | .lambda param name value env => return .function param value (.bind name v env)
  | .budget => return .ofCount (← get).loop.config.yieldBudget
  | .onLoop => return .bool true
  | .blockOn _ => return .exit (.aborted (.literal "block_on called from the event-loop thread"))
  | .dispatch actions env => do
    Act.update (World.dispatch (.actions actions env))
    return .null

end Transform

namespace Combine

/-- The combined value. -/
def apply (f : Combine) (a b : Value) : Act Value :=
  match f with
  | .eval leftName rightName value env => value.eval (.bind rightName b (.bind leftName a env))
  | .pair => return .pair a b
  | .first => return a
  | .call =>
    match b with
    | .function param body env => body.eval (.bind param a env)
    | _ => Act.unexpectedValue

end Combine

namespace Release

/-- The effect that releases a resource after an exit. -/
def apply (release : Release) (resource : Value) (exit : Exit Value Value) : Act Effect :=
  match release with
  | .build name exitName body env => do
    let scope := Env.bind name resource env
    let scope := exitName.elim scope fun n => .bind n (.exit exit) scope
    return (← body.build scope).unit
  | .const e => return e
  | .ifInterrupted e => return if exit.isInterrupted then e else .unitValue
  | .cleanup =>
    match resource with
    | .ticket _ undo => return if exit.isInterrupted then undo else .unitValue
    | _ => Act.unexpectedValue

end Release

namespace Continuation

/-- What to do next with a value. -/
def apply (k : Continuation) (v : Value) : Act Next :=
  match k with
  | .transform f => return .value (← f.apply v)
  | .build name body env => return .eval (← body.build (.bind name v env))
  | .proceed next => return .eval next
  | .combineWith right f => return .eval (.chain right (.combineLeft v f))
  | .combineLeft left f => return .value (← f.apply left v)
  | .run =>
    match v with
    | .effect e => return .eval e
    | _ => Act.unexpectedValue
  | .adopt =>
    match v with
    | .exit exit => return .eval (.resume exit)
    | _ => Act.unexpectedValue
  | .useResource release use =>
    return .eval (.chain (Effect.suspend (.continue use v)).result (.releaseResource release v))
  | .releaseResource release resource =>
    match v with
    | .exit exit => return .eval ((← release.apply resource exit).andThen (.resume exit)).uninterruptible
    | _ => Act.unexpectedValue
  | .completeDeferred d =>
    match v with
    | .exit exit =>
      let done := (Effect.completeDeferred d exit).uninterruptible
      return .eval (if exit.isInterrupted then done.andThen .interrupted else done)
    | _ => Act.unexpectedValue
  | .awaitTicket =>
    match v with
    | .ticket acquire _ => return .eval acquire
    | _ => Act.unexpectedValue
  | .stop cause => return .cause cause

end Continuation

namespace Recovery

/-- What to do next with a cause. -/
def apply (r : Recovery) (c : Cause Value) : Act Next :=
  match r with
  | .build name body env => return .eval (← body.build (.bind name (.cause c) env))
  | .onFailed handler =>
    match c with
    | .failed e => handler.apply e
    | other => return .cause other
  | .mapFailed f =>
    match c with
    | .failed e => return .cause (.failed (← f.apply e))
    | other => return .cause other
  | .reify => return .value (.exit (.cause c))
  | .finalize finalizer =>
    match c with
    | .interrupted => return .eval (.chain finalizer (.stop .interrupted))
    | other => return .cause other

end Recovery

namespace Operation

/-- Do it, and yield its value. -/
def perform : Operation → Act Value
  | .log value env => do
    let v ← value.eval env
    Act.update (World.log (.value v))
    return .null
  | .settleKept key how value env => do
    let v ← value.eval env
    return .bool (← Act.settleKept key how v)
  | .interruptNamed name => do
    let f ← World.fiberNamed name
    Act.update (World.interrupt f)
    return .null
  | .interruptFiber f => do
    Act.update (World.interrupt f)
    return .null
  | .fiberState f => return ((← get).fiber? f).elim .null fun fiber => .str fiber.state.name
  | .fork body => return .fiber (← Act.updateGet (World.fork body))
  | .makeCell initial => return .cell (← Act.updateGet (World.makeCell initial))
  | .getCell c => return .ofOption ((← get).cell? c)
  | .setCell c value => do
    Act.update (World.setCell c value)
    return .null
  | .updateCell c name value env => do
    let old := Value.ofOption ((← get).cell? c)
    let new ← value.eval (.bind name old env)
    Act.update (World.setCell c new)
    return .null
  | .updateAndGetCell c name value env => do
    let old := Value.ofOption ((← get).cell? c)
    let new ← value.eval (.bind name old env)
    Act.update (World.setCell c new)
    return new
  | .modifyCell c name value result env => do
    let old := Value.ofOption ((← get).cell? c)
    let new ← value.eval (.bind name old env)
    Act.update (World.setCell c new)
    result.eval (.bind name old env)
  | .makeDeferred => return .deferred (← Act.updateGet World.makeDeferred)
  | .completeDeferred d exit => do
    let _ ← Act.updateGet (World.completeDeferred d exit)
    return .null
  | .isCompleted d => return .bool ((← get).pollDeferred d).isSome
  | .pollDeferred d => return ((← get).pollDeferred d).elim .null .exit
  | .makeSemaphore permits => return .semaphore (← Act.updateGet (World.makeSemaphore permits))
  | .requestPermit s => Act.updateGet (World.requestPermit s)
  | .tryAcquire s => return .bool (← Act.updateGet (World.tryAcquire s))
  | .releasePermit s => do
    Act.update (World.releasePermit s)
    return .null
  | .availablePermits s => return .ofCount ((← get).availablePermits s)
  | .waitingForPermit s => return .ofCount ((← get).waitingForPermit s)
  | .abandonPermit s latch => do
    Act.update (World.abandonPermit s latch)
    return .null
  | .makeQueue policy => return .queue (← Act.updateGet (World.makeQueue policy))
  | .requestItem q => Act.updateGet (World.requestItem q)
  | .offerItem q item => do
    Act.update (World.offerItem q item)
    return .null
  | .queueSize q => return .int ((← get).queueSize q)
  | .putBackItem q item => do
    Act.update (World.putBackItem q item)
    return .null
  | .abandonItem q latch => do
    Act.update (World.abandonItem q latch)
    return .null

end Operation

namespace Thunk

/-- What to do next. -/
def run : Thunk → Act Next
  | .eval value env => return .value (← value.eval env)
  | .tryEval condition value env => do
    let succeeds ← (← condition.eval env).asBool
    let v ← value.eval env
    return if succeeds then .value v else .cause (.failed v)
  | .build body env => return .eval (← body.build env)
  | .resume exit => return .ofExit exit
  | .continue next value => next.apply value
  | .yield value => return .value value
  | .perform operation => return .value (← operation.perform)

end Thunk

end FiberLoop
