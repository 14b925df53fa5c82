import FiberLoop.Evaluation

/-!
# Building descriptions from programs

`Program.build` composes the description that a program stands for. It evaluates the plain expressions and builds
the plain programs inside it at once, from left to right; closures take the environment with them and build
when they run.

A call builds the body of a definition on the spot, so definitions that call themselves outside every closure
would go on for ever; calls nest at most `callDepth` deep.
-/

namespace FiberLoop

namespace CellRequest

/-- The description of an operation on a cell. -/
def build (env : Env) : CellRequest → Act Effect
  | .make initial => return (Effect.perform (.makeCell (← initial.eval env))).convert
  | .get cell => return .perform (.getCell (← (← cell.eval env).asCell))
  | .set cell value => do
    let c ← (← cell.eval env).asCell
    return (Effect.perform (.setCell c (← value.eval env))).convert
  | .update cell name value => do
    let c ← (← cell.eval env).asCell
    return (Effect.perform (.updateCell c name value env)).convert
  | .updateAndGet cell name value => do
    let c ← (← cell.eval env).asCell
    return .perform (.updateAndGetCell c name value env)
  | .modify cell name value result => do
    let c ← (← cell.eval env).asCell
    return .perform (.modifyCell c name value result env)

end CellRequest

namespace DeferredRequest

/-- The description of an operation on a deferred. -/
def build (env : Env) : DeferredRequest → Act Effect
  | .make => return (Effect.perform .makeDeferred).convert
  | .wait deferred => return .awaitDeferred (← (← deferred.eval env).asDeferred)
  | .complete deferred exit => do
    let d ← (← deferred.eval env).asDeferred
    return (Effect.completeDeferred d (← (← exit.eval env).asExit)).convert
  | .done deferred value => do
    let d ← (← deferred.eval env).asDeferred
    return (Effect.completeDeferred d (.value (← value.eval env))).convert
  | .error deferred value => do
    let d ← (← deferred.eval env).asDeferred
    return (Effect.completeDeferred d (.failed (← value.eval env))).convert
  | .abort deferred message => do
    let d ← (← deferred.eval env).asDeferred
    return (Effect.completeDeferred d (.aborted (.text (← (← message.eval env).asText)))).convert
  | .interrupt deferred => do
    let d ← (← deferred.eval env).asDeferred
    return (Effect.completeDeferred d .interrupted).convert
  | .cause deferred value => do
    let d ← (← deferred.eval env).asDeferred
    return (Effect.completeDeferred d (.cause (← (← value.eval env).asCause))).convert
  | .isCompleted deferred => do
    return (Effect.perform (.isCompleted (← (← deferred.eval env).asDeferred))).convert
  | .poll deferred => do
    return (Effect.perform (.pollDeferred (← (← deferred.eval env).asDeferred))).convert

end DeferredRequest

namespace SemaphoreRequest

/-- The description of an operation on a semaphore. -/
def build (env : Env) : SemaphoreRequest → Act Effect
  | .make permits => return (Effect.perform (.makeSemaphore permits)).convert
  | .acquire semaphore => return (Effect.acquirePermit (← (← semaphore.eval env).asSemaphore)).convert
  | .tryAcquire semaphore => do
    return (Effect.perform (.tryAcquire (← (← semaphore.eval env).asSemaphore))).convert
  | .release semaphore => return (Effect.releasePermit (← (← semaphore.eval env).asSemaphore)).convert
  | .available semaphore => do
    return (Effect.perform (.availablePermits (← (← semaphore.eval env).asSemaphore))).convert
  | .waiting semaphore => do
    return (Effect.perform (.waitingForPermit (← (← semaphore.eval env).asSemaphore))).convert

end SemaphoreRequest

namespace QueueRequest

/-- The description of an operation on a queue. -/
def build (env : Env) : QueueRequest → Act Effect
  | .make policy => return (Effect.perform (.makeQueue policy)).convert
  | .take queue => do
    let q ← (← queue.eval env).asQueue
    return .takeItem q ((← get).queueGate q)
  | .offer queue item => do
    let q ← (← queue.eval env).asQueue
    let v ← item.eval env
    return (Effect.offerItem q ((← get).queueGate q) v).convert
  | .offerAll queue items => do
    let q ← (← queue.eval env).asQueue
    let vs ← (← items.eval env).asList
    return (Effect.offerItems q ((← get).queueGate q) vs).convert
  | .size queue => return (Effect.perform (.queueSize (← (← queue.eval env).asQueue))).convert

end QueueRequest

namespace FiberRequest

/-- The description of an operation on a fiber. -/
def build (env : Env) : FiberRequest → Act Effect
  | .join fiber => return .join (← (← fiber.eval env).asFiber)
  | .await fiber => return (Effect.awaitExit (← (← fiber.eval env).asFiber)).convert
  | .interrupt fiber => do
    return (Effect.perform (.interruptFiber (← (← fiber.eval env).asFiber))).convert
  | .state fiber => return .perform (.fiberState (← (← fiber.eval env).asFiber))
  | .interruptNamed fiber => return .perform (.interruptNamed fiber)

end FiberRequest

namespace Program

/-- The description of a program, given how calls are built. -/
def buildWith (call : Name → Value → Act Effect) (env : Env) : Program → Act Effect
  | .succeed value => return .succeed (← value.eval env)
  | .fail error => return .fail (← error.eval env)
  | .abort message => return .abort (.text (← (← message.eval env).asText))
  | .abortFixed => return .abort (.literal "static defect")
  | .abortSealed payload => do
    let n ← (← payload.eval env).asInt
    return .abort (.sealed n (← Act.updateGet World.freshSerial))
  | .interrupted => return .interrupted
  | .caused cause => return .caused (← (← cause.eval env).asCause)
  | .completed exit => return .complete (← (← exit.eval env).asExit)
  | .sync value => return .suspend (.eval value env)
  | .trySync condition value => return .suspend (.tryEval condition value env)
  | .suspend body => return .suspend (.build body env)
  | .never => return .never
  | .unitValue => return Effect.unitValue.convert
  | .sleep delay => return (Effect.sleep delay).convert
  | .log value => return .perform (.log value env)
  | .budget => return Effect.currentLoop.map .budget
  | .onLoop => return Effect.currentLoop.map .onLoop
  | .blockOn body => return Effect.currentLoop.map (.blockOn (← body.buildWith call env))
  | .dispatch actions => return Effect.currentLoop.map (.dispatch actions env)
  | .async register cancel => return .async (.actions register cancel env)
  | .asyncTotal register cancel value => return .async (.total register cancel value env)
  | .map source name value => return (← source.buildWith call env).map (.eval name value env)
  | .chain source name next => return .chain (← source.buildWith call env) (.build name next env)
  | .fold source name onValue causeName onCause => do
    return .fold (← source.buildWith call env) (.build name onValue env) (.build causeName onCause env)
  | .chainError source name handler => do
    return (← source.buildWith call env).onFailed (.build name handler env)
  | .mapError source name error => do
    return (← source.buildWith call env).mapError (.eval name error env)
  | .result source => return (← source.buildWith call env).result.convert
  | .zip left right => do
    let l ← left.buildWith call env
    return (l.zip (← right.buildWith call env)).convert
  | .zipWith left right leftName rightName value => do
    let l ← left.buildWith call env
    return l.zipWith (← right.buildWith call env) (.eval leftName rightName value env)
  | .ap argument function argumentName functionName value => do
    let a ← argument.buildWith call env
    let f ← function.buildWith call env
    return a.zipWith (f.map (.lambda argumentName functionName value env)) .call
  | .applyFirst left right => do
    let l ← left.buildWith call env
    return l.applyFirst (← right.buildWith call env)
  | .applySecond left right => do
    let l ← left.buildWith call env
    return l.andThen (← right.buildWith call env)
  | .asValue source value => do
    let e ← source.buildWith call env
    return e.asValue (← value.eval env)
  | .unit source => return (← source.buildWith call env).unit.convert
  | .flatten source name next => return ((← source.buildWith call env).map (.build name next env)).flatten
  | .onInterrupted source finalizer => do
    let e ← source.buildWith call env
    return e.onInterrupted (← finalizer.buildWith call env).unit
  | .uninterruptible source => return (← source.buildWith call env).uninterruptible
  | .bracket acquire releaseName release useName use => do
    return (← acquire.buildWith call env).bracketExit (.build releaseName none release env)
      (.build useName use env)
  | .bracketExit acquire releaseName exitName release useName use => do
    return (← acquire.buildWith call env).bracketExit (.build releaseName (some exitName) release env)
      (.build useName use env)
  | .race left right => do
    let l ← left.buildWith call env
    return l.race (← right.buildWith call env)
  | .parZip left right => do
    let l ← left.buildWith call env
    return (l.parZip (← right.buildWith call env)).convert
  | .parZipWith left right leftName rightName value => do
    let l ← left.buildWith call env
    return l.parZipWith (← right.buildWith call env) (.eval leftName rightName value env)
  | .cond condition yes no => do
    if ← (← condition.eval env).asBool then yes.buildWith call env else no.buildWith call env
  | .call definition argument => do call definition (← argument.eval env)
  | .chainRepeat count source name next => do
    return Effect.repeatWrap (fun e => .chain e (.build name next env)) count (← source.buildWith call env)
  | .mapRepeat count source name value => do
    return Effect.repeatWrap (fun e => e.map (.eval name value env)) count (← source.buildWith call env)
  | .chainErrorRepeat count source name handler => do
    return Effect.repeatWrap (fun e => e.onFailed (.build name handler env)) count
      (← source.buildWith call env)
  | .maskRepeat count source => do
    return Effect.repeatWrap Effect.uninterruptible count (← source.buildWith call env)
  | .fork body => return (Effect.fork (← body.buildWith call env)).convert
  | .fiber request => request.build env
  | .settleKept key how value => return .perform (.settleKept key how value env)
  | .cell request => request.build env
  | .deferred request => request.build env
  | .completeFrom target source => do
    let d ← (← target.eval env).asDeferred
    return (Effect.completeFrom d (← source.buildWith call env)).convert
  | .semaphore request => request.build env
  | .withPermit source body => do
    let s ← (← source.eval env).asSemaphore
    return .withPermit s (← body.buildWith call env)
  | .queue request => request.build env
  | .ticket acquire cleanup => do
    let a ← acquire.buildWith call env
    let c ← cleanup.buildWith call env
    return .redeem (.suspend (.yield (.ticket a.infallible c.infallible.unit)))
  | .ticketGranted value cleanup => do
    let v ← value.eval env
    let c ← cleanup.buildWith call env
    return .redeem (.succeed (Effect.grantedTicket v c.infallible.unit))
  | .ticketParts value cleanup => do
    let v ← value.eval env
    let c ← cleanup.buildWith call env
    return ((Effect.succeed v).applyFirst c.infallible.unit).convert

/-- How deep calls may nest while one program is built. -/
def callDepth : Nat := 20000

/-- Build the body of a definition with its parameter bound; the first argument bounds the nesting of calls. -/
def buildCall : Nat → Name → Value → Act Effect
  | 0, _, _ => Act.throwText "calls nest too deeply"
  | depth + 1, name, argument => do
    match (← get).session.definitions.lookup name with
    | none => Act.throwText ("no definition " ++ name)
    | some definition =>
      definition.body.buildWith (buildCall depth) (.bind definition.param argument .empty)

/-- The description of a program. -/
def build (p : Program) (env : Env) : Act Effect := p.buildWith (buildCall callDepth) env

end Program

end FiberLoop
