import FiberLoop.Evaluation

/-!
# Debug forms of handles

The identities of cells are not shown; a fiber is numbered from one in the order of creation.
-/

namespace FiberLoop

/-- The number of a fiber. -/
def FiberId.number (f : FiberId) : Nat := f.index + 1

/-- The one-line form of a fiber's number. -/
def displayFiberNumber (n : Nat) : String := "Fiber(" ++ toString n ++ ")"

/-- The debug form of a fiber's number. -/
def debugFiberNumber (n : Nat) : String := "FiberId(" ++ toString n ++ ")"

def Callback.debug (cb : Callback) : String :=
  "Callback \x7b fiber: " ++ debugFiberNumber cb.fiber.number ++ " \x7d"

namespace World

/-- The state of a fiber. -/
def fiberState (w : World) (f : FiberId) : FiberState := (w.fiber? f).elim .runnable Fiber.state

/-- The debug form of the untyped handle of a fiber. -/
def debugHandle (w : World) (f : FiberId) : String :=
  "FiberHandle \x7b id: " ++ debugFiberNumber f.number ++ ", state: " ++ (w.fiberState f).name ++ " \x7d"

/-- The debug form of the loop. -/
def debugLoop (w : World) : String :=
  "Runtime \x7b thread: " ++ Text.quote w.loop.config.threadName ++ ", dispatched: " ++
    toString w.loop.dispatched ++ ", shut_down: " ++ (if w.loop.shutDown then "true" else "false") ++ " \x7d"

end World

/-- The debug form of a handle; any other value has none. -/
def Value.debugText (v : Value) : Act String := do
  match v with
  | .cell _ => return "Ref \x7b id: _ \x7d"
  | .deferred _ => return "Deferred \x7b state: Ref \x7b id: _ \x7d \x7d"
  | .semaphore s =>
    let w ← get
    return "Semaphore \x7b id: _, permits: " ++ toString (w.availablePermits s) ++ ", waiting: " ++
      toString (w.waitingForPermit s) ++ " \x7d"
  | .queue q => return "ConcurrentQueue \x7b id: _, policy: " ++ (← Act.queuePolicy q).debug ++ " \x7d"
  | .fiber f => return "Fiber \x7b handle: " ++ (← get).debugHandle f ++ " \x7d"
  | _ => typeError

end FiberLoop
