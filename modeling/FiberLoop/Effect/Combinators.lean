import FiberLoop.Effect

/-!
# Constructors and combinators

Every effect of the library is composed from the nine kinds of node. The definitions here fix which nodes a
constructor or combinator uses, and so how many steps its run takes.

`result`, `bracketExit` and `redeem` carry the guarantees about cleanup: a bracket acquires and releases inside
uninterruptible regions, and re-raises the exit of the use inside the second one, so that no interrupt can come
between.
-/

namespace FiberLoop

namespace Effect

/-! ## Constructors -/

def succeed (v : Value) : Effect := .succeeded v

def fail (e : Value) : Effect := .caused (.failed e)

def abort (d : Defect) : Effect := .caused (.aborted d)

def interrupted : Effect := .caused .interrupted

/-- Succeed with nothing to tell. -/
def unitValue : Effect := succeed .null

/-- Perform an operation when the step is reached. -/
def perform (operation : Operation) : Effect := .suspend (.perform operation)

/-- Go on with an exit that belongs to this run. -/
def resume (exit : Exit Value Value) : Effect := .suspend (.resume exit)

def never : Effect := .async .never

/-- Wait for a number of milliseconds. -/
def sleep (delay : Nat) : Effect := .chain .currentLoop (.proceed (.async (.timer delay)))

/-! ## One effect -/

def map (e : Effect) (f : Transform) : Effect := .chain e (.transform f)

/-- The same value once more; only the step counts. -/
def convert (e : Effect) : Effect := e.map .same

def asValue (e : Effect) (v : Value) : Effect := e.map (.const v)

def unit (e : Effect) : Effect := e.asValue .null

/-- The exit as a value. -/
def result (e : Effect) : Effect := .fold e (.transform .reify) .reify

/-- Hand an expected failure to a continuation. -/
def onFailed (e : Effect) (handler : Continuation) : Effect :=
  .fold e (.transform .same) (.onFailed handler)

def mapError (e : Effect) (f : Transform) : Effect := .fold e (.transform .same) (.mapFailed f)

def uninterruptible (e : Effect) : Effect := .region e .uninterruptible

/-- Run a finalizer after interruption. -/
def onInterrupted (e finalizer : Effect) : Effect :=
  .fold e (.transform .same) (.finalize finalizer.uninterruptible)

/-- Run the effect that the value is. -/
def flatten (e : Effect) : Effect := .chain e .run

/-- Apply a combinator a number of times, from the inside out. -/
def repeatWrap (wrap : Effect → Effect) : Nat → Effect → Effect
  | 0, e => e
  | n + 1, e => repeatWrap wrap n (wrap e)

/-! ## Two effects -/

/-- Run both and keep the second value. -/
def andThen (first second : Effect) : Effect := .chain first (.proceed second)

/-- Run both and combine the values. -/
def zipWith (left right : Effect) (f : Combine) : Effect := .chain left (.combineWith right f)

def zip (left right : Effect) : Effect := left.zipWith right .pair

/-- Run both and keep the first value. -/
def applyFirst (left right : Effect) : Effect := left.zipWith right .first

/-! ## Resources -/

/-- Acquire, use, and release after every exit of the use. -/
def bracketExit (acquire : Effect) (release : Release) (use : Continuation) : Effect :=
  .chain acquire.uninterruptible (.useResource release use)

/-- Get a ticket and wait on it; clean up if the wait is interrupted. -/
def redeem (factory : Effect) : Effect := factory.bracketExit .cleanup .awaitTicket

/-! ## Several fibers -/

/-- Start a fiber and yield its handle. -/
def fork (body : Effect) : Effect := .chain .currentLoop (.proceed (perform (.fork body)))

/-- Wait for a fiber and yield its exit. -/
def awaitExit (fiber : FiberId) : Effect := .async (.exitOf fiber)

/-- Wait for a fiber and adopt its exit. -/
def join (fiber : FiberId) : Effect := .chain (awaitExit fiber) .adopt

/-- Run both at the same time and keep the first exit. -/
def race (left right : Effect) : Effect := .chain .currentLoop (.proceed (.async (.race left right)))

/-- Run both at the same time and combine the values. -/
def parZipWith (left right : Effect) (f : Combine) : Effect :=
  .chain .currentLoop (.proceed (.async (.parZip left right f)))

def parZip (left right : Effect) : Effect := left.parZipWith right .pair

/-! ## Deferreds -/

/-- Wait for a deferred and adopt its exit. -/
def awaitDeferred (deferred : DeferredId) : Effect := .async (.deferred deferred)

/-- Complete a deferred, unless it is completed already. -/
def completeDeferred (deferred : DeferredId) (exit : Exit Value Value) : Effect :=
  perform (.completeDeferred deferred exit)

/-- Run an effect and complete a deferred with its exit. -/
def completeFrom (deferred : DeferredId) (source : Effect) : Effect :=
  .chain source.result (.completeDeferred deferred)

/-! ## Semaphores -/

/-- Take a permit, waiting in line for it if need be. -/
def acquirePermit (semaphore : SemaphoreId) : Effect := redeem (perform (.requestPermit semaphore))

/-- Return a permit. -/
def releasePermit (semaphore : SemaphoreId) : Effect :=
  (perform (.releasePermit semaphore)).uninterruptible

/-- Run an effect while holding a permit. -/
def withPermit (semaphore : SemaphoreId) (body : Effect) : Effect :=
  (acquirePermit semaphore).andThen
    (unitValue.bracketExit (.const (releasePermit semaphore)) (.proceed body))

/-! ## Queues

A bounded queue has a gate, a semaphore with a permit for each free place. An offer takes a permit first; a take
returns one before it waits, and takes it back if it is interrupted.
-/

/-- Take the oldest item, waiting in line for it if need be. -/
def takeItem (queue : QueueId) (gate : Option SemaphoreId) : Effect :=
  let take := redeem (perform (.requestItem queue))
  match gate with
  | none => take
  | some g => (releasePermit g).bracketExit (.ifInterrupted (acquirePermit g)) (.proceed take)

/-- Add an item; only a gate can make the caller wait. -/
def offerItem (queue : QueueId) (gate : Option SemaphoreId) (item : Value) : Effect :=
  let put := (perform (.offerItem queue item)).uninterruptible
  match gate with
  | none => put
  | some g => (acquirePermit g).andThen put

/-- Add the items of a list in order. -/
def offerItems (queue : QueueId) (gate : Option SemaphoreId) (items : List Value) : Effect :=
  items.foldl (fun before item => before.andThen (offerItem queue gate item)) unitValue

/-! ## Tickets -/

/-- The ticket of a grant that is already made; the cleanup undoes it. -/
def grantedTicket (value : Value) (cleanup : Effect) : Value := .ticket (succeed value) cleanup

/-- Take any expected failure of an effect that should have none for a defect. -/
def infallible (e : Effect) : Effect :=
  e.onFailed (.proceed (abort (.literal "unexpected failure")))

@[simp] theorem repeatWrap_zero (wrap : Effect → Effect) (e : Effect) : repeatWrap wrap 0 e = e := rfl

theorem repeatWrap_succ (wrap : Effect → Effect) (n : Nat) (e : Effect) :
    repeatWrap wrap (n + 1) e = wrap (repeatWrap wrap n e) := by
  induction n generalizing e with
  | zero => rfl
  | succ n ih => exact ih (wrap e)

end Effect

end FiberLoop
