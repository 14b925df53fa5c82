import FiberLoop.Effect.Combinators
import FiberLoop.Stores.Deferred

/-!
# Semaphores

Permits are handed out in the order of request. A request that finds a free permit and nobody in line takes it;
any other joins the line with a latch, a deferred that is completed when its turn comes. A permit that is
returned goes straight to the head of the line.

Giving up a place in line takes the latch out or, if the permit has been granted meanwhile, passes it on.
-/

namespace FiberLoop

namespace World

def semaphore? (w : World) (s : SemaphoreId) : Option Semaphore := w.stores.semaphores.get? s.index

def setSemaphore (s : SemaphoreId) (row : Semaphore) (w : World) : World :=
  { w with stores := { w.stores with semaphores := w.stores.semaphores.set s.index row } }

/-- A new semaphore. -/
def makeSemaphore (permits : Nat) (w : World) : SemaphoreId × World :=
  (⟨w.stores.semaphores.size⟩,
    { w with stores := { w.stores with semaphores := w.stores.semaphores.push { permits := permits } } })

/-- Complete the first latch of a line that is not completed yet; the answer is the line behind it, or none if
there is no such latch. -/
def wakeFirst : List DeferredId → World → Option (List DeferredId) × World
  | [], w => (none, w)
  | latch :: rest, w =>
    match w.completeDeferred latch (.value .null) with
    | (true, w) => (some rest, w)
    | (false, w) => wakeFirst rest w

/-- Hand a permit to the head of the line, or add it to the free ones. The count is a machine number. -/
def releasePermit (s : SemaphoreId) (w : World) : World :=
  match w.semaphore? s with
  | none => w
  | some row =>
    match wakeFirst row.waiters w with
    | (some rest, w) => w.setSemaphore s { row with waiters := rest }
    | (none, w) => w.setSemaphore s { permits := (row.permits + 1) % wordLimit, waiters := [] }

/-- Take a permit if one is free and nobody is in line. -/
def tryAcquire (s : SemaphoreId) (w : World) : Bool × World :=
  match w.semaphore? s with
  | some row =>
    if 0 < row.permits ∧ row.waiters = [] then
      (true, w.setSemaphore s { row with permits := row.permits - 1 })
    else (false, w)
  | none => (false, w)

/-- Join the line with a new latch. -/
def joinLine (s : SemaphoreId) (w : World) : DeferredId × World :=
  let (latch, w) := w.makeDeferred
  match w.semaphore? s with
  | some row => (latch, w.setSemaphore s { row with waiters := row.waiters ++ [latch] })
  | none => (latch, w)

/-- Request a permit. The ticket is granted at once or waits on a latch; its cleanup returns the permit or gives
up the place in line. -/
def requestPermit (s : SemaphoreId) (w : World) : Value × World :=
  match w.tryAcquire s with
  | (true, w) => (Effect.grantedTicket .null (.releasePermit s), w)
  | (false, w) =>
    let (latch, w) := w.joinLine s
    (.ticket (.awaitDeferred latch) (.perform (.abandonPermit s latch)), w)

/-- Give up a place in line, or pass on the permit that was granted meanwhile. -/
def abandonPermit (s : SemaphoreId) (latch : DeferredId) (w : World) : World :=
  match w.semaphore? s with
  | none => w
  | some row =>
    if latch ∈ row.waiters then w.setSemaphore s { row with waiters := row.waiters.erase latch }
    else if (w.pollDeferred latch).isSome then w.releasePermit s
    else w

def availablePermits (s : SemaphoreId) (w : World) : Nat := ((w.semaphore? s).map (·.permits)).getD 0

def waitingForPermit (s : SemaphoreId) (w : World) : Nat :=
  ((w.semaphore? s).map (·.waiters.length)).getD 0

/-- A permit is taken at once exactly if one is free and nobody is in line. -/
theorem tryAcquire_eq_true_iff {w : World} {s : SemaphoreId} {row : Semaphore}
    (h : w.semaphore? s = some row) :
    (w.tryAcquire s).1 = true ↔ 0 < row.permits ∧ row.waiters = [] := by
  simp only [tryAcquire, h]
  split <;> simp_all

end World

end FiberLoop
