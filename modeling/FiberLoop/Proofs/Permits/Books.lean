import FiberLoop.Proofs.Runtime.Scenes

/-!
# Books

The books of a run say, for each semaphore, what has happened to its permits, and which fibers hold a ticket.
Nothing in a run depends on them: `Scene.book` reads off each stroke what it does.

A permit is taken by a try, or granted to a request, at once or through the latch with which the request has joined
the line. Whoever holds a ticket keeps what it stands for or, if interrupted, undoes it: a permit that was granted
goes back, and a place in line is given up. A permit comes back also when it is released. A permit that comes back
goes to the first in line.
-/

namespace FiberLoop

/-- What happens to the permits of a semaphore. -/
inductive Booking where
  /-- A fiber that only tried has taken a permit. -/
  | tried (fiber : FiberId)
  /-- A request was granted at once. -/
  | granted (fiber : FiberId)
  /-- A request has joined the line with a latch. -/
  | queued (fiber : FiberId) (latch : DeferredId)
  /-- The first latch in line was completed. -/
  | delivered (latch : DeferredId)
  /-- A fiber has kept the permit that it had requested. -/
  | kept (fiber : FiberId)
  /-- The cleanup of an interrupted request has put the permit back. -/
  | undone (fiber : FiberId)
  /-- The cleanup of an interrupted request has given up the place in line. -/
  | abandoned (fiber : FiberId) (latch : DeferredId)
  /-- A permit was released. -/
  | returned (fiber : FiberId)
deriving DecidableEq

namespace Booking

/-- The fiber that has done it. -/
def fiber? : Booking → Option FiberId
  | .tried f | .granted f | .queued f _ | .kept f | .undone f | .abandoned f _ | .returned f => some f
  | .delivered _ => none

/-- Whether a permit is granted to somebody. -/
def isGrant : Booking → Bool
  | .tried _ | .granted _ | .delivered _ => true
  | _ => false

/-- Whether somebody who comes takes a permit at once. -/
def isImmediate : Booking → Bool
  | .tried _ | .granted _ => true
  | _ => false

def isUndone : Booking → Bool
  | .undone _ => true
  | _ => false

/-- Whether a permit is released, other than by a cleanup. -/
def isRelease : Booking → Bool
  | .returned _ => true
  | _ => false

/-- Whether a permit comes back. -/
def comesBack : Booking → Bool
  | .returned _ | .undone _ => true
  | _ => false

/-- Whether a ticket is handed out. -/
def isTicket : Booking → Bool
  | .granted _ | .queued .. => true
  | _ => false

/-- Whether a ticket has served its purpose. -/
def isSettled : Booking → Bool
  | .kept _ | .undone _ | .abandoned .. => true
  | _ => false

/-- Whether somebody has got a permit for good. -/
def isTaken : Booking → Bool
  | .tried _ | .kept _ => true
  | _ => false

/-- The latch that joins the line. -/
def joins? : Booking → Option DeferredId
  | .queued _ latch => some latch
  | _ => none

/-- The latch that leaves the line. -/
def leaves? : Booking → Option DeferredId
  | .delivered latch | .abandoned _ latch => some latch
  | _ => none

/-- The entry that grants what is asked for with a ticket. -/
def grant : Booking → Booking
  | .queued _ latch => .delivered latch
  | e => e

end Booking

/-- A ticket that a fiber holds. -/
structure Claim where
  fiber : FiberId
  semaphore : SemaphoreId
  /-- The latch with which the fiber has joined the line, unless the permit was granted at once. -/
  latch? : Option DeferredId
  /-- Whether the wait was interrupted and the cleanup is under way. -/
  undoing : Bool := false
deriving DecidableEq

structure Books where
  /-- The tickets that are held, newest first. -/
  claims : List Claim := []
  /-- What has happened, in order. -/
  entries : List (SemaphoreId × Booking) := []

namespace World

/-- Whether a deferred is there that nobody has completed. -/
def isOpen (w : World) (d : DeferredId) : Bool :=
  match w.deferred? d with
  | some (.pending ..) => true
  | _ => false

/-- The first latch in the line of a semaphore that nobody has completed. -/
def nextInLine? (w : World) (s : SemaphoreId) : Option DeferredId :=
  (w.semaphore? s).bind fun row => row.waiters.find? w.isOpen

end World

namespace Books

/-- What has happened to the permits of a semaphore. -/
def of (s : SemaphoreId) (b : Books) : List Booking :=
  b.entries.filterMap fun e => if e.1 = s then some e.2 else none

/-- The ticket that a fiber holds. -/
def claim? (f : FiberId) (b : Books) : Option Claim := b.claims.find? (·.fiber = f)

/-- Every latch that has ever joined a line. -/
def latches (b : Books) : List DeferredId := b.entries.filterMap (·.2.joins?)

/-- What a fiber has done to the permits of semaphores, from a place in the books on. -/
def since (f : FiberId) (start : Nat) (b : Books) : List (SemaphoreId × Booking) :=
  (b.entries.drop start).filter (·.2.fiber? = some f)

def write (s : SemaphoreId) (es : List Booking) (b : Books) : Books :=
  { b with entries := b.entries ++ es.map (s, ·) }

/-- A ticket is handed out. -/
def hold (c : Claim) (b : Books) : Books := { b with claims := c :: b.claims }

/-- The ticket of a fiber has served its purpose. -/
def drop (f : FiberId) (b : Books) : Books := { b with claims := b.claims.eraseP (·.fiber = f) }

/-- The cleanup of a fiber has begun. -/
def beginUndo (f : FiberId) (b : Books) : Books :=
  { b with claims := b.claims.map fun c => if c.fiber = f then { c with undoing := true } else c }

/-- A permit comes back and goes to the first in line. -/
def putBack (s : SemaphoreId) (e : Booking) (w : World) (b : Books) : Books :=
  b.write s (e :: (w.nextInLine? s).toList.map .delivered)

/-- What a closure that a fiber calls does to the permits. -/
def record (f : FiberId) (c : Call) (w : World) (b : Books) : Books :=
  match c with
  | .thunk (.perform (.tryAcquire s)) => if (w.tryAcquire s).1 then b.write s [.tried f] else b
  | .thunk (.perform (.requestPermit s)) =>
    if (w.tryAcquire s).1 then (b.hold { fiber := f, semaphore := s, latch? := none }).write s [.granted f]
    else
      let latch : DeferredId := ⟨w.stores.deferreds.size⟩
      (b.hold { fiber := f, semaphore := s, latch? := some latch }).write s [.queued f latch]
  | .thunk (.perform (.releasePermit s)) =>
    if (b.claim? f).any (·.undoing) then (b.drop f).putBack s (.undone f) w else b.putBack s (.returned f) w
  | .thunk (.perform (.abandonPermit s latch)) =>
    if (w.semaphore? s).any (latch ∈ ·.waiters) then (b.drop f).write s [.abandoned f latch]
    else if (w.pollDeferred latch).isSome then (b.drop f).putBack s (.undone f) w
    else b.drop f
  | .bind (.releaseResource .cleanup _) (.exit x) =>
    match b.claim? f with
    | none => b
    | some claim => if x.isInterrupted then b.beginUndo f else (b.drop f).write claim.semaphore [.kept f]
  | _ => b

/-- The grants that have not been undone. -/
def grants (s : SemaphoreId) (b : Books) : Int := (b.of s).countP Booking.isGrant - (b.of s).countP Booking.isUndone

def releases (s : SemaphoreId) (b : Books) : Nat := (b.of s).countP Booking.isRelease

/-- Whether an entry of a fiber stands for a permit that it was granted: at once, or through the latch since. -/
def isGranted (s : SemaphoreId) (b : Books) : Booking → Bool
  | .tried _ | .granted _ => true
  | .queued _ latch => .delivered latch ∈ b.of s
  | _ => false

/-- The permits that a fiber owns by what it has done from a place in the books on. -/
def owned (f : FiberId) (start : Nat) (b : Books) : Int :=
  (b.since f start).countP (fun e => b.isGranted e.1 e.2) - (b.since f start).countP (·.2.isUndone)

theorem mem_of_mem_since {f : FiberId} {start : Nat} {b : Books} {e : SemaphoreId × Booking} (he : e ∈ b.since f start) :
    e.2 ∈ b.of e.1 :=
  List.mem_filterMap.2 ⟨e, List.mem_of_mem_drop (List.mem_filter.1 he).1, if_pos rfl⟩

end Books

namespace Scene

/-- What a stroke adds to the books. -/
def book (s : Scene) (stroke : Stroke) (b : Books) : Books :=
  match stroke, s.moment.activity with
  | .next, .running f (_ + 1) stand =>
    match stand.deed with
    | .call c run => if s.moment.world.cuts f c run then b else b.record f c s.moment.world
    | _ => b
  | _, _ => b

/-- The books after some strokes. -/
def books (s : Scene) : List Stroke → Books → Books
  | [], b => b
  | stroke :: rest, b => (s.play stroke).books rest (s.book stroke b)

end Scene

end FiberLoop
