import FiberLoop.Stores.Semaphore

/-!
# Queues

A queue holds either items or the latches of those who wait for one, never both. An offer goes to the head of the
line if somebody waits; otherwise it comes to the buffer under the queue's policy. A take that gives up takes
its latch out of the line, or puts the item back that was handed to the latch meanwhile.
-/

namespace FiberLoop

/-- The number of items, or minus the number of those who wait for one. -/
def QueueState.size : QueueState → Int
  | .waiting latches => -latches.length
  | .ready items => items.length

/-- The state with the given line; an empty line is an empty buffer. -/
def QueueState.ofLine : List DeferredId → QueueState
  | [] => .ready []
  | latches => .waiting latches

namespace World

def queue? (w : World) (q : QueueId) : Option Queue := w.stores.queues.get? q.index

def queueState? (w : World) (q : QueueId) : Option QueueState := (w.queue? q).map Queue.state

def setQueueState (q : QueueId) (state : QueueState) (w : World) : World :=
  { w with stores := { w.stores with
      queues := w.stores.queues.modify q.index fun row => { row with state := state } } }

/-- A new queue; a bounded one gets a gate with a permit for each place. -/
def makeQueue (policy : Overflow) (w : World) : QueueId × World :=
  let (gate, w) :=
    match policy with
    | .bounded n =>
      let (gate, w) := w.makeSemaphore n
      (some gate, w)
    | _ => (none, w)
  (⟨w.stores.queues.size⟩,
    { w with stores := { w.stores with
        queues := w.stores.queues.push { policy := policy, gate := gate } } })

/-- Bring an item to a queue: to the head of the line, or else into the buffer as `place` says. -/
def deliver (q : QueueId) (item : Value) (place : Overflow → List Value → Value → List Value)
    (w : World) : World :=
  match w.queue? q with
  | none => w
  | some row =>
    match row.state with
    | .waiting (latch :: rest) =>
      (w.completeDeferred latch (.value item)).2.setQueueState q (.ofLine rest)
    | .waiting [] => w.setQueueState q (.ready (place row.policy [] item))
    | .ready items => w.setQueueState q (.ready (place row.policy items item))

/-- Add a new item. -/
def offerItem (q : QueueId) (item : Value) (w : World) : World := w.deliver q item Overflow.push

/-- Return an item that was taken and never delivered. -/
def putBackItem (q : QueueId) (item : Value) (w : World) : World := w.deliver q item Overflow.restore

/-- Join the line of a queue with a new latch. -/
def joinQueue (q : QueueId) (w : World) : DeferredId × World :=
  let (latch, w) := w.makeDeferred
  match w.queueState? q with
  | some (.waiting latches) => (latch, w.setQueueState q (.waiting (latches ++ [latch])))
  | some (.ready _) => (latch, w.setQueueState q (.waiting [latch]))
  | none => (latch, w)

/-- Request an item. The ticket is granted with the oldest item or waits on a latch; its cleanup puts the item
back or gives up the place in line. -/
def requestItem (q : QueueId) (w : World) : Value × World :=
  match w.queueState? q with
  | some (.ready (item :: items)) =>
    (Effect.grantedTicket item (.perform (.putBackItem q item)), w.setQueueState q (.ready items))
  | _ =>
    let (latch, w) := w.joinQueue q
    (.ticket (.awaitDeferred latch) (.perform (.abandonItem q latch)), w)

/-- Put the item back that was handed to a latch, if there was one. -/
def reclaimItem (q : QueueId) (latch : DeferredId) (w : World) : World :=
  match w.pollDeferred latch with
  | some (.value item) => w.putBackItem q item
  | _ => w

/-- Give up a place in line, or put back the item that was handed over meanwhile. -/
def abandonItem (q : QueueId) (latch : DeferredId) (w : World) : World :=
  match w.queueState? q with
  | some (.waiting latches) =>
    if latch ∈ latches then w.setQueueState q (.ofLine (latches.erase latch))
    else w.reclaimItem q latch
  | _ => w.reclaimItem q latch

def queueSize (q : QueueId) (w : World) : Int := ((w.queue? q).map (·.state.size)).getD 0

def queueGate (q : QueueId) (w : World) : Option SemaphoreId := (w.queue? q).bind (·.gate)

end World

end FiberLoop
