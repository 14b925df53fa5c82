import FiberLoop.Effect.Combinators

/-!
# What a description mentions

Values, effects and closures are trees that may hold the identifiers of deferreds, semaphores and queues, the right to
give up a place in the line of a semaphore, and the right to undo a ticket of a queue. A handle of a deferred is the right to complete it,
and so to wait for it; a closure that only waits mentions no more than that. `mentions` lists all that occur in a tree, however deep. A tree is
`In` a scope if the scope has everything that the tree mentions, so a larger scope has every tree of a smaller
one.

A request for a permit yields a ticket, which must be waited on once and cleaned up after. An effect that takes a
permit does so, and mentions no more than the semaphore. Any other effect that holds a request mentions that. In the
same way an effect that takes an item mentions no more than the queue and its use through the gate that it has, and an
effect that offers an item through a gate does not mention the semaphore that is the gate.
-/

namespace FiberLoop

/-- Something that a description can mention. -/
inductive Mention where
  /-- The right to complete a deferred. -/
  | deferred (deferred : DeferredId)
  /-- The right to wait for a deferred, and to look whether it is completed. -/
  | wait (deferred : DeferredId)
  | semaphore (semaphore : SemaphoreId)
  /-- The right to give up the place of a latch in the line of a semaphore. -/
  | place (latch : DeferredId)
  /-- A request for a permit, with nothing that waits on the ticket. -/
  | request
  | queue (queue : QueueId)
  /-- The use of a queue through a gate, or without one. -/
  | through (queue : QueueId) (gate : Option SemaphoreId)
  /-- A request for an item of a queue, with nothing that waits on the ticket. -/
  | draw (queue : QueueId)
  /-- The right to undo a ticket of a queue: to put an item back, or to give up a place in line. -/
  | undo (queue : QueueId)
deriving DecidableEq

/-- What a chain takes a permit of: its source asks for one, and its continuation waits on the ticket. -/
def Effect.acquired? : Effect → Continuation → Option SemaphoreId
  | .region (.suspend (.perform (.requestPermit s))) .uninterruptible, .useResource .cleanup .awaitTicket => some s
  | _, _ => none

/-- Only the effect that takes a permit is such a chain. -/
theorem Effect.acquired?_eq_some {source : Effect} {next : Continuation} {s : SemaphoreId}
    (h : Effect.acquired? source next = some s) :
    source = .region (.suspend (.perform (.requestPermit s))) .uninterruptible ∧
      next = .useResource .cleanup .awaitTicket := by
  unfold Effect.acquired? at h
  split at h
  · cases h
    exact ⟨rfl, rfl⟩
  · cases h

/-- What a chain takes an item of: its source asks for one, and its continuation waits on the ticket. -/
def Effect.drawn? : Effect → Continuation → Option QueueId
  | .region (.suspend (.perform (.requestItem q))) .uninterruptible, .useResource .cleanup .awaitTicket => some q
  | _, _ => none

/-- Only the effect that takes an item is such a chain. -/
theorem Effect.drawn?_eq_some {source : Effect} {next : Continuation} {q : QueueId}
    (h : Effect.drawn? source next = some q) :
    source = .region (.suspend (.perform (.requestItem q))) .uninterruptible ∧
      next = .useResource .cleanup .awaitTicket := by
  unfold Effect.drawn? at h
  split at h
  · cases h
    exact ⟨rfl, rfl⟩
  · cases h

/-- What an effect takes an item of, and the gate of that queue. -/
def Effect.taken? : Effect → Option (QueueId × Option SemaphoreId)
  | .chain (.region (.region (.suspend (.perform (.releasePermit g))) .uninterruptible) .uninterruptible)
      (.useResource (.ifInterrupted (.chain back keep)) (.proceed (.chain source next))) =>
    if Effect.acquired? back keep = some g then (Effect.drawn? source next).map fun q => (q, some g) else none
  | .chain source next => (Effect.drawn? source next).map fun q => (q, none)
  | _ => none

theorem Effect.taken?_takeItem (q : QueueId) (gate : Option SemaphoreId) :
    (Effect.takeItem q gate).taken? = some (q, gate) := by
  cases gate with
  | none => rfl
  | some g => exact if_pos rfl

/-- Only the effect that takes an item is one. -/
theorem Effect.taken?_eq_some {e : Effect} {q : QueueId} {gate : Option SemaphoreId} (h : e.taken? = some (q, gate)) :
    e = .takeItem q gate := by
  unfold taken? at h
  split at h
  · rename_i g back keep source next
    split at h
    · rename_i hback
      obtain ⟨q', hdrawn, hsame⟩ := Option.map_eq_some_iff.1 h
      cases hsame
      obtain ⟨rfl, rfl⟩ := Effect.drawn?_eq_some hdrawn
      obtain ⟨rfl, rfl⟩ := Effect.acquired?_eq_some hback
      rfl
    · cases h
  · obtain ⟨q', hdrawn, hsame⟩ := Option.map_eq_some_iff.1 h
    cases hsame
    obtain ⟨rfl, rfl⟩ := Effect.drawn?_eq_some hdrawn
    rfl
  · cases h

/-- What an effect offers through a gate: the queue, the gate and the item. -/
def Effect.offered? : Effect → Option (QueueId × SemaphoreId × Value)
  | .chain (.chain source next) (.proceed (.region (.suspend (.perform (.offerItem q v))) .uninterruptible)) =>
    (Effect.acquired? source next).map fun g => (q, g, v)
  | _ => none

theorem Effect.offered?_offerItem (q : QueueId) (g : SemaphoreId) (v : Value) :
    (Effect.offerItem q (some g) v).offered? = some (q, g, v) := rfl

/-- Only the effect that offers an item is one. -/
theorem Effect.offered?_eq_some {e : Effect} {q : QueueId} {g : SemaphoreId} {v : Value} (h : e.offered? = some (q, g, v)) :
    e = .offerItem q (some g) v := by
  unfold offered? at h
  split at h
  · obtain ⟨g', hacquired, hsame⟩ := Option.map_eq_some_iff.1 h
    cases hsame
    obtain ⟨rfl, rfl⟩ := Effect.acquired?_eq_some hacquired
    rfl
  · cases h

/-- What a chain mentions that asks for a ticket and waits on it. -/
def Effect.redeemed? (source : Effect) (next : Continuation) : Option (List Mention) :=
  match Effect.acquired? source next with
  | some s => some [.semaphore s]
  | none => (Effect.chain source next).taken?.map fun t => [.queue t.1, .through t.1 t.2]

/-- There are two such chains. -/
theorem Effect.redeemed?_eq_some {source : Effect} {next : Continuation} {ms : List Mention}
    (h : Effect.redeemed? source next = some ms) :
    (∃ s, Effect.chain source next = .acquirePermit s ∧ ms = [.semaphore s]) ∨
      ∃ q gate, Effect.chain source next = .takeItem q gate ∧ ms = [.queue q, .through q gate] := by
  unfold Effect.redeemed? at h
  split at h
  · rename_i s hs
    cases h
    obtain ⟨rfl, rfl⟩ := Effect.acquired?_eq_some hs
    exact Or.inl ⟨s, rfl, rfl⟩
  · obtain ⟨⟨q, gate⟩, htaken, rfl⟩ := Option.map_eq_some_iff.1 h
    exact Or.inr ⟨q, gate, Effect.taken?_eq_some htaken, rfl⟩

mutual

/-- What a value mentions. -/
@[simp] def Value.mentions : Value → List Mention
  | .null | .bool _ | .int _ | .str _ | .cell _ | .fiber _ => []
  | .list items => Value.mentionsAll items
  | .exit x => Value.mentionsExit x
  | .cause c => Value.mentionsCause c
  | .deferred d => [.deferred d]
  | .semaphore s => [.semaphore s]
  | .queue q => [.queue q]
  | .effect e => e.mentions
  | .ticket acquire cleanup => acquire.mentions ++ cleanup.mentions
  | .function _ _ env => env.mentions

/-- What a list of values mentions. -/
@[simp] def Value.mentionsAll : List Value → List Mention
  | [] => []
  | v :: rest => v.mentions ++ Value.mentionsAll rest

/-- What an exit mentions. -/
@[simp] def Value.mentionsExit : Exit Value Value → List Mention
  | .value v => v.mentions
  | .cause c => Value.mentionsCause c

/-- What a cause mentions. -/
@[simp] def Value.mentionsCause : Cause Value → List Mention
  | .failed v => v.mentions
  | .aborted _ | .interrupted => []

/-- What an environment mentions. -/
@[simp] def Env.mentions : Env → List Mention
  | .empty => []
  | .bind _ v outer => v.mentions ++ outer.mentions

/-- What an effect mentions. -/
@[simp] def Effect.mentions : Effect → List Mention
  | .succeeded v => v.mentions
  | .caused c => Value.mentionsCause c
  | .complete x => Value.mentionsExit x
  | .suspend t => t.mentions
  | .async r => r.mentions
  | .chain source next =>
    match Effect.redeemed? source next with
    | some ms => ms
    | none =>
      match (Effect.chain source next).offered? with
      -- The continuation mentions the queue, its use without a gate, and the item.
      | some (q, g, _) => .queue q :: .through q (some g) :: next.mentions.drop 2
      | none => source.mentions ++ next.mentions
  | .fold source onValue onCause => source.mentions ++ (onValue.mentions ++ onCause.mentions)
  | .currentLoop => []
  | .region body _ => body.mentions

/-- What the closure of a suspended step mentions. -/
@[simp] def Thunk.mentions : Thunk → List Mention
  | .eval _ env | .tryEval _ _ env | .build _ env => env.mentions
  | .resume x => Value.mentionsExit x
  | .continue next v => next.mentions ++ v.mentions
  | .yield v => v.mentions
  | .perform o => o.mentions

/-- What an operation mentions. -/
@[simp] def Operation.mentions : Operation → List Mention
  | .log _ env | .settleKept _ _ _ env => env.mentions
  | .interruptNamed _ | .interruptFiber _ | .fiberState _ => []
  | .fork body => body.mentions
  | .makeCell v => v.mentions
  | .getCell _ => []
  | .setCell _ v => v.mentions
  | .updateCell _ _ _ env | .updateAndGetCell _ _ _ env | .modifyCell _ _ _ _ env => env.mentions
  | .makeDeferred => []
  | .completeDeferred d x => .deferred d :: Value.mentionsExit x
  | .isCompleted d | .pollDeferred d => [.wait d]
  | .makeSemaphore _ => []
  | .requestPermit s => [.semaphore s, .request]
  | .tryAcquire s | .releasePermit s | .availablePermits s | .waitingForPermit s => [.semaphore s]
  | .abandonPermit s latch => [.semaphore s, .place latch]
  | .makeQueue _ => []
  | .queueSize q => [.queue q]
  | .requestItem q => [.queue q, .through q none, .draw q]
  | .offerItem q v => .queue q :: .through q none :: v.mentions
  | .putBackItem q v => .undo q :: v.mentions
  | .abandonItem q latch => [.undo q, .wait latch]

/-- What the closure of a chain mentions. -/
@[simp] def Continuation.mentions : Continuation → List Mention
  | .transform f => f.mentions
  | .build _ _ env => env.mentions
  | .proceed next => next.mentions
  | .combineWith right f => right.mentions ++ f.mentions
  | .combineLeft left f => left.mentions ++ f.mentions
  | .run | .adopt | .awaitTicket => []
  | .useResource release use => release.mentions ++ use.mentions
  | .releaseResource release resource => release.mentions ++ resource.mentions
  | .completeDeferred d => [.deferred d]
  | .stop c => Value.mentionsCause c

/-- What the closure of a fold mentions. -/
@[simp] def Recovery.mentions : Recovery → List Mention
  | .build _ _ env => env.mentions
  | .onFailed handler => handler.mentions
  | .mapFailed f => f.mentions
  | .reify => []
  | .finalize finalizer => finalizer.mentions

/-- What a function of one value mentions. -/
@[simp] def Transform.mentions : Transform → List Mention
  | .eval _ _ env | .build _ _ env | .lambda _ _ _ env | .dispatch _ env => env.mentions
  | .const v => v.mentions
  | .same | .reify | .budget | .onLoop => []
  | .blockOn body => body.mentions

/-- What a function of two values mentions. -/
@[simp] def Combine.mentions : Combine → List Mention
  | .eval _ _ _ env => env.mentions
  | .pair | .first | .call => []

/-- What the closure that releases a resource mentions. -/
@[simp] def Release.mentions : Release → List Mention
  | .build _ _ _ env => env.mentions
  | .const e | .ifInterrupted e => e.mentions
  | .cleanup => []

/-- What the closure that registers a callback mentions. -/
@[simp] def Registration.mentions : Registration → List Mention
  | .never | .timer _ | .exitOf _ => []
  | .actions _ _ env | .total _ _ _ env => env.mentions
  | .deferred d => [.wait d]
  | .race left right => left.mentions ++ right.mentions
  | .parZip left right f => left.mentions ++ (right.mentions ++ f.mentions)

end

/-- What an effect mentions that offers an item through a gate. -/
theorem Effect.mentions_offerItem (q : QueueId) (g : SemaphoreId) (v : Value) :
    (Effect.offerItem q (some g) v).mentions = .queue q :: .through q (some g) :: v.mentions := rfl

theorem Effect.mentions_of_redeemed {source : Effect} {next : Continuation} {ms : List Mention}
    (h : Effect.redeemed? source next = some ms) : (Effect.chain source next).mentions = ms := by
  rw [Effect.mentions, h]

/-- What an effect mentions that takes an item. -/
theorem Effect.mentions_takeItem (q : QueueId) (gate : Option SemaphoreId) :
    (Effect.takeItem q gate).mentions = [.queue q, .through q gate] := by
  cases gate with
  | none => rfl
  | some g =>
    exact mentions_of_redeemed (congrArg (Option.map fun t : QueueId × Option SemaphoreId =>
      [Mention.queue t.1, .through t.1 t.2]) (Effect.taken?_takeItem q (some g)))

end FiberLoop
