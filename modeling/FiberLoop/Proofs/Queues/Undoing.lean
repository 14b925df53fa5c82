import FiberLoop.Proofs.Queues.Matching
import FiberLoop.Proofs.Queues.Trimming

/-!
# Takes that are undone

A take that gives up leaves no trace on its queue, under every policy and capacity: if offers come while it is under
way, and nobody else takes, then the queue is afterwards what the same offers make of the queue without the take. A
take that had its item puts it back to the front, and a take that was in line leaves it, or puts the item back that
was handed to its latch meanwhile.

The main result of this module is `World.undoing`. Other steps may come among the offers, as long as they leave the
queue and the latch alone (`World.Offered`).
-/

namespace FiberLoop

namespace World

section

variable {w w' w'' : World} {q : QueueId} {row : Queue} {L : List DeferredId} {items buffer : List Value}
  {item : Value} {latch : DeferredId}

/-! ## Items that come to a queue -/

theorem deliver_of_ready (h : w.queue? q = some row) (hstate : row.state = .ready items) (item : Value)
    (place : Overflow → List Value → Value → List Value) :
    w.deliver q item place = w.setQueueState q (.ready (place row.policy items item)) := by
  rw [deliver, h]
  dsimp only
  rw [hstate]

/-- The row after an item came to the buffer. -/
theorem queue?_deliver_of_ready (h : w.queue? q = some { row with state := .ready items }) (item : Value)
    (place : Overflow → List Value → Value → List Value) :
    (w.deliver q item place).queue? q = some { row with state := .ready (place row.policy items item) } := by
  rw [deliver_of_ready h rfl]
  exact queue?_setQueueState_self h _

/-- The row and the latch after an item came to the only one who waits. -/
theorem handed_offerItem (h : w.queue? q = some row) (hstate : row.state = .waiting [latch])
    (hmade : latch.index < w.stores.deferreds.size) (hopen : w.pollDeferred latch = none) (item : Value) :
    (w.offerItem q item).queue? q = some { row with state := .ready [] } ∧
      (w.offerItem q item).pollDeferred latch = some (.value item) := by
  obtain ⟨waiters, key, hpending⟩ := pending_of_pollDeferred_none hopen hmade
  rw [offerItem_of_waiting h hstate]
  exact ⟨queue?_setQueueState_self ((queue?_completeDeferred ..).trans h) _,
    pollDeferred_completeDeferred_self hpending _⟩

/-! ## Offers among other steps -/

/-- A step that leaves a queue and the exits of some latches alone. -/
structure Bypasses (q : QueueId) (L : List DeferredId) (w w' : World) : Prop where
  queue : w'.queue? q = w.queue? q
  size : w.stores.deferreds.size ≤ w'.stores.deferreds.size
  polls : ∀ l ∈ L, w'.pollDeferred l = w.pollDeferred l

/-- Offers to a queue, in their order, and other steps among them. -/
inductive Offered (q : QueueId) (L : List DeferredId) (w : World) : List Value → World → Prop where
  | none : Offered q L w [] w
  | offer {items : List Value} {w' : World} (h : Offered q L w items w') (item : Value) :
      Offered q L w (items ++ [item]) (w'.offerItem q item)
  | aside {items : List Value} {w' w'' : World} (h : Offered q L w items w') (haside : w'.Bypasses q L w'') :
      Offered q L w items w''

/-- Offers to a queue for which nobody waits come to its buffer. -/
theorem Offered.of_ready (h : w.Offered q L items w') (hready : w.queue? q = some { row with state := .ready buffer }) :
    w'.queue? q = some { row with state := .ready (row.policy.pushAll buffer items) } := by
  induction h with
  | none => exact hready
  | offer h item ih =>
    rw [Overflow.pushAll_append]
    exact queue?_deliver_of_ready ih item _
  | aside h haside ih => exact haside.queue.trans ih

/-- Where a take stands that was alone in the line before some offers: it still waits, or it was handed the first of
them, and the others came to the buffer. -/
def Lingers (q : QueueId) (row : Queue) (latch : DeferredId) (w : World) : List Value → Prop
  | [] => w.queue? q = some row ∧ latch.index < w.stores.deferreds.size ∧ w.pollDeferred latch = none
  | item :: items => w.queue? q = some { row with state := .ready (row.policy.pushAll [] items) } ∧
      w.pollDeferred latch = some (.value item)

theorem Lingers.aside (h : w.Lingers q row latch items) (hlatch : latch ∈ L) (haside : w.Bypasses q L w') :
    w'.Lingers q row latch items := by
  have hpoll := haside.polls latch hlatch
  cases items with
  | nil => exact ⟨haside.queue.trans h.1, Nat.lt_of_lt_of_le h.2.1 haside.size, hpoll.trans h.2.2⟩
  | cons first rest => exact ⟨haside.queue.trans h.1, hpoll.trans h.2⟩

theorem Lingers.offer (h : w.Lingers q row latch items) (hstate : row.state = .waiting [latch]) (item : Value) :
    (w.offerItem q item).Lingers q row latch (items ++ [item]) := by
  cases items with
  | nil => exact handed_offerItem h.1 hstate h.2.1 h.2.2 item
  | cons first rest =>
    obtain ⟨hqueue, hpoll⟩ := h
    refine ⟨?_, ?_⟩
    · refine (queue?_deliver_of_ready hqueue item Overflow.push).trans ?_
      rw [List.append_eq, Overflow.pushAll_append]
      rfl
    · rw [offerItem, deliver_of_ready hqueue rfl]
      exact hpoll

theorem Offered.lingers (h : w.Offered q L items w') (hlatch : latch ∈ L) (hstate : row.state = .waiting [latch])
    (hlingers : w.Lingers q row latch []) : w'.Lingers q row latch items := by
  induction h with
  | none => exact hlingers
  | offer h item ih => exact ih.offer hstate item
  | aside h haside ih => exact ih.aside hlatch haside

/-- Giving up, before or after an item was handed to the latch. -/
theorem Lingers.abandon (h : w.Lingers q row latch items) (hstate : row.state = .waiting [latch]) :
    (w.abandonItem q latch).queue? q = some { row with state := .ready (row.policy.pushAll [] items) } := by
  cases items with
  | nil =>
    have hleave : w.abandonItem q latch = w.setQueueState q (.ofLine ([latch].erase latch)) := by
      rw [abandonItem, queueState?_of_row h.1, hstate]
      exact if_pos (List.mem_singleton_self latch)
    rw [hleave, List.erase_cons_head]
    exact queue?_setQueueState_self h.1 _
  | cons first rest =>
    obtain ⟨hqueue, hpoll⟩ := h
    have hreclaim : w.abandonItem q latch = w.putBackItem q first := by
      rw [abandonItem, queueState?_of_row hqueue]
      dsimp only
      rw [reclaimItem, hpoll]
    rw [hreclaim, ← Overflow.restore_pushAll_empty]
    exact queue?_deliver_of_ready hqueue first _

/-- Putting the item back that was taken. -/
theorem Offered.putBack (h : w.Offered q L items w') (hready : w.queue? q = some { row with state := .ready buffer })
    (hfits : row.policy.Fits (item :: buffer)) :
    (w'.putBackItem q item).queue? q =
      some { row with state := .ready (row.policy.pushAll (item :: buffer) items) } := by
  rw [← Overflow.restore_pushAll hfits]
  exact queue?_deliver_of_ready (h.of_ready hready) item _

end

/-! ## The main result -/

/-- Undoing a take commutes with offers. -/
structure Undoing (q : QueueId) (w : World) : Prop where
  /-- Whoever finds an item has it put back when it gives up. Then the queue is what the offers since make of it
  without the take. -/
  popped : ∀ row item buffer, w.queue? q = some row → row.state = .ready (item :: buffer) →
    row.policy.Fits (item :: buffer) →
      (w.requestItem q).1 = Effect.grantedTicket item (.perform (.putBackItem q item)) ∧
      ∀ items (w' w'' : World), (w.requestItem q).2.Offered q [] items w' → w.Offered q [] items w'' →
        (w'.putBackItem q item).queue? q =
          some { row with state := .ready (row.policy.pushAll (item :: buffer) items) } ∧
        (w'.putBackItem q item).queue? q = w''.queue? q
  /-- Whoever finds no item, and nobody in line, waits alone on a new latch, and gives that up. -/
  parks : ∀ row, w.queue? q = some row → row.state = .ready [] → ∃ latch,
    (w.requestItem q).1 = .ticket (.awaitDeferred latch) (.perform (.abandonItem q latch)) ∧
      (w.requestItem q).2.queue? q = some { row with state := .waiting [latch] } ∧
      latch.index < (w.requestItem q).2.stores.deferreds.size ∧ (w.requestItem q).2.pollDeferred latch = none
  /-- When the only one in line gives up, the queue is what the offers since make of it while it is empty and nobody
  waits. The first of them has gone to the latch. -/
  abandoned : ∀ row latch, w.queue? q = some row → row.state = .waiting [latch] →
    latch.index < w.stores.deferreds.size → w.pollDeferred latch = none →
      ∀ items (w' : World), w.Offered q [latch] items w' →
        (∀ first rest, items = first :: rest → w'.pollDeferred latch = some (.value first)) ∧
        (w'.abandonItem q latch).queue? q = some { row with state := .ready (row.policy.pushAll [] items) } ∧
        ∀ v v' : World, v.queue? q = some { row with state := .ready [] } → v.Offered q [] items v' →
          (w'.abandonItem q latch).queue? q = v'.queue? q

/-- **Undoing a take commutes with offers**, for every policy and every capacity, whatever else happens among them. -/
theorem undoing (q : QueueId) (w : World) : w.Undoing q where
  popped row item buffer hrow hstate hfits := by
    have hnext := requestItem_of_next ((queueState?_of_row hrow).trans (congrArg some hstate))
    refine ⟨by rw [hnext], fun items w' w'' htaken huntaken => ?_⟩
    rw [hnext] at htaken
    have hback := htaken.putBack (queue?_setQueueState_self hrow _) hfits
    have hrow' : w.queue? q = some { row with state := .ready (item :: buffer) } := by rw [← hstate]; exact hrow
    exact ⟨hback, hback.trans (huntaken.of_ready hrow').symm⟩
  parks row hrow hstate := by
    have hstate? := (queueState?_of_row hrow).trans (congrArg some hstate)
    have hrequest := requestItem_of_none hstate? (by rw [nextItem?, hstate?])
    have hpush := Table.get?_push w.stores.deferreds Deferred.fresh w.stores.deferreds.size
    rw [hrequest]
    refine ⟨w.makeDeferred.1, rfl, queue?_setQueueState_self (w := w.makeDeferred.2) hrow _, ?_, ?_⟩
    · exact Nat.lt_of_lt_of_eq (Nat.lt_succ_self _) (Table.size_push _ _).symm
    · exact congrArg (Option.bind · Deferred.exit?) (hpush.trans (if_pos rfl))
  abandoned row latch hrow hstate hmade hopen items w' hoffered := by
    have hlingers := hoffered.lingers (List.mem_singleton_self latch) hstate ⟨hrow, hmade, hopen⟩
    have habandon := hlingers.abandon hstate
    refine ⟨?_, habandon, fun v v' hv hoffered' => habandon.trans (hoffered'.of_ready hv).symm⟩
    rintro first rest rfl
    exact hlingers.2

end World

end FiberLoop
