import FiberLoop.Proofs.Queues.Matching

/-!
# The stock of a queue

The stock of a queue says where every item is that was placed: in the buffer, with a take in progress, delivered by a
take that is over, or discarded by the policy. Nothing in a run depends on it: `Scene.stock` reads off each stroke
what it does.

A take is visiting from its first step until its fiber comes out of it. An item that comes to the queue goes to the
take that waits first in line, or to the buffer, and so does an item that a take gives back.
-/

namespace FiberLoop

/-! ## What a full buffer leaves out -/

namespace Overflow

variable {α β : Type}

/-- What is left out when a new item comes. -/
def spill (p : Overflow) (buffer : List α) (item : α) : List α :=
  match p with
  | .unbounded | .bounded _ => []
  | .sliding n => if n = 0 then [item] else buffer.take (buffer.length + 1 - n)
  | .dropping n => if buffer.length < n then [] else [item]

/-- What is left out when an item is put back. -/
def spillBack (p : Overflow) (buffer : List α) (item : α) : List α :=
  match p with
  | .unbounded | .bounded _ => []
  | .sliding n => if buffer.length < n then [] else [item]
  | .dropping n => (item :: buffer).drop n

/-- A new item is kept, or something is left out for it. -/
theorem push_perm (p : Overflow) (buffer : List α) (item : α) :
    (p.push buffer item ++ p.spill buffer item).Perm (item :: buffer) := by
  have hlast : (buffer ++ [item]).Perm (item :: buffer) := List.perm_append_singleton item buffer
  cases p with
  | unbounded | bounded n =>
    rw [push, spill, List.append_nil]
    exact hlast
  | sliding n =>
    by_cases hn : n = 0
    · simp only [push, spill, if_pos hn]
      exact hlast
    · simp only [push, spill, if_neg hn]
      refine List.perm_append_comm.trans ?_
      rw [← List.append_assoc, List.take_append_drop]
      exact hlast
  | dropping n =>
    by_cases hn : buffer.length < n
    · simp only [push, spill, if_pos hn, List.append_nil]
      exact hlast
    · simp only [push, spill, if_neg hn]
      exact hlast

/-- An item that is put back is kept, or something is left out for it. -/
theorem restore_perm (p : Overflow) (buffer : List α) (item : α) :
    (p.restore buffer item ++ p.spillBack buffer item).Perm (item :: buffer) := by
  cases p with
  | unbounded | bounded n =>
    rw [restore, spillBack, List.append_nil]
  | sliding n =>
    by_cases hn : buffer.length < n
    · simp only [restore, spillBack, if_pos hn, List.append_nil]
      exact .refl _
    · simp only [restore, spillBack, if_neg hn]
      exact List.perm_append_singleton item buffer
  | dropping n =>
    rw [restore, spillBack, List.take_append_drop]

theorem map_push (f : α → β) (p : Overflow) (buffer : List α) (item : α) :
    (p.push buffer item).map f = p.push (buffer.map f) (f item) := by
  cases p with
  | unbounded | bounded n => simp [push]
  | sliding n | dropping n =>
    simp only [push, List.length_map]
    split <;> simp

theorem map_restore (f : α → β) (p : Overflow) (buffer : List α) (item : α) :
    (p.restore buffer item).map f = p.restore (buffer.map f) (f item) := by
  cases p with
  | unbounded | bounded n => rfl
  | sliding n =>
    simp only [restore, List.length_map]
    split <;> simp
  | dropping n => simp [restore]

/-- Only a sliding or dropping policy leaves anything out. -/
theorem spill_eq_nil {p : Overflow} (h : p.limit? = none) (buffer : List α) (item : α) : p.spill buffer item = [] := by
  cases p with
  | unbounded | bounded n => rfl
  | sliding n | dropping n => cases h

theorem spillBack_eq_nil {p : Overflow} (h : p.limit? = none) (buffer : List α) (item : α) :
    p.spillBack buffer item = [] := by
  cases p with
  | unbounded | bounded n => rfl
  | sliding n | dropping n => cases h

end Overflow

/-! ## Takes -/

/-- An item of a queue, with its place among all that were placed. -/
structure Item where
  place : Nat
  value : Value

/-- A take: its fiber, the run around it, the gate of the queue, and what it has got from the queue. -/
structure Visit where
  fiber : FiberId
  base : Run
  gate : Option SemaphoreId
  /-- The latch with which the take has joined the line, if there was no item for it. -/
  latch? : Option DeferredId := none
  /-- The item that it holds. -/
  item? : Option Item := none
  /-- Whether it has given up. -/
  undone : Bool := false

/-- What a take can end with: its item, or interrupted if it holds none and has no latch that it has not given up. -/
inductive Visit.Ends (V : Visit) : Exit Value Value → Prop where
  | value {item : Item} (h : V.item? = some item) (hopen : V.undone = false) : Ends V (.value item.value)
  | interrupted (hitem : V.item? = none) (h : V.latch? = none ∨ V.undone = true) : Ends V .interrupted

/-- Where the items of a queue are. -/
structure Stock where
  /-- Every item that was placed, in order. -/
  placed : List Value := []
  buffer : List Item := []
  /-- The takes in progress. -/
  visits : List Visit := []
  /-- The takes that are over, with their exits. -/
  ended : List (Visit × Exit Value Value) := []
  /-- What the policy has left out. -/
  discarded : List Item := []

namespace Stock

variable (S : Stock)

/-- All items that were placed. -/
def items : List Item := S.placed.mapIdx Item.mk

/-- The items that takes in progress hold. -/
def held : List Item := S.visits.filterMap Visit.item?

/-- The items with which takes have ended. -/
def delivered : List Item := S.ended.filterMap (·.1.item?)

/-- All items that are somewhere. -/
def all : List Item := S.delivered ++ S.buffer ++ S.held ++ S.discarded

/-- Change what is known of the takes with some property. -/
def revise (which : Visit → Bool) (change : Visit → Visit) (S : Stock) : Stock :=
  { S with visits := S.visits.map fun V => if which V then change V else V }

/-- An item comes to the first in line, or to the buffer. -/
def bring (first? : Option DeferredId) (place spill : List Item → Item → List Item) (item : Item) (S : Stock) : Stock :=
  match first? with
  | some l => S.revise (·.latch? = some l) fun V => { V with item? := some item }
  | none => { S with buffer := place S.buffer item, discarded := S.discarded ++ spill S.buffer item }

/-- A take gets the oldest item, or joins the line with a new latch. -/
def draw (f : FiberId) (latch : DeferredId) (S : Stock) : Stock :=
  match S.buffer with
  | item :: rest => { S with buffer := rest }.revise (·.fiber = f) fun V => { V with item? := some item }
  | [] => S.revise (·.fiber = f) fun V => { V with latch? := some latch }

/-- A new item is placed. -/
def place (p : Overflow) (first? : Option DeferredId) (v : Value) (S : Stock) : Stock :=
  { S with placed := S.placed ++ [v] }.bring first? p.push p.spill ⟨S.placed.length, v⟩

/-- A take gives up, and what it holds goes back to the queue. -/
def giveBack (p : Overflow) (f : FiberId) (first? : Option DeferredId) (S : Stock) : Stock :=
  let left := S.revise (·.fiber = f) fun V => { V with item? := none, undone := true }
  match (S.visits.find? (·.fiber = f)).bind Visit.item? with
  | some item => left.bring first? p.restore p.spillBack item
  | none => left

end Stock

namespace World

/-- The latch that is first in the line of a queue. -/
def firstInLine? (q : QueueId) (w : World) : Option DeferredId := (w.queueState? q).bind (·.line.head?)

end World

/-- What a closure that a fiber calls does to the stock of a queue. -/
def Stock.record (q : QueueId) (p : Overflow) (f : FiberId) (c : Call) (w : World) (S : Stock) : Stock :=
  match c with
  | .thunk (.perform (.requestItem q')) => if q' = q then S.draw f ⟨w.stores.deferreds.size⟩ else S
  | .thunk (.perform (.offerItem q' v)) => if q' = q then S.place p (w.firstInLine? q) v else S
  | .thunk (.perform (.putBackItem q' _)) | .thunk (.perform (.abandonItem q' _)) =>
    if q' = q then S.giveBack p f (w.firstInLine? q) else S
  | _ => S

/-- The exit with which a fiber goes on. -/
def Next.exit? : Next → Option (Exit Value Value)
  | .value v => some (.value v)
  | .cause c => some (.cause c)
  | .eval _ => none

/-- The exit with which a fiber comes out of what it evaluates on a stack of some height. -/
def Activity.exitFrom? (f : FiberId) (height : Nat) : Activity → Option (Exit Value Value)
  | .running g _ stand => if g = f ∧ stand.run.frames.length = height then stand.next.exit? else none
  | _ => none

/-- The takes out of which their fiber has come are over. -/
def Stock.leave (a : Activity) (S : Stock) : Stock :=
  let exit? (V : Visit) := a.exitFrom? V.fiber V.base.frames.length
  { S with
    visits := S.visits.filter fun V => (exit? V).isNone
    ended := S.ended ++ S.visits.filterMap fun V => (exit? V).map (V, ·) }

namespace Scene

/-- The take that begins with a stroke, unless its fiber is in one already. -/
def visit? (q : QueueId) (s : Scene) (stroke : Stroke) (S : Stock) : Option Visit :=
  match stroke, s.moment.activity with
  | .next, .running f (_ + 1) ⟨run, .eval e⟩ =>
    if S.visits.any (·.fiber = f) then none
    else e.taken?.bind fun t => if t.1 = q then some { fiber := f, base := run, gate := t.2 } else none
  | _, _ => none

/-- The stock of a queue after what a stroke does to it. -/
def moves (q : QueueId) (p : Overflow) (s : Scene) (stroke : Stroke) (S : Stock) : Stock :=
  match s.calls? stroke with
  | some (f, _, c) => S.record q p f c s.moment.world
  | none => { S with visits := S.visits ++ (s.visit? q stroke S).toList }

/-- The stock of a queue after a stroke. -/
def stock (q : QueueId) (p : Overflow) (s : Scene) (stroke : Stroke) (S : Stock) : Stock :=
  (s.moves q p stroke S).leave (s.play stroke).moment.activity

/-- The stock of a queue after some strokes. -/
def stocks (q : QueueId) (p : Overflow) (s : Scene) : List Stroke → Stock → Stock
  | [], S => S
  | stroke :: rest, S => (s.play stroke).stocks q p rest (s.stock q p stroke S)

end Scene

/-- A run from the time on at which a queue was made, with the stock of the queue. -/
inductive Stocked (q : QueueId) (p : Overflow) : Stock → Scene → Prop where
  | make {s : Scene} (h : s.Occurs) (stroke : Stroke) (hnone : s.moment.world.queue? q = none)
    (hmade : ((s.play stroke).moment.world.queue? q).map Queue.policy = some p) : Stocked q p {} (s.play stroke)
  | play {S : Stock} {s : Scene} (h : Stocked q p S s) (stroke : Stroke) :
    Stocked q p (s.stock q p stroke S) (s.play stroke)

end FiberLoop
