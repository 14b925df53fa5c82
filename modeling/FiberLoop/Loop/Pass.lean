import FiberLoop.Fiber.Trampoline

/-!
# The loop

One pass of the loop runs the timers that are due, in the order of their deadlines and among equal deadlines in the
order of arrival, and then takes one message. Tasks run in the order in which they were queued; a task that
throws is counted and forgotten.

`World.comeToRest` lets the loop go on until two rounds in a row have queued nothing. A round is everything that was
in the inbox when the round began. The clock moves only when it is told to.

`Timer.pairwise_insert` says that a timer that arrives leaves the timers in the order in which they run.
-/

namespace FiberLoop

namespace Timer

/-- Put a timer in its place among timers in order. -/
def insert (t : Timer) : List Timer → List Timer
  | [] => [t]
  | u :: rest => if t.before u then t :: u :: rest else u :: t.insert rest

theorem mem_insert {t u : Timer} {l : List Timer} : u ∈ t.insert l ↔ u = t ∨ u ∈ l := by
  induction l with
  | nil => simp [insert]
  | cons v rest ih =>
    simp only [insert]
    split
    · simp
    · simp only [List.mem_cons, ih]
      constructor
      · rintro (h | h | h) <;> simp [h]
      · rintro (h | h | h) <;> simp [h]

theorem before_trans {t u v : Timer} (h : t.before u = true) (h' : u.before v = true) :
    t.before v = true := by
  simp only [before, Bool.or_eq_true, Bool.and_eq_true, decide_eq_true_eq, beq_iff_eq] at h h' ⊢
  rcases h with h | ⟨hd, ha⟩
  · rcases h' with h' | ⟨hd', _⟩
    · exact Or.inl (Nat.lt_trans h h')
    · exact Or.inl (hd' ▸ h)
  · rcases h' with h' | ⟨hd', ha'⟩
    · exact Or.inl (hd ▸ h')
    · exact Or.inr ⟨hd.trans hd', Nat.lt_trans ha ha'⟩

/-- Of two timers that arrived at different times one goes before the other. -/
theorem before_of_not_before {t u : Timer} (hne : t.arrival ≠ u.arrival) (h : ¬ t.before u = true) :
    u.before t = true := by
  simp only [before, Bool.or_eq_true, Bool.and_eq_true, decide_eq_true_eq, beq_iff_eq] at h ⊢
  omega

/-- Timers stay in the order in which they run. -/
theorem pairwise_insert {t : Timer} {l : List Timer} (h : l.Pairwise fun u v => u.before v = true)
    (hne : ∀ u ∈ l, t.arrival ≠ u.arrival) : (t.insert l).Pairwise fun u v => u.before v = true := by
  induction l with
  | nil => simp [insert]
  | cons u rest ih =>
    obtain ⟨hu, hrest⟩ := List.pairwise_cons.1 h
    simp only [insert]
    split
    · rename_i htu
      refine List.pairwise_cons.2 ⟨?_, h⟩
      intro v hv
      rcases List.mem_cons.1 hv with rfl | hv
      · exact htu
      · exact before_trans htu (hu v hv)
    · rename_i htu
      refine List.pairwise_cons.2 ⟨?_, ih hrest fun v hv => hne v (List.mem_cons_of_mem _ hv)⟩
      intro v hv
      rcases mem_insert.1 hv with rfl | hv
      · exact before_of_not_before (hne u List.mem_cons_self) htu
      · exact hu v hv

end Timer

namespace World

/-- Run a task. -/
def runTask (task : Task) (w : World) : World :=
  match task with
  | .start f => w.begin f
  | .resume f run next => w.giveTurn f run next
  | .unwind f canceler run => (canceler.cancel.attempt w).giveTurn f run (.cause .interrupted)
  | .succeed callback v => w.settle callback (.value v)
  | .actions actions env => (Action.runAll env none actions).attempt w

/-- Whether a timer was cancelled. -/
def isCancelled (w : World) (timer : TimerId) : Bool := (w.stores.timers.get? timer.index).getD false

/-- Run the task of a timer, unless it was cancelled. -/
def fire (w : World) (t : Timer) : World := if w.isCancelled t.timer then w else w.runTask t.task

/-- Run the timers that are due. -/
def fireDue (w : World) : World :=
  let due := w.loop.timers.takeWhile (·.deadline ≤ w.clock)
  let later := w.loop.timers.dropWhile (·.deadline ≤ w.clock)
  due.foldl fire { w with loop := { w.loop with timers := later } }

/-- Handle a message. -/
def handle (message : Message) (w : World) : World :=
  match message with
  | .task task => w.runTask task
  | .timer deadline timer task =>
    let arrival := w.loop.arrivals + 1
    let t : Timer := { deadline := deadline, arrival := arrival, timer := timer, task := task }
    { w with loop := { w.loop with arrivals := arrival, timers := t.insert w.loop.timers } }
  | .shutdown => { w with loop := { w.loop with stopped := true } }

/-- Take the next message, if there is one. -/
def takeMessage (w : World) : World :=
  match w.loop.inbox with
  | [] => w
  | message :: rest => { w with loop := { w.loop with inbox := rest } }.handle message

/-- One pass of the loop. A loop that has stopped does nothing. -/
def pass (w : World) : World := if w.loop.stopped then w else w.fireDue.takeMessage

/-- A number of passes, and the timers that are due then. -/
def passes : Nat → World → World
  | 0, w => if w.loop.stopped then w else w.fireDue
  | n + 1, w => passes n w.pass

/-- A round: pass until everything that is in the inbox now has been handled. -/
def round (w : World) : World := passes w.loop.inbox.length w

/-- A number of rounds; a loop that has stopped stays as it is. -/
def rounds : Nat → World → World
  | 0, w => w
  | n + 1, w => rounds n w.round

/-- Go round until two rounds in a row have queued nothing. The answer is false if the number of rounds does not
suffice. -/
def settleWithin : Nat → Bool → World → Bool × World
  | 0, _, w => (false, w)
  | n + 1, quietBefore, w =>
    let after := w.round
    let quiet := after.loop.dispatched == w.loop.dispatched
    if after.loop.stopped || (quiet && quietBefore) then (true, after)
    else settleWithin n quiet after

/-- The number of rounds after which a loop counts as busy. -/
def roundLimit : Nat := 3001

/-- Let the loop come to rest. The answer is false if it does not. -/
def comeToRest (w : World) : Bool × World := settleWithin roundLimit false w

/-- Move the clock. -/
def tick (w : World) : World := { w with clock := w.clock + 1 }

/-- Let the loop come to rest after each of a number of milliseconds. -/
def restEach : Nat → World → Bool × World
  | 0, w => (true, w)
  | n + 1, w =>
    match w.tick.comeToRest with
    | (true, w) => restEach n w
    | (false, w) => (false, w)

/-- Let the loop come to rest now and after each of a number of milliseconds. -/
def advance (milliseconds : Nat) (w : World) : Bool × World :=
  match w.comeToRest with
  | (true, w) => restEach milliseconds w
  | (false, w) => (false, w)

end World

end FiberLoop
