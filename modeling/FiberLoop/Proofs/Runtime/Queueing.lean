import FiberLoop.Proofs.Runtime.Coverage

/-!
# Waiting in the queue

The loop takes its messages in the order in which they were queued. Every message is dealt with in a bounded
number of moments, and what is queued meanwhile comes behind what is there already. So a fiber that has yielded
comes closer to its next turn with every message.

The main results of this module are `Moment.rank_next`, that the activity of a moment comes to its end, and
`Awaits.next_of_cons` and `Awaits.next_of_nil`, that the task of the fiber comes forward and is taken.
-/

namespace FiberLoop

/-- A bound for the moments that are left of an activity. -/
def Activity.rank : Activity → Nat
  | .idle => 0
  | .exiting .. => 1
  | .running _ left _ => 4 * left + 1
  | .canceling _ left .. => 4 * left + 2
  | .returning _ left .. => 4 * left + 3
  | .registering _ left .. => 4 * left + 4

/-- A fiber that has yielded, and the messages before the task with which it goes on. -/
def Awaits (f : FiberId) (s : Stand) (before : List Message) (w : World) : Prop :=
  before ++ [.task (.resume f s.run s.next)] <+: w.loop.inbox

section Queueing

variable {f : FiberId} {s : Stand} {w w' : World} {m : Moment} {before : List Message}

/-! ## Activities come to their end -/

theorem World.rank_act (w : World) (g : FiberId) (left : Nat) (s : Stand) :
    (w.act g left s).activity.rank < 4 * (left + 1) + 1 := by
  unfold act
  cases s.deed with
  | move s' =>
    simp only [Activity.rank]
    omega
  | call c run =>
    dsimp only
    split <;> (simp only [Activity.rank]; omega)
  | register r =>
    dsimp only
    split <;> (simp only [Activity.rank]; omega)
  | exit x =>
    dsimp only
    split <;> (simp only [Activity.rank]; omega)

theorem World.rank_beginRegistration (w : World) (g : FiberId) (left : Nat) (run : Run) (r : Registration)
    (epoch : Nat) : (w.beginRegistration g left run r epoch).activity.rank < 4 * left + 4 := by
  unfold beginRegistration
  split <;> (simp only [Activity.rank]; omega)

theorem World.rank_leaveRegistration (w : World) (g : FiberId) (left : Nat) (run : Run) (c : Canceler) :
    (w.leaveRegistration g left run c).activity.rank < 4 * left + 3 := by
  unfold leaveRegistration
  split
  · simp only [Activity.rank]
    omega
  · split <;> (simp only [Activity.rank]; omega)
  · simp only [Activity.rank]
    omega

/-- **Every activity comes closer to its end.** -/
theorem Moment.rank_next (h : m.activity ≠ .idle) : m.next.activity.rank < m.activity.rank := by
  obtain ⟨w, a⟩ := m
  cases a with
  | idle => exact absurd rfl h
  | running g left s =>
    cases left with
    | zero => exact Nat.zero_lt_one
    | succ left => exact w.rank_act g left s
  | registering g left run r epoch => exact w.rank_beginRegistration g left run r epoch
  | returning g left run c => exact w.rank_leaveRegistration g left run c
  | canceling g left run c => exact Nat.lt_succ_self _
  | exiting g x hook => exact Nat.zero_lt_one

/-! ## The queue is only added to -/

theorem World.Extends.act (w : World) (g : FiberId) (left : Nat) (s : Stand) :
    w.Extends (w.act g left s).world := by
  unfold World.act
  cases s.deed with
  | move s' => exact refl w
  | call c run =>
    dsimp only
    split
    · exact refl w
    · exact requested ((Act.Keeps.call (R := Requested) c).caught w)
  | register r =>
    dsimp only
    split
    · exact refl w
    · exact modifyFiber w g _
  | exit x =>
    dsimp only
    split
    · exact modifyFiber w g _
    · exact modifyFiber w g _

theorem World.Extends.beginRegistration (w : World) (g : FiberId) (left : Nat) (run : Run) (r : Registration)
    (epoch : Nat) : w.Extends (w.beginRegistration g left run r epoch).world := by
  have hrun := requested ((Act.Keeps.registration (R := Requested) r ⟨g, epoch⟩).caught w)
  unfold World.beginRegistration
  split
  · rename_i heq
    rw [heq] at hrun
    exact hrun.trans (modifyFiber _ g _)
  · rename_i heq
    rw [heq] at hrun
    exact hrun

theorem World.Extends.leaveRegistration (w : World) (g : FiberId) (left : Nat) (run : Run) (c : Canceler) :
    w.Extends (w.leaveRegistration g left run c).world := by
  unfold World.leaveRegistration
  split
  · exact modifyFiber w g _
  · split
    · exact modifyFiber w g _
    · exact modifyFiber w g _
  · exact refl w

theorem World.Extends.announce (w : World) (g : FiberId) (x : Exit Value Value) (hook : ExitHook) :
    w.Extends (w.announce g x hook) := by
  unfold World.announce
  split
  · exact modifyFiber w g _
  · exact refl w

/-- In the middle of an activity the loop only adds to its queue. -/
theorem Moment.extends_next (h : m.activity ≠ .idle) : m.world.Extends m.next.world := by
  obtain ⟨w, a⟩ := m
  cases a with
  | idle => exact absurd rfl h
  | running g left s =>
    cases left with
    | zero => exact .dispatch w _
    | succ left => exact .act w g left s
  | registering g left run r epoch => exact .beginRegistration w g left run r epoch
  | returning g left run c => exact .leaveRegistration w g left run c
  | canceling g left run c => exact .requested ((Act.Keeps.canceler (R := Requested) c).attempt w)
  | exiting g x hook =>
    exact World.Extends.trans (.announce w g x hook) (.requested (Requested.tell w g x hook))

theorem World.Extends.fireDue (h : w.TimersQuiet) : w.Extends w.fireDue := by
  have hlater : w.Extends { w with loop :=
      { w.loop with timers := w.loop.timers.dropWhile (·.deadline ≤ w.clock) } } :=
    ⟨⟨rfl, List.prefix_rfl⟩, .refl _, rfl⟩
  refine hlater.trans (requested (.fireAll (fun t ht => ?_) _))
  exact h.loop.timers t ((List.takeWhile_prefix _).subset ht)

theorem World.Extends.takeUp (message : Message) (w : World) : w.Extends (w.takeUp message).world := by
  cases message with
  | timer deadline timer task => exact ⟨⟨rfl, List.prefix_rfl⟩, .refl _, rfl⟩
  | shutdown => exact ⟨⟨rfl, List.prefix_rfl⟩, .refl _, rfl⟩
  | task task =>
    cases task with
    | succeed callback v => exact settle w callback _
    | actions list env => exact requested ((Act.Keeps.actions env none list).attempt w)
    | resume g run next => exact refl w
    | unwind g c run => exact refl w
    | start g =>
      unfold World.takeUp
      dsimp only
      split
      · exact modifyFiber w g _
      · exact refl w

/-! ## The front of the queue -/

theorem Awaits.mono (h : Awaits f s before w) (hextends : w.loop.Extends w'.loop) : Awaits f s before w' :=
  h.trans hextends.inbox

theorem Awaits.mem_tokens (h : Awaits f s before w) : .resume f s.run s.next ∈ w.tokens f := by
  have htoken : Message.token? f (.task (.resume f s.run s.next)) = some (.resume f s.run s.next) :=
    World.token?_task_self rfl
  refine List.mem_append_left _ (List.mem_filterMap.2 ⟨_, ?_, htoken⟩)
  exact h.subset (List.mem_append_right _ (List.mem_singleton_self _))

/-- A fiber that yields waits behind everything that is queued. -/
theorem Awaits.of_yield (f : FiberId) (s : Stand) (w : World) :
    Awaits f s w.loop.inbox (w.dispatch (.resume f s.run s.next)) := List.prefix_rfl

/-- The message before the task of the fiber is taken. -/
theorem Awaits.next_of_cons {message : Message} (h : Awaits f s (message :: before) w)
    (hquiet : w.TimersQuiet) (hstopped : w.loop.stopped = false) :
    Awaits f s before (Moment.next ⟨w, .idle⟩).world := by
  have hdue : Awaits f s (message :: before) w.fireDue := h.mono (World.Extends.fireDue hquiet).loop
  obtain ⟨rest, hinbox⟩ := hdue
  have htaken : Awaits f s before w.fireDue.dropMessage := by
    refine ⟨rest, ?_⟩
    rw [World.dropMessage, ← hinbox]
    rfl
  have hnext : Moment.next ⟨w, .idle⟩ = w.fireDue.dropMessage.takeUp message := by
    rw [Moment.next]
    dsimp only
    rw [hstopped, World.takeNext, ← hinbox]
    rfl
  rw [hnext]
  exact htaken.mono (World.Extends.takeUp message _).loop

/-- The task of the fiber is taken, and its next turn begins. -/
theorem Awaits.next_of_nil (h : Awaits f s [] w) (hquiet : w.TimersQuiet) (hstopped : w.loop.stopped = false) :
    (Moment.next ⟨w, .idle⟩).activity = .running f w.budget s := by
  have hdue := World.Extends.fireDue hquiet
  obtain ⟨rest, hinbox⟩ := h.mono hdue.loop
  have hnext : Moment.next ⟨w, .idle⟩ = ⟨w.fireDue.dropMessage, .running f w.fireDue.budget s⟩ := by
    rw [Moment.next]
    dsimp only
    rw [hstopped, World.takeNext, ← hinbox]
    rfl
  rw [hnext, World.budget, hdue.loop.config]
  rfl

/-- A loop that has stopped takes nothing. -/
theorem Moment.next_of_stopped (h : w.loop.stopped = true) : Moment.next ⟨w, .idle⟩ = ⟨w, .idle⟩ := by
  simp [next, h]

/-- The configuration of the loop is fixed for good. -/
theorem Moment.config_next (hquiet : m.world.TimersQuiet) :
    m.next.world.loop.config = m.world.loop.config := by
  by_cases hidle : m.activity = .idle
  · obtain ⟨w, a⟩ := m
    subst hidle
    cases hstopped : w.loop.stopped with
    | true => rw [next_of_stopped hstopped]
    | false =>
      have hnext : Moment.next ⟨w, .idle⟩ = w.fireDue.takeNext := by
        rw [Moment.next]
        dsimp only
        rw [hstopped]
        rfl
      have hdue := (World.Extends.fireDue hquiet).loop.config
      rw [hnext, World.takeNext]
      split
      · exact hdue
      · exact (World.Extends.takeUp _ _).loop.config.trans hdue
  · exact (extends_next hidle).loop.config

end Queueing

end FiberLoop
