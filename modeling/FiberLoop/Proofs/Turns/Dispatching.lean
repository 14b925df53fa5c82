import FiberLoop.Proofs.Loop.Ordering
import FiberLoop.Proofs.Turns.Counting

/-!
# One dispatch for each turn

The journal of a loop has every task that was queued there. A turn of a fiber begins exactly when a task that goes on
with it is taken from the inbox of its home, so a fiber for which nothing waits has had as many turns as tasks were
queued for it (`Scene.Occurs.dispatches_eq`).
-/

namespace FiberLoop

namespace Scene

/-- The number of tasks that are queued for a fiber on a loop. -/
def dispatches (f : FiberId) (home : LoopName) (s : Scene) (strokes : List Stroke) : Nat :=
  ((s.journal home strokes).posted.filterMap (Message.token? f)).length

variable {s : Scene} {f : FiberId} {home name : LoopName} {stroke : Stroke} {strokes : List Stroke} {w : World}
  {message : Message} {kept : List Effect}

/-- What was in the inbox and what came there has been taken, in this order, or is still there. -/
theorem Occurs.flow (h : s.Occurs) (name : LoopName) (strokes : List Stroke) :
    (s.moment.world.loopAt name).inbox ++ (s.journal name strokes).posted =
      (s.journal name strokes).taken ++ ((s.after strokes).moment.world.loopAt name).inbox := by
  obtain ⟨j, hj⟩ : ∃ j, Journal.Accords name j [] s.moment.world := by
    obtain ⟨config, definitions, before, rfl⟩ := h
    have hstart : Journal.Accords name [] [] (Scene.initial config definitions).moment.world :=
      .initial name config definitions
    exact ⟨_, hstart.after (.initial config definitions) before⟩
  have hposted := (hj.after h strokes).posted
  rw [Journal.posted_append, Journal.taken_append, hj.posted, List.append_assoc, List.append_assoc] at hposted
  exact List.append_cancel_left hposted

/-! ## Tasks that are taken -/

theorem taken_firingDue (name : LoopName) (w : World) : (w.firingDue name).taken = [] := World.taken_firing ..

/-- An idle loop goes on, or no message is taken and no turn begins. -/
theorem goes_or_taken_eq_nil (f : FiberId) (s : Scene) (stroke : Stroke) (name : LoopName) :
    (∃ w kept, s = ⟨⟨w, .idle⟩, kept⟩ ∧ stroke = .next) ∨
      (s.happenings name stroke).taken = [] ∧ ¬ s.TakesUp f stroke := by
  by_cases hbusy : s.moment.activity = .idle
  · obtain ⟨⟨w, a⟩, kept⟩ := s
    cases hbusy
    cases stroke with
    | next => exact Or.inl ⟨w, kept, rfl, rfl⟩
    | fire =>
      refine Or.inr ⟨?_, ?_⟩
      · simp only [happenings]
        split
        · exact taken_firingDue name w
        · exact World.taken_noted
      · rintro ⟨-, hafter⟩
        cases hafter
    | switch | clock =>
      refine Or.inr ⟨World.taken_noted, ?_⟩
      rintro ⟨-, hafter⟩
      cases hafter
    | demand d =>
      refine Or.inr ⟨World.taken_noted, ?_⟩
      rintro ⟨-, hafter⟩
      simp only [play] at hafter
      split at hafter <;> cases hafter
  · rw [happenings_of_busy hbusy]
    refine Or.inr ⟨World.taken_noted, ?_⟩
    rintro ⟨hbefore, hafter⟩
    by_cases hnext : stroke = .next
    · subst hnext
      rcases Moment.activity_next hbusy with hidle | hsame
      · rw [show (s.play .next).moment = s.moment.next from rfl, hidle] at hafter
        cases hafter
      · exact hbefore (hsame.symm.trans hafter)
    · rw [activity_play rfl hbusy hnext] at hafter
      exact hbefore hafter

/-- The loops do not change places while one of them goes on. -/
theorem Occurs.here_next (h : s.Occurs) : (s.play .next).moment.world.here = s.moment.world.here := by
  have hquiet := h.timersQuiet
  by_cases hbusy : s.moment.activity = .idle
  · obtain ⟨⟨w, a⟩, kept⟩ := s
    cases hbusy
    have hfire : w.fireDue.here = w.here := (World.Extends.fireDue hquiet).here
    simp only [play, Moment.next]
    split
    · rfl
    · rw [World.takeNext]
      split
      · exact hfire
      · exact (World.Extends.takeUp _ _).here.trans hfire
  · exact (posts_of_busy hbusy .next).here

/-- A message begins a turn of a fiber just if it is a task that goes on with it. -/
theorem Occurs.active_takeUp_iff (h : Occurs ⟨⟨w, .idle⟩, kept⟩) {rest : List Message}
    (hinbox : w.loop.inbox = message :: rest) :
    (w.dropMessage.takeUp message).activity.fiber? = some f ↔ (message.token? f).isSome = true := by
  constructor
  · intro hactive
    refine Option.isSome_iff_ne_none.2 fun hnone => ?_
    exact World.activity_takeUp hnone _ hactive
  · intro hsome
    obtain ⟨t, ht⟩ := Option.isSome_iff_exists.1 hsome
    obtain ⟨rfl, hf⟩ := Message.eq_of_token? ht
    cases t with
    | succeed | actions => cases hf
    | resume | unwind => exact hf
    | start g =>
      cases hf
      have htask : .task (.start f) ∈ (w.loopAt w.here).inbox := by
        rw [World.loopAt_here, hinbox]
        exact List.mem_cons_self
      rcases h.absent_or_fits f with habsent | ⟨p, hp⟩
      · have htokens : w.tokens f = [] := habsent.tokens
        have hmem := World.mem_tokens_of_loopAt htask rfl
        rw [htokens] at hmem
        cases hmem
      · obtain ⟨root, hfresh⟩ := hp.fresh_of_task htask
        have hphase : (w.dropMessage.fiber? f).map Fiber.phase = some (.created root) :=
          hp.phase?_eq.trans (congrArg some (congrArg Standing.phase hfresh))
        simp only [World.takeUp, hphase]
        rfl

/-- A loop that goes on takes the message that comes first after the timers have run. -/
theorem taken_next (w : World) (kept : List Effect) (name : LoopName) :
    (Scene.happenings name ⟨⟨w, .idle⟩, kept⟩ .next).taken =
      if name = w.here ∧ w.loop.stopped = false then w.fireDue.loop.inbox.take 1 else [] := by
  simp only [happenings]
  split
  · rw [Journal.taken_append, taken_firingDue, List.nil_append, World.taking]
    cases w.fireDue.loop.inbox with
    | nil => rfl
    | cons message rest => exact congrArg (message :: ·) World.taken_noted
  · exact World.taken_noted

/-- One message is taken at most. -/
theorem taken_cases (s : Scene) (name : LoopName) (stroke : Stroke) :
    (s.happenings name stroke).taken = [] ∨ ∃ message, (s.happenings name stroke).taken = [message] := by
  rcases goes_or_taken_eq_nil ⟨0⟩ s stroke name with ⟨w, kept, rfl, rfl⟩ | ⟨hnone, -⟩
  · rw [taken_next]
    split
    · cases w.fireDue.loop.inbox with
      | nil => exact Or.inl rfl
      | cons message rest => exact Or.inr ⟨message, rfl⟩
    · exact Or.inl rfl
  · exact Or.inl hnone

/-- A loop that goes on begins a turn of a fiber just if a task that goes on with it comes first. -/
theorem Occurs.takesUp_next_iff (h : Occurs ⟨⟨w, .idle⟩, kept⟩) (hstopped : w.loop.stopped = false) :
    TakesUp f ⟨⟨w, .idle⟩, kept⟩ .next ↔
      ((w.fireDue.loop.inbox.take 1).filterMap (Message.token? f)).length = 1 := by
  have hplay : (Scene.play ⟨⟨w, .idle⟩, kept⟩ .next).moment = w.fireDue.takeNext := by
    simp only [play, Moment.next, hstopped, Bool.false_eq_true, if_false]
  have hfire : Occurs ⟨⟨w.fireDue, .idle⟩, kept⟩ := by
    have hplayed := h.after [.fire]
    simp only [after_cons, after_nil, play, between, hstopped, Bool.false_eq_true, if_false] at hplayed
    exact hplayed
  have hidle : Activity.idle.fiber? ≠ some f := Option.some_ne_none f |>.symm
  rw [TakesUp, hplay, and_iff_right hidle, World.takeNext]
  cases hinbox : w.fireDue.loop.inbox with
  | nil =>
    constructor
    · intro hactive
      cases hactive
    · intro hone
      cases hone
  | cons message rest =>
    refine (hfire.active_takeUp_iff hinbox).trans ?_
    rw [List.take_succ_cons, List.take_zero]
    cases hmessage : message.token? f with
    | none =>
      rw [List.filterMap_cons_none hmessage]
      constructor
      · intro hsome
        cases hsome
      · intro hone
        cases hone
    | some t =>
      rw [List.filterMap_cons_some hmessage]
      exact ⟨fun _ => rfl, fun _ => rfl⟩

/-- **A turn begins just when a task is taken from the inbox of the home.** -/
theorem Occurs.taken_eq (h : s.Occurs) (hhome : ∀ name, (s.play stroke).Lives f name → name = home) :
    ((s.happenings home stroke).taken.filterMap (Message.token? f)).length = if s.TakesUp f stroke then 1 else 0 := by
  rcases goes_or_taken_eq_nil f s stroke home with ⟨w, kept, rfl, rfl⟩ | ⟨htaken, htakes⟩
  swap
  · rw [htaken, if_neg htakes]
    rfl
  have hafter : (Scene.play ⟨⟨w, .idle⟩, kept⟩ .next).Occurs := h.after [.next]
  rw [taken_next]
  by_cases hstopped : w.loop.stopped = true
  · have htakes : ¬ TakesUp f ⟨⟨w, .idle⟩, kept⟩ .next := by
      rintro ⟨-, hactive⟩
      rw [play, Moment.next_of_stopped hstopped] at hactive
      cases hactive
    rw [if_neg htakes, if_neg fun hruns => Bool.noConfusion (hruns.2.symm.trans hstopped)]
    rfl
  have hrunning : w.loop.stopped = false := Bool.eq_false_iff.2 hstopped
  by_cases hname : home = w.here
  · have hone : ((w.fireDue.loop.inbox.take 1).filterMap (Message.token? f)).length ≤ 1 :=
      (List.length_filterMap_le ..).trans (List.length_take_le ..)
    have hiff := h.takesUp_next_iff (f := f) hrunning
    rw [if_pos ⟨hname, hrunning⟩]
    by_cases htakes : TakesUp f ⟨⟨w, .idle⟩, kept⟩ .next
    · rw [if_pos htakes]
      exact hiff.1 htakes
    · have hnot := mt hiff.2 htakes
      rw [if_neg htakes]
      omega
  · have htakes : ¬ TakesUp f ⟨⟨w, .idle⟩, kept⟩ .next := fun htakes => by
      have hhere := hhome _ (hafter.atHome.active f htakes.2)
      exact hname (hhere.symm.trans h.here_next)
    rw [if_neg htakes, if_neg fun hruns => hname hruns.1]
    rfl

/-- **The tasks that are taken for a fiber are as many as its turns.** -/
theorem Occurs.taken_eq_begun (h : s.Occurs) (hhome : s.Along (fun s => ∀ name, s.Lives f name → name = home) strokes) :
    ((s.journal home strokes).taken.filterMap (Message.token? f)).length = s.begun f strokes := by
  induction strokes generalizing s with
  | nil => rfl
  | cons stroke rest ih =>
    have hlater := ih (s := s.play stroke) (h.after [stroke]) hhome.tail
    rw [journal, Journal.taken_append, List.filterMap_append, List.length_append, h.taken_eq hhome.tail.head, hlater]
    rfl

/-- **A fiber has had a turn for every task that was queued for it, but for those that wait.** -/
theorem Occurs.dispatches_eq (h : s.Occurs) (hhome : s.Along (fun s => ∀ name, s.Lives f name → name = home) strokes) :
    ((s.moment.world.loopAt home).tokens f).length + s.dispatches f home strokes =
      s.begun f strokes + (((s.after strokes).moment.world.loopAt home).tokens f).length := by
  have hflow := congrArg (fun l => (l.filterMap (Message.token? f)).length) (h.flow home strokes)
  simp only [List.filterMap_append, List.length_append] at hflow
  rw [h.taken_eq_begun hhome] at hflow
  exact hflow

end Scene

end FiberLoop
