import FiberLoop.Proofs.Deferreds.Delivery

/-!
# Write once

A deferred is completed once. Those who wait for it at that time go on with its exit, each of them once and in the
order in which they have joined the line, and who comes later gets the exit without being parked. A fiber whose wait
is interrupted takes its own place out of the line, and nothing else.

The main result of this module is `Scene.Occurs.writeOnce`.
-/

namespace FiberLoop

open World

/-- How a completed deferred treats those who come later. -/
structure Settled (d : DeferredId) (x : Exit Value Value) (s : Scene) : Prop where
  /-- The exit stays for ever. -/
  kept : ∀ strokes, (s.after strokes).moment.world.pollDeferred d = some x
  /-- Completing the deferred again changes nothing and is told so. -/
  refused : ∀ y, s.moment.world.completeDeferred d y = (false, s.moment.world)
  ignored : ∀ y, s.Completes d y → (s.play .next).moment.world = s.moment.world
  /-- Who comes to wait goes on with the exit and is not parked, whatever others do meanwhile. -/
  later : ∀ f left run first second, s.moment.activity = .running f (left + 1) ⟨run, .eval (.awaitDeferred d)⟩ →
    s.moment.world.interruptPending f run.masks = false → (∀ stroke ∈ first, stroke ≠ .next) →
      (∀ stroke ∈ second, stroke ≠ .next) →
        (((((s.play .next).after first).play .next).after second).play .next).moment.activity =
          .running f left ⟨run, .ofExit x⟩
  /-- No flag is set by that. -/
  flags : ∀ f left run epoch, s.moment.activity = .registering f left run (.deferred d) epoch →
    ∀ g, (s.play .next).moment.world.flagged g = s.moment.world.flagged g

/-- What the first completion of a deferred does to those who wait for it. -/
structure Delivers (d : DeferredId) (x : Exit Value Value) (waiters : List (Nat × Callback)) (s : Scene) : Prop where
  first : (s.moment.world.completeDeferred d x).1 = true
  stored : (s.play .next).moment.world.pollDeferred d = some x
  /-- One task is queued for each fiber that is parked, in the order of the line. -/
  queues : ∀ name, ((s.play .next).moment.world.loopAt name).inbox =
    (s.moment.world.loopAt name).inbox ++ (waiters.filterMap (s.moment.world.rouses name x)).map .task
  /-- That task is all that goes on with the fiber. It waits until it is taken, and then the fiber goes on with the
  exit. The callback of the fiber is dead, so it is not roused a second time. -/
  resumes : ∀ f home run key, s.moment.world.Asleep f home run (.waiter d key) →
    (s.play .next).moment.world.tokens f = [.resume f run (.ofExit x)] ∧
    (∀ strokes, .task (.resume f run (.ofExit x)) ∈ (((s.play .next).after strokes).moment.world.loopAt home).inbox ∨
      ∃ before stroke after left, strokes = before ++ stroke :: after ∧
        (((s.play .next).after before).play stroke).moment.activity = .running f left ⟨run, .ofExit x⟩) ∧
    ∀ strokes y, ((s.play .next).after strokes).moment.world.settle ⟨f, s.moment.world.epoch f⟩ y =
      ((s.play .next).after strokes).moment.world
  /-- Who came first goes on first, on each loop. -/
  inTurn : ∀ f g home run run' key key' canceler' strokes, s.moment.world.Asleep f home run (.waiter d key) →
    s.moment.world.Asleep g home run' (.waiter d key') → key < key' →
      (s.play .next).Resumes g home run' canceler' x strokes →
        (s.play .next).Before (·.moment.activity.GoesOn f run (.waiter d key)) strokes
  /-- Whoever is not parked in the line is left alone, those too whose wait was interrupted. -/
  spares : ∀ f, (∀ home run key, ¬ s.moment.world.Asleep f home run (.waiter d key)) →
    ∀ a, (s.play .next).moment.world.view f a = s.moment.world.view f a
  /-- No flag is set, whatever the exit is. -/
  flags : ∀ f, (s.play .next).moment.world.flagged f = s.moment.world.flagged f

/-- The line of a deferred. -/
structure Line (d : DeferredId) (s : Scene) : Prop where
  /-- The line is in the order of the keys, and nobody stands in it twice. -/
  ordered : ((s.moment.world.line d).map (·.1)).Pairwise (· < ·)
  once : ((s.moment.world.line d).map (·.2.fiber)).Nodup
  /-- Who is parked stands in the line, and is not flagged where it may be interrupted. -/
  parked : ∀ f home run key, s.moment.world.Asleep f home run (.waiter d key) →
    (key, ⟨f, s.moment.world.epoch f⟩) ∈ s.moment.world.line d ∧
      (run.masks.isInterruptible = true → s.moment.world.flagged f = false)
  /-- When nothing is left to do, the line holds exactly those who are parked. -/
  exact : s.moment.activity = .idle → s.moment.world.loop.inbox = [] → s.moment.world.aside.inbox = [] →
    ∀ e, e ∈ s.moment.world.line d ↔
      (∃ home run, s.moment.world.Asleep e.2.fiber home run (.waiter d e.1)) ∧
        e.2.epoch = s.moment.world.epoch e.2.fiber
  /-- Fibers join at the end with a greater key and leave one by one, until the deferred is completed. -/
  changes : (s.moment.world.deferred? d).isSome = true → ∀ stroke,
    ((s.play stroke).moment.world.pollDeferred d).isSome = true ∨
      (s.play stroke).moment.world.line d = s.moment.world.line d ∨
      (∃ f left run epoch key, stroke = .next ∧ s.moment.activity = .registering f left run (.deferred d) epoch ∧
        (s.play stroke).moment.world.line d = s.moment.world.line d ++ [(key, ⟨f, epoch⟩)] ∧
        ∀ e ∈ s.moment.world.line d, e.1 < key) ∨
      ∃ f left run key, stroke = .next ∧ s.moment.activity = .canceling f left run (.waiter d key) ∧
        (s.play stroke).moment.world.line d = (s.moment.world.line d).filter (·.2.fiber ≠ f)

/-- The interruption of a fiber that waits for a deferred. -/
structure Unwinds (d : DeferredId) (s : Scene) : Prop where
  /-- The request touches no deferred, and has the wait cancelled. -/
  asked : ∀ f home run key, s.moment.world.Asleep f home run (.waiter d key) → run.masks.isInterruptible = true →
    (s.moment.world.interrupt f).stores = s.moment.world.stores ∧
      .task (.unwind f (.waiter d key) run) ∈ ((s.moment.world.interrupt f).loopAt home).inbox
  /-- The task that cancels the wait waits until it is taken. -/
  taken : ∀ f home run key, .task (.unwind f (.waiter d key) run) ∈ (s.moment.world.loopAt home).inbox →
    ∀ strokes, .task (.unwind f (.waiter d key) run) ∈ ((s.after strokes).moment.world.loopAt home).inbox ∨
      ∃ before stroke after left, strokes = before ++ stroke :: after ∧
        ((s.after before).play stroke).moment.activity = .canceling f left run (.waiter d key)
  /-- A fiber that cancels its wait takes its own place out of the line, and does nothing else to any deferred. -/
  leaves : ∀ f left run key, s.moment.activity = .canceling f left run (.waiter d key) →
    (s.play .next).moment.activity = .running f left ⟨run, .cause .interrupted⟩ ∧
      (s.play .next).moment.world.line d = (s.moment.world.line d).filter (·.2.fiber ≠ f) ∧
      (∀ d', d' ≠ d → (s.play .next).moment.world.deferred? d' = s.moment.world.deferred? d') ∧
      (s.play .next).moment.world.pollDeferred d = s.moment.world.pollDeferred d

/-- How a deferred treats those who wait for it. -/
structure WriteOnce (d : DeferredId) (s : Scene) : Prop where
  settled : ∀ x, s.moment.world.pollDeferred d = some x → Settled d x s
  delivers : ∀ x waiters next, s.moment.world.deferred? d = some (.pending waiters next) → s.Completes d x →
    Delivers d x waiters s
  line : Line d s
  unwinds : Unwinds d s

variable {s : Scene} {d : DeferredId} {x : Exit Value Value} {waiters : List (Nat × Callback)} {next : Nat}

namespace Scene

theorem Occurs.settled (h : s.Occurs) (hx : s.moment.world.pollDeferred d = some x) : Settled d x s where
  kept := h.poll_after hx
  refused := completeDeferred_of_done hx
  ignored y hcompletes := by rw [hcompletes.world_play, completeDeferred_of_done hx]
  later f left run first second ha hopen hfirst hsecond := h.goesOn_of_done ha hopen hx hfirst hsecond
  flags f left run epoch ha := (h.answered ha hx).2.2

theorem Occurs.delivers (h : s.Occurs) (hrow : s.moment.world.deferred? d = some (.pending waiters next))
    (hcompletes : s.Completes d x) : Delivers d x waiters s where
  first := congrArg Prod.fst (completeDeferred_of_pending hrow x)
  stored := by
    rw [hcompletes.world_play, completeDeferred_of_pending hrow, pollDeferred_eq_some, deferred?_settleAll]
    exact deferred?_setDeferred_self hrow
  queues name := by rw [hcompletes.world_play, h.tidy.inbox_complete hrow]
  resumes f home run key hasleep := by
    have hafter : (s.play .next).Occurs := h.after [.next]
    have htask := h.tidy.task_complete hasleep x
    rw [← hcompletes.world_play] at htask
    refine ⟨(hafter.held_of_task htask rfl).1, fun strokes => ?_, hafter.settle_of_past (h.epoch_complete hcompletes hasleep)⟩
    refine (hafter.queued_after htask rfl strokes).imp_right ?_
    rintro ⟨before, stroke, after, hstrokes, -, v, htaken⟩
    exact ⟨before, stroke, after, v.budget, hstrokes, congrArg Moment.activity htaken⟩
  inTurn f g home run run' key key' canceler' strokes hf hg hlt hresumes :=
    h.resumes_first hcompletes hf hg hlt hresumes
  spares f hasleep a := by
    rw [hcompletes.world_play]
    exact h.tidy.view_complete hasleep (fun left run key => hcompletes.not_returning f left run _) x a
  flags f := by rw [hcompletes.world_play, flagged_completeDeferred]

theorem Occurs.line (h : s.Occurs) (d : DeferredId) : Line d s where
  ordered := h.tidy.pairwise_line d
  once := h.tidy.nodup_line d
  parked f home run key hasleep := ⟨h.tidy.mem_line_of_asleep hasleep, h.unflagged_of_asleep hasleep⟩
  exact hidle hloop haside e := by
    refine ⟨fun he => ?_, ?_⟩
    · rcases h.tidy.cases_of_mem_line he with hparked | ⟨⟨left, run, hreturning⟩, -⟩ |
        ⟨-, ⟨run, htokens⟩ | ⟨left, run, hcanceling⟩⟩
      · exact hparked
      · exact nomatch hidle.symm.trans hreturning
      · cases (tokens_of_empty hloop haside _).symm.trans htokens
      · exact nomatch hidle.symm.trans hcanceling
    · rintro ⟨⟨home, run, hasleep⟩, hepoch⟩
      have hmem := h.tidy.mem_line_of_asleep hasleep
      rwa [← hepoch] at hmem
  changes hrow stroke := h.line_play hrow stroke

theorem Occurs.unwinds (h : s.Occurs) (d : DeferredId) : Unwinds d s where
  asked f home run key hasleep hopen := by
    refine ⟨stores_interrupt _ f, ?_⟩
    have hunflagged := h.unflagged_of_asleep hasleep hopen
    obtain ⟨r, hr, rfl, hphase⟩ := hasleep
    obtain ⟨fiber, hfiber, rfl⟩ := fiber?_of_record hr
    rw [flagged, hfiber] at hunflagged
    rw [(interrupt_of_open hr hunflagged hphase hopen).1]
    exact mem_loopAt_dispatchTo _ _ _
  taken f home run key htask strokes := by
    refine (h.queued_after htask rfl strokes).imp_right ?_
    rintro ⟨before, stroke, after, hstrokes, -, v, htaken⟩
    exact ⟨before, stroke, after, v.budget, hstrokes, congrArg Moment.activity htaken⟩
  leaves f left run key ha := by
    have htidy := h.tidy
    obtain ⟨⟨w, a⟩, kept⟩ := s
    cases ha
    exact ⟨rfl, htidy.line_leave, fun d' hd => deferred?_leaveDeferred_of_ne hd, pollDeferred_leaveDeferred w d d key⟩

/-- **A deferred is completed once, and those who wait for it are served once and in order**, in every run. -/
theorem Occurs.writeOnce (h : s.Occurs) (d : DeferredId) : WriteOnce d s where
  settled _ hx := h.settled hx
  delivers _ _ _ hrow hcompletes := h.delivers hrow hcompletes
  line := h.line d
  unwinds := h.unwinds d

/-- Two fibers wait for a deferred, and a third one is about to complete it with an interruption. -/
def gathered : List Stroke :=
  [.demand (.scenario (.newDeferred "d")), .demand (.scenario (.run "a" (.deferred (.wait (.var "d"))) false)),
    .demand (.scenario (.run "b" (.deferred (.wait (.var "d"))) false)),
    .demand (.scenario (.run "c" (.deferred (.interrupt (.var "d"))) false))] ++ List.replicate 10 .next

theorem writeOnce_of_gathered :
    ((initial {} []).after gathered).moment.world.line ⟨0⟩ = [(0, ⟨⟨0⟩, 1⟩), (1, ⟨⟨1⟩, 1⟩)] ∧
      ((initial {} []).after gathered).Completes ⟨0⟩ .interrupted ∧
      WriteOnce ⟨0⟩ ((initial {} []).after gathered) := by
  have hcompletes : ((initial {} []).after gathered).Completes ⟨0⟩ .interrupted :=
    ⟨⟨2⟩, 1022, { frames := [.chain (.transform .same)] }, rfl, rfl⟩
  exact ⟨rfl, hcompletes, Occurs.writeOnce ((Occurs.initial {} []).after gathered) ⟨0⟩⟩

end Scene

end FiberLoop