import FiberLoop.Proofs.Permits.Exclusion
import FiberLoop.Proofs.Queues.Matching

/-!
# Where a fiber is that waits for a deferred

From the moment on at which a fiber begins to wait for a deferred it is in one of a few places: it is about to join
the line, it stands in it while the deferred is pending, it has been given the exit, or its wait was interrupted
(`Scene.Waits`). It leaves these places in one way: it goes on with the exit of the deferred, or interrupted.

The main result of this module is `Scene.Occurs.waits_play`.
-/

namespace FiberLoop

open World

/-- A fiber that stands in the line of a deferred. -/
inductive Standing.Sits (run : Run) (d : DeferredId) (key : Nat) : Standing → Prop where
  | returned : Sits run d key (.returned run none (.waiter d key))
  | parked : Sits run d key (.parked run (.waiter d key))

theorem Standing.Sits.seat? {p : Place} {run : Run} {d : DeferredId} {key : Nat} (h : p.standing.Sits run d key) :
    p.seat? = some ⟨d, key, p.epoch⟩ := by
  obtain ⟨standing, epoch, requested, hook⟩ := p
  cases h with
  | returned | parked => rfl

theorem Standing.Sits.run? {s : Standing} {run : Run} {d : DeferredId} {key : Nat} (h : s.Sits run d key) :
    s.run? = some run := by
  cases h with
  | returned | parked => rfl

namespace Scene

/-- Where a fiber can be that waits for a deferred. -/
inductive Waits (f : FiberId) (run : Run) (d : DeferredId) (s : Scene) : Prop where
  | joining {left epoch : Nat} (ha : s.moment.activity = .registering f left run (.deferred d) epoch)
  | seated {p : Place} {key : Nat} (hp : Fits f (s.moment.view f) p) (hsits : p.standing.Sits run d key)
    (hpending : s.moment.world.pollDeferred d = none)
  /-- The exit is kept for the end of the registration. -/
  | given {left : Nat} {canceler : Canceler} {x : Exit Value Value}
    (ha : s.moment.activity = .returning f left run canceler)
    (hphase : s.moment.world.phase? f = some (.registering (some x))) (hx : s.moment.world.pollDeferred d = some x)
  | unwinding {p : Place} {epoch key : Nat} (hp : Fits f (s.moment.view f) p)
    (hstanding : p.standing = .unwinding epoch run (.waiter d key))
  /-- The wait is over. -/
  | ended {p : Place} {x : Exit Value Value} (hp : Fits f (s.moment.view f) p)
    (hready : p.standing = .ready ⟨run, .ofExit x⟩)
    (hx : s.moment.world.pollDeferred d = some x ∨ x = .interrupted)

variable {s : Scene} {f : FiberId} {run : Run} {d : DeferredId} {stroke : Stroke} {p : Place} {key left epoch : Nat}
  {canceler : Canceler} {x : Exit Value Value} {a : Activity} {stand : Stand}

/-- A fiber that runs is ready. -/
theorem Occurs.ready_of_activity (h : s.Occurs) (ha : s.moment.activity = .running f left stand) :
    ∃ p, Fits f (s.moment.view f) p ∧ p.standing = .ready stand := by
  obtain ⟨p, hp⟩ := h.fits_of_activity (by rw [ha]; rfl)
  exact ⟨p, hp, hp.ready_of_running ha⟩

/-- Only a fiber that is ready takes a step. -/
theorem stepper?_ne_of_not_ready (hp : Fits f (s.moment.view f) p) (hnot : ∀ stand, p.standing ≠ .ready stand)
    (stroke : Stroke) : s.stepper? stroke ≠ some f := by
  intro hstep
  obtain ⟨-, left, stand, ha⟩ := of_stepper? hstep
  exact hnot stand (hp.ready_of_running ha)

/-! ## What the places look like -/

theorem activity_of_returned {early : Option (Exit Value Value)} (hp : Fits f (s.moment.view f) p)
    (hstanding : p.standing = .returned run early canceler) :
    ∃ left, s.moment.activity = .returning f left run canceler := by
  have hheld : Held f p.epoch p.hook p.standing (s.moment.world.tokens f) (s.moment.activity.of f) := hp.held
  rw [hstanding] at hheld
  generalize hactivity : s.moment.activity.of f = b at hheld
  generalize s.moment.world.tokens f = tokens at hheld
  cases hheld with
  | returned run early canceler left => exact ⟨left, Activity.eq_of_of hactivity Activity.noConfusion⟩

theorem asleep_of_parked (hp : Fits f (s.moment.view f) p) (hstanding : p.standing = .parked run canceler) :
    ∃ home, s.moment.world.Asleep f home run canceler := by
  obtain ⟨home, hrecord⟩ := hp.record
  exact ⟨home, _, hrecord, rfl, (congrArg Standing.phase hstanding :)⟩

theorem Occurs.waits_of_canceling (h : s.Occurs) (ha : s.moment.activity = .canceling f left run (.waiter d key)) :
    s.Waits f run d := by
  obtain ⟨p, hp⟩ := h.fits_of_activity (by rw [ha]; rfl)
  obtain ⟨ended, hstanding, -⟩ := (hp.held_of_activity ha rfl).of_canceling
  exact .unwinding hp hstanding

/-! ## One stroke -/

/-- A fiber that is about to join the line joins it, or is given the exit. -/
theorem Occurs.waits_of_joining (h : s.Occurs) (ha : s.moment.activity = .registering f left run (.deferred d) epoch)
    (hmade : d.index < s.moment.world.stores.deferreds.size) (stroke : Stroke) : (s.play stroke).Waits f run d := by
  by_cases hstroke : stroke = .next
  · subst hstroke
    cases hpoll : s.moment.world.pollDeferred d with
    | some x =>
      obtain ⟨hactivity, hphase, -⟩ := h.answered ha hpoll
      exact .given hactivity hphase (h.poll_play hpoll .next)
    | none =>
      obtain ⟨waiters, key, hrow⟩ := pending_of_pollDeferred_none hpoll hmade
      have hplay : (s.play .next).moment = ⟨s.moment.world.setDeferred d (.pending (waiters ++ [(key, ⟨f, epoch⟩)]) (key + 1)),
          .returning f left run (.waiter d key)⟩ := by
        rw [← beginRegistration_of_pending hrow]
        obtain ⟨⟨w, a⟩, kept⟩ := s
        cases ha
        rfl
      have hafter : (s.play .next).Occurs := h.after [.next]
      obtain ⟨q, hq⟩ := hafter.fits_of_activity (f := f) (by rw [hplay]; rfl)
      have htidy := h.tidy
      obtain ⟨⟨early, hstanding⟩, -⟩ := (hq.held_of_activity (congrArg Moment.activity hplay) rfl).of_returning
      have hseat : q.seat? = some ⟨d, key, epoch⟩ := by
        rw [← hq.seat?]
        show (s.play .next).moment.seat? f = _
        rw [hplay]
        obtain ⟨⟨w, a⟩, kept⟩ := s
        cases ha
        exact htidy.seat?_join
      rw [Place.seat?, hstanding] at hseat
      cases early with
      | some x => cases hseat
      | none =>
        have hsits : q.standing.Sits run d key := hstanding ▸ .returned
        refine .seated hq hsits ?_
        rw [hplay, pollDeferred, deferred?_setDeferred_self hrow]
        rfl
  · exact .joining (activity_play ha Activity.noConfusion hstroke)

/-- A fiber that was given the exit goes on with it. -/
theorem Occurs.waits_of_given (h : s.Occurs) (ha : s.moment.activity = .returning f left run canceler)
    (hphase : s.moment.world.phase? f = some (.registering (some x))) (hx : s.moment.world.pollDeferred d = some x)
    (stroke : Stroke) : (s.play stroke).Waits f run d := by
  have hkept := h.poll_play hx stroke
  by_cases hstroke : stroke = .next
  · subst hstroke
    have hgoes := goesOn_of_kept ha hphase (List.forall_mem_nil _)
    obtain ⟨q, hq, hready⟩ := (h.after [.next]).ready_of_activity hgoes
    exact .ended hq hready (Or.inl hkept)
  · exact .given (activity_play ha Activity.noConfusion hstroke)
      ((requested_play ha Activity.noConfusion hstroke).kept hphase) hkept

/-- A fiber whose wait was interrupted goes on interrupted. -/
theorem Occurs.waits_of_unwinding (h : s.Occurs) (hp : Fits f (s.moment.view f) p)
    (hstanding : p.standing = .unwinding epoch run (.waiter d key)) (stroke : Stroke) :
    (s.play stroke).Waits f run d := by
  have hafter : (s.play stroke).Occurs := h.after [stroke]
  have hheld : Held f p.epoch p.hook p.standing (s.moment.world.tokens f) (s.moment.activity.of f) := hp.held
  rw [hstanding] at hheld
  generalize hactivity : s.moment.activity.of f = b at hheld
  generalize htokens : s.moment.world.tokens f = tokens at hheld
  cases hheld with
  | canceling hended _ _ left =>
    have ha : s.moment.activity = .canceling f left run (.waiter d key) := Activity.eq_of_of hactivity Activity.noConfusion
    by_cases hstroke : stroke = .next
    · subst hstroke
      have hgoes : (s.play .next).moment.activity = .running f left ⟨run, .cause .interrupted⟩ := by
        obtain ⟨⟨w, a⟩, kept⟩ := s
        cases ha
        rfl
      obtain ⟨q, hq, hready⟩ := hafter.ready_of_activity hgoes
      exact .ended (x := .interrupted) hq hready (Or.inr rfl)
    · exact hafter.waits_of_canceling (activity_play ha Activity.noConfusion hstroke)
  | unwinding hended =>
    obtain ⟨home, htask⟩ := loopAt_of_mem_tokens (t := .unwind f (.waiter d key) run) (htokens ▸ List.mem_singleton_self _)
    rcases h.queued_after htask rfl [stroke] with hstill | ⟨before, stroke', after, hstrokes, -, v, htaken⟩
    · obtain ⟨q, hq⟩ := (hafter.tidy.people f).cases.resolve_left fun habsent => by
        have hnil : (s.play stroke).moment.world.tokens f = [] := habsent.tokens
        have hmem := mem_tokens_of_loopAt hstill rfl
        rw [show ((s.after [stroke]).moment.world.tokens f) = [] from hnil] at hmem
        cases hmem
      have htoken := (hafter.held_of_task hstill rfl).1
      have hheld' : Held f q.epoch q.hook q.standing ((s.play stroke).moment.world.tokens f)
          ((s.play stroke).moment.activity.of f) := hq.held
      rw [htoken] at hheld'
      obtain ⟨ended, hunwinding, -⟩ := hheld'.of_unwind
      exact .unwinding hq hunwinding
    · cases before with
      | nil =>
        cases hstrokes
        exact hafter.waits_of_canceling (congrArg Moment.activity htaken)
      | cons first rest =>
        have hlength := congrArg List.length hstrokes
        simp at hlength

/-- A fiber that stands in the line stays there while the deferred is pending. -/
theorem Occurs.waits_of_seated (h : s.Occurs) (hp : Fits f (s.moment.view f) p) (hsits : p.standing.Sits run d key)
    (hpending : s.moment.world.pollDeferred d = none) (stroke : Stroke)
    (hpending' : (s.play stroke).moment.world.pollDeferred d = none) : (s.play stroke).Waits f run d := by
  have htidy := h.tidy
  have hafter : (s.play stroke).Occurs := h.after [stroke]
  have hseat : s.moment.seat? f = some ⟨d, key, p.epoch⟩ := hp.seat?.trans hsits.seat?
  have hmem : (key, ⟨f, p.epoch⟩) ∈ s.moment.world.line d :=
    (htidy.lined.lined f _ hseat).resolve_right fun hdone => by
      have hsome : (s.moment.world.pollDeferred d).isSome = true := hdone.2
      rw [hpending] at hsome
      cases hsome
  obtain ⟨next, hrow⟩ := pending_of_mem_line hmem
  have hmem' : (key, ⟨f, p.epoch⟩) ∈ (s.play stroke).moment.world.line d := by
    rcases h.line_play (Option.isSome_of_eq_some hrow) stroke with hdone | hsame | ⟨g, left, run', epoch, key', -, -, hline, -⟩ |
      ⟨g, left, run', key', -, hcanceling, hline⟩
    · rw [hpending'] at hdone
      cases hdone
    · exact hsame ▸ hmem
    · exact hline ▸ List.mem_append_left _ hmem
    · rw [hline, List.mem_filter]
      refine ⟨hmem, decide_eq_true fun hfiber => ?_⟩
      obtain rfl : f = g := hfiber
      obtain ⟨ended, hstanding, -⟩ := (hp.held_of_activity hcanceling rfl).of_canceling
      rw [hstanding] at hsits
      cases hsits
  obtain ⟨q, hq, hseat'⟩ := (hafter.tidy.people f).fits (hafter.tidy.lined.seated d _ hmem')
  have hstays : p.standing.Stays q.standing := h.stays hp hq (stepper?_ne_of_not_ready hp (fun stand hready => by
    rw [hready] at hsits
    cases hsits) stroke)
  have hrun := hstays.run run hsits.run?
  obtain ⟨standing, epoch, requested, hook⟩ := q
  cases standing with
  | returned run' early canceler =>
    cases hrun
    cases early <;> cases canceler <;> cases hseat'
    exact .seated hq .returned hpending'
  | parked run' canceler =>
    cases hrun
    cases canceler <;> cases hseat'
    exact .seated hq .parked hpending'
  | unwinding ended run' canceler =>
    cases hrun
    cases canceler <;> cases hseat'
    exact .unwinding hq rfl
  | _ => cases hseat'

/-- **A fiber that waits for a deferred waits on, or goes on with its exit or interrupted**, if whoever completes the
deferred rouses those who are parked in its line. -/
theorem Occurs.waits_play (h : s.Occurs) (hwaits : s.Waits f run d) (stroke : Stroke)
    (hmade : d.index < s.moment.world.stores.deferreds.size) (hstill : s.stepper? stroke ≠ some f)
    (hdone : ∀ x, s.moment.world.pollDeferred d = none → (s.play stroke).moment.world.pollDeferred d = some x →
      (∃ g left stand, s.moment.activity = .running g left stand) ∧
        ∀ home key, s.moment.world.Asleep f home run (.waiter d key) →
          .task (.resume f run (.ofExit x)) ∈ ((s.play stroke).moment.world.loopAt home).inbox) :
    (s.play stroke).Waits f run d := by
  have hafter : (s.play stroke).Occurs := h.after [stroke]
  cases hwaits with
  | joining ha => exact h.waits_of_joining ha hmade stroke
  | given ha hphase hx => exact h.waits_of_given ha hphase hx stroke
  | unwinding hp hstanding => exact h.waits_of_unwinding hp hstanding stroke
  | ended hp hready hx =>
    obtain ⟨q, hq⟩ := h.fits_play hp stroke
    exact .ended hq ((h.stays hp hq hstill).ready _ hready) (hx.imp_left fun hx => h.poll_play hx stroke)
  | @seated p key hp hsits hpending =>
    cases hpoll : (s.play stroke).moment.world.pollDeferred d with
    | none => exact h.waits_of_seated hp hsits hpending stroke hpoll
    | some x =>
      obtain ⟨⟨g, left, stand, ha⟩, hroused⟩ := hdone x hpending hpoll
      obtain ⟨q, hq⟩ := h.fits_play hp stroke
      generalize hstanding : p.standing = standing at hsits
      cases hsits with
      | returned =>
        obtain ⟨left', hreturning⟩ := activity_of_returned hp hstanding
        cases ha.symm.trans hreturning
      | parked =>
        obtain ⟨home, hasleep⟩ := asleep_of_parked hp hstanding
        exact .ended hq (hq.ready_of_task (hroused home key hasleep)) (Or.inl hpoll)

end Scene
end FiberLoop
