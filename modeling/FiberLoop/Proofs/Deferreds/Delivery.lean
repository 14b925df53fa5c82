import FiberLoop.Proofs.Deferreds.Completing
import FiberLoop.Proofs.Runtime.Heeding
import FiberLoop.Proofs.Runtime.Progress

/-!
# What becomes of those who wait

A completed deferred stays completed with the same exit. The callbacks of those who were parked in its line are dead
from then on, and their tasks are taken in the order of the line, on each loop. A fiber that joins the line of a
completed deferred is given the exit at the end of its registration.

The main results of this module are `Scene.Occurs.poll_after`, `Scene.Occurs.line_play`, which says all that can
happen to a line, and `Scene.Occurs.resumes_first`.
-/

namespace FiberLoop

open World

variable {s : Scene} {w w' : World} {f g : FiberId} {d : DeferredId} {x : Exit Value Value} {home : LoopName} {run : Run}
  {canceler : Canceler} {left key epoch : Nat} {stroke : Stroke} {strokes : List Stroke} {es : Chronicle}

/-! ## Joining a line and leaving it -/

namespace World

variable {waiters : List (Nat × Callback)}

theorem beginRegistration_of_pending (h : w.deferred? d = some (.pending waiters key)) (f : FiberId) (left : Nat)
    (run : Run) (epoch : Nat) :
    w.beginRegistration f left run (.deferred d) epoch =
      ⟨w.setDeferred d (.pending (waiters ++ [(key, ⟨f, epoch⟩)]) (key + 1)), .returning f left run (.waiter d key)⟩ := by
  rw [beginRegistration, run_deferred_of_pending h]

theorem beginRegistration_of_done (h : w.deferred? d = some (.done x)) (f : FiberId) (left : Nat) (run : Run)
    (epoch : Nat) :
    w.beginRegistration f left run (.deferred d) epoch = ⟨w.settle ⟨f, epoch⟩ x, .returning f left run .none⟩ := by
  rw [beginRegistration, run_deferred_of_done h]

theorem beginRegistration_of_none (h : w.deferred? d = none) (f : FiberId) (left : Nat) (run : Run) (epoch : Nat) :
    w.beginRegistration f left run (.deferred d) epoch = ⟨w, .returning f left run .none⟩ := by
  rw [beginRegistration, run_deferred_of_none h]

theorem pollDeferred_eq_some : w.pollDeferred d = some x ↔ w.deferred? d = some (.done x) := by
  show (w.deferred? d).bind Deferred.exit? = some x ↔ _
  cases w.deferred? d with
  | none => exact ⟨nofun, nofun⟩
  | some row =>
    cases row with
    | pending waiters key => exact ⟨nofun, nofun⟩
    | done y => exact ⟨fun h => congrArg (some ∘ Deferred.done) (Option.some.inj h), fun h => by cases h; rfl⟩

/-- A fiber that begins to wait for one deferred touches no other one. -/
theorem deferred?_beginRegistration_of_ne {d' : DeferredId} (h : d ≠ d') (f : FiberId) (left : Nat) (run : Run)
    (epoch : Nat) (w : World) :
    (w.beginRegistration f left run (.deferred d') epoch).world.deferred? d = w.deferred? d := by
  cases hrow : w.deferred? d' with
  | none => rw [beginRegistration_of_none hrow]
  | some row =>
    cases row with
    | pending waiters key =>
      rw [beginRegistration_of_pending hrow]
      exact deferred?_setDeferred_of_ne h
    | done y =>
      rw [beginRegistration_of_done hrow, deferred?, stores_settle, deferred?]

/-- A fiber that waits completes nothing. -/
theorem deferred?_beginRegistration_of_done (h : w.deferred? d = some (.done x)) (f : FiberId) (left : Nat) (run : Run)
    (d' : DeferredId) (epoch : Nat) :
    (w.beginRegistration f left run (.deferred d') epoch).world.deferred? d = some (.done x) := by
  by_cases hd : d = d'
  · subst hd
    rw [beginRegistration_of_done h, deferred?, stores_settle]
    exact h
  · exact (deferred?_beginRegistration_of_ne hd f left run epoch w).trans h

end World

namespace Moment.Tidy

variable {hidden : Callback → Prop} {before : World} {waiters : List (Nat × Callback)}

/-- Who joins a line stands at its end. -/
theorem line_join (h : Moment.Tidy hidden before ⟨w, .registering f left run (.deferred d) epoch⟩)
    (hrow : w.deferred? d = some (.pending waiters key)) :
    (w.beginRegistration f left run (.deferred d) epoch).world.line d = w.line d ++ [(key, ⟨f, epoch⟩)] ∧
      ∀ e ∈ w.line d, e.1 < key := by
  rw [beginRegistration_of_pending hrow, line_of_pending hrow]
  exact ⟨line_of_pending (deferred?_setDeferred_self hrow), (h.lined.ordered d _ hrow).2⟩

/-- Who leaves a line takes nobody else along. -/
theorem line_leave (h : Moment.Tidy hidden before ⟨w, .canceling f left run (.waiter d key)⟩) :
    (w.leaveDeferred d key).line d = (w.line d).filter (·.2.fiber ≠ f) := by
  rw [line_leaveDeferred h.lined.ordered]
  refine List.filter_congr fun e he => ?_
  have hkey : e ∈ (w.leaveDeferred d key).line d ↔ e ∈ w.line d ∧ (e.1 != key) = true := by
    rw [line_leaveDeferred h.lined.ordered, List.mem_filter]
  have hboth := hkey.symm.trans h.mem_line_leave
  simp only [he, true_and] at hboth
  exact Bool.eq_iff_iff.2 (hboth.trans decide_eq_true_iff.symm)

end Moment.Tidy

/-! ## Results that are kept for the end of a registration -/

/-- A result that is kept stays. -/
theorem Request.kept (h : Request w es w') (hphase : w.phase? f = some (.registering (some x))) :
    w'.phase? f = some (.registering (some x)) := by
  obtain ⟨r, hr, hregistering⟩ := Option.map_eq_some_iff.1 hphase
  have hrecord : w.record f = some r.core := by rw [record, hr]; rfl
  have hsame {v : World} (h : v.record f = w.record f) : v.phase? f = some (.registering (some x)) :=
    (phase?_congr h).trans hphase
  cases h with
  | quiet hquiet => exact hsame (hquiet.record f)
  | interrupt g =>
    by_cases hg : g = f
    · subst hg
      unfold World.interrupt
      rw [hr]
      dsimp only
      split
      · exact hphase
      · rw [hregistering]
        rw [phase?, fiber?_modifyFiber_self, hr]
        exact congrArg some hregistering
    · exact hsame (record_interrupt_of_ne hg w)
  | settle callback y =>
    by_cases hg : callback.fiber = f
    · subst hg
      unfold World.settle
      rw [hr]
      dsimp only
      split
      · exact hphase
      · rw [hregistering]
        rw [phase?, fiber?_modifyFiber_self, hr]
        rfl
    · exact hsame (record_settle_of_ne hg y w)
  | launch root hook =>
    rw [phase?, fiber?_launch_of_ne (ne_size_of_record hrecord)]
    exact hphase

theorem Requested.kept (h : Requested w w') (hphase : w.phase? f = some (.registering (some x))) :
    w'.phase? f = some (.registering (some x)) := by
  obtain ⟨es, hrequests⟩ := h
  induction hrequests with
  | refl w => exact hphase
  | step first _ ih => exact ih (first.kept hphase)

namespace Scene

/-- While a fiber is in the middle of a registration, others only make requests. -/
theorem requested_play {a : Activity} (ha : s.moment.activity = a) (hbusy : a ≠ .idle) (hstroke : stroke ≠ .next) :
    Requested s.moment.world (s.play stroke).moment.world := by
  obtain ⟨⟨w, b⟩, kept⟩ := s
  cases ha
  cases stroke with
  | next => exact absurd rfl hstroke
  | demand demand =>
    have hkeeps : Act.Keeps Requested (demand.act kept) := (TracksAll.demand (J := Keeping Requested) kept demand).keeps
    have hrequested := hkeeps w
    simp only [play]
    cases hrun : (demand.act kept).run w with
    | mk result v =>
      rw [hrun] at hrequested
      cases result <;> exact hrequested
  | fire | switch | clock =>
    cases b with
    | idle => exact absurd rfl hbusy
    | _ => exact .refl w

/-- A fiber that has been given a result goes on with it and is not parked, whatever others do meanwhile. -/
theorem goesOn_of_kept (ha : s.moment.activity = .returning f left run canceler)
    (hphase : s.moment.world.phase? f = some (.registering (some x))) (hstrokes : ∀ stroke ∈ strokes, stroke ≠ .next) :
    ((s.after strokes).play .next).moment.activity = .running f left ⟨run, .ofExit x⟩ := by
  induction strokes generalizing s with
  | nil =>
    obtain ⟨⟨w, a⟩, kept⟩ := s
    cases ha
    have hphase' : (w.fiber? f).map Fiber.phase = some (.registering (some x)) := hphase
    simp only [after_nil, play, Moment.next, leaveRegistration, hphase']
  | cons stroke rest ih =>
    obtain ⟨hstroke, hrest⟩ := List.forall_mem_cons.1 hstrokes
    have hbusy : Activity.returning f left run canceler ≠ .idle := by rintro ⟨⟩
    exact ih (activity_play ha hbusy hstroke) ((requested_play ha hbusy hstroke).kept hphase) hrest

/-! ## Completed deferreds -/

/-- A completed deferred stays completed with the same exit, whatever happens next. -/
theorem Occurs.poll_play (h : s.Occurs) (hx : s.moment.world.pollDeferred d = some x) (stroke : Stroke) :
    (s.play stroke).moment.world.pollDeferred d = some x := by
  by_cases hmoves : stroke = .next → s.moment.activity.lines = false
  · exact (h.advances hmoves).poll hx
  · obtain ⟨rfl, hlines⟩ := Classical.not_imp.1 hmoves
    obtain ⟨⟨w, a⟩, kept⟩ := s
    cases a with
    | registering f left run r epoch =>
      cases r with
      | deferred d' => exact pollDeferred_eq_some.2 (deferred?_beginRegistration_of_done (pollDeferred_eq_some.1 hx) f left run d' epoch)
      | _ => exact absurd rfl hlines
    | canceling f left run canceler =>
      cases canceler with
      | waiter d' key => exact (pollDeferred_leaveDeferred w d' d key).trans hx
      | _ => exact absurd rfl hlines
    | _ => exact absurd rfl hlines

/-- **A completed deferred stays completed with the same exit for ever.** -/
theorem Occurs.poll_after (h : s.Occurs) (hx : s.moment.world.pollDeferred d = some x) (strokes : List Stroke) :
    (s.after strokes).moment.world.pollDeferred d = some x := by
  induction strokes generalizing s with
  | nil => exact hx
  | cons stroke rest ih => exact ih (h.after [stroke]) (h.poll_play hx stroke)

/-! ## What happens to a line -/

/-- **All that can happen to a line**: a fiber joins it at the end, a fiber that was interrupted leaves it, or the
deferred is completed. -/
theorem Occurs.line_play (h : s.Occurs) (hrow : (s.moment.world.deferred? d).isSome = true) (stroke : Stroke) :
    ((s.play stroke).moment.world.pollDeferred d).isSome = true ∨
      (s.play stroke).moment.world.line d = s.moment.world.line d ∨
      (∃ f left run epoch key, stroke = .next ∧ s.moment.activity = .registering f left run (.deferred d) epoch ∧
        (s.play stroke).moment.world.line d = s.moment.world.line d ++ [(key, ⟨f, epoch⟩)] ∧
        ∀ e ∈ s.moment.world.line d, e.1 < key) ∨
      ∃ f left run key, stroke = .next ∧ s.moment.activity = .canceling f left run (.waiter d key) ∧
        (s.play stroke).moment.world.line d = (s.moment.world.line d).filter (·.2.fiber ≠ f) := by
  by_cases hmoves : stroke = .next → s.moment.activity.lines = false
  · cases hpoll : (s.play stroke).moment.world.pollDeferred d with
    | some x => exact Or.inl rfl
    | none => exact Or.inr (Or.inl ((h.advances hmoves).line hrow hpoll))
  · obtain ⟨rfl, hlines⟩ := Classical.not_imp.1 hmoves
    have htidy := h.tidy
    obtain ⟨⟨w, a⟩, kept⟩ := s
    cases a with
    | registering f left run r epoch =>
      cases r with
      | deferred d' =>
        by_cases hd : d' = d
        · subst hd
          obtain ⟨row, hrow⟩ := Option.isSome_iff_exists.1 hrow
          cases row with
          | done x =>
            refine Or.inl (Option.isSome_iff_exists.2 ⟨x, pollDeferred_eq_some.2 ?_⟩)
            exact deferred?_beginRegistration_of_done hrow f left run d' epoch
          | pending waiters key =>
            obtain ⟨hline, hkeys⟩ := htidy.line_join hrow
            exact Or.inr (Or.inr (Or.inl ⟨f, left, run, epoch, key, rfl, rfl, hline, hkeys⟩))
        · exact Or.inr (Or.inl (line_congr (deferred?_beginRegistration_of_ne (Ne.symm hd) f left run epoch w)))
      | _ => exact absurd rfl hlines
    | canceling f left run canceler =>
      cases canceler with
      | waiter d' key =>
        by_cases hd : d' = d
        · subst hd
          exact Or.inr (Or.inr (Or.inr ⟨f, left, run, key, rfl, rfl, htidy.line_leave⟩))
        · exact Or.inr (Or.inl (line_congr (deferred?_leaveDeferred_of_ne (Ne.symm hd))))
      | _ => exact absurd rfl hlines
    | _ => exact absurd rfl hlines

/-! ## Dead callbacks -/

/-- A callback of an earlier epoch is dead for ever. -/
theorem Occurs.settle_of_past (h : s.Occurs) (hpast : epoch < s.moment.world.epoch f) (strokes : List Stroke)
    (y : Exit Value Value) :
    (s.after strokes).moment.world.settle ⟨f, epoch⟩ y = (s.after strokes).moment.world := by
  rcases (h.tidy.people f).cases with habsent | ⟨p, hp⟩
  · rw [World.epoch, fiber?_of_record_none habsent.record] at hpast
    exact absurd hpast (Nat.not_lt_zero _)
  · obtain ⟨es, htransitions⟩ := leadsTo_after h.tidy.quiet strokes
    obtain ⟨q, hmoves, hq⟩ := htransitions.fits hp
    obtain ⟨home, hrecord⟩ := hp.record
    obtain ⟨home', hrecord'⟩ := hq.record
    have hepoch : s.moment.world.epoch f = p.epoch := epoch_of_record hrecord
    have hle := hmoves.epoch_le
    have hne : (q.record home').epoch ≠ epoch := fun he => by
      have hsame : q.epoch = epoch := (Place.epoch_record q home').symm.trans he
      omega
    exact (@settle_of_record_epoch _ _ ⟨f, epoch⟩ hrecord' hne y).1

/-! ## A fiber that comes to a completed deferred -/

/-- What is not a moment of the loop leaves a fiber alone that is in the middle of something. -/
theorem activity_after {a : Activity} (ha : s.moment.activity = a) (hbusy : a ≠ .idle)
    (hstrokes : ∀ stroke ∈ strokes, stroke ≠ .next) : (s.after strokes).moment.activity = a := by
  induction strokes generalizing s with
  | nil => exact ha
  | cons stroke rest ih =>
    obtain ⟨hstroke, hrest⟩ := List.forall_mem_cons.1 hstrokes
    exact ih (activity_play ha hbusy hstroke) hrest

/-- A fiber that begins to wait for a completed deferred is given the exit. -/
theorem Occurs.answered (h : s.Occurs) (ha : s.moment.activity = .registering f left run (.deferred d) epoch)
    (hx : s.moment.world.pollDeferred d = some x) :
    (s.play .next).moment.activity = .returning f left run .none ∧
      (s.play .next).moment.world.phase? f = some (.registering (some x)) ∧
      ∀ g, (s.play .next).moment.world.flagged g = s.moment.world.flagged g := by
  have htidy := h.tidy
  obtain ⟨⟨w, a⟩, kept⟩ := s
  cases ha
  have hnext : (play ⟨⟨w, .registering f left run (.deferred d) epoch⟩, kept⟩ .next).moment =
      ⟨w.settle ⟨f, epoch⟩ x, .returning f left run .none⟩ :=
    beginRegistration_of_done (pollDeferred_eq_some.1 hx) f left run epoch
  rw [hnext]
  refine ⟨rfl, ?_, flagged_settle _ x w⟩
  obtain ⟨p, hp⟩ := Moment.Peopled.fits htidy.people rfl
  obtain ⟨home, hrecord⟩ := hp.record
  obtain ⟨-, -, rfl⟩ := hp.held.of_registering
  have hphase := (phase?_of_record hrecord).symm.trans (htidy.lined.unanswered f left run d p.epoch rfl)
  have hsettle := @settle_of_registering _ _ ⟨f, p.epoch⟩ hrecord (Place.epoch_record p home) none
    (Option.some.inj hphase) x
  rw [hsettle.1, phase?, fiber?_modifyFiber_self]
  obtain ⟨r, hr, -⟩ := fiber?_of_record hrecord
  rw [hr]
  rfl

/-- **A fiber that comes to wait for a completed deferred goes on with the exit.** It begins to wait, is given the
exit and goes on, whatever others do meanwhile. -/
theorem Occurs.goesOn_of_done (h : s.Occurs) (ha : s.moment.activity = .running f (left + 1) ⟨run, .eval (.awaitDeferred d)⟩)
    (hopen : s.moment.world.interruptPending f run.masks = false) (hx : s.moment.world.pollDeferred d = some x)
    {more : List Stroke} (hstrokes : ∀ stroke ∈ strokes, stroke ≠ .next) (hmore : ∀ stroke ∈ more, stroke ≠ .next) :
    ((((((s.play .next).after strokes).play .next).after more).play .next).moment.activity) =
      .running f left ⟨run, .ofExit x⟩ := by
  have hbegins : ∃ epoch, (s.play .next).moment.activity = .registering f left run (.deferred d) epoch := by
    obtain ⟨⟨w, a⟩, kept⟩ := s
    cases ha
    have hopen' : w.interruptPending f run.masks = false := hopen
    refine ⟨(w.advanceEpoch f (.registering none)).epoch f, ?_⟩
    simp only [play, Moment.next, World.act, Stand.deed, Effect.awaitDeferred, hopen']
    rfl
  obtain ⟨epoch, hepoch⟩ := hbegins
  have hafter : ((s.play .next).after strokes).Occurs := (h.after [.next]).after strokes
  have hpoll := (h.after [.next]).poll_after (h.poll_play hx .next) strokes
  obtain ⟨hreturning, hphase, -⟩ := hafter.answered (activity_after hepoch (by rintro ⟨⟩) hstrokes) hpoll
  exact goesOn_of_kept hreturning hphase hmore

end Scene

/-! ## Those who are parked -/

namespace World

/-- The task that rouses a fiber goes on with it. -/
theorem fiber?_of_rouses {e : Nat × Callback} {t : Task} (h : w.rouses home x e = some t) :
    t.fiber? = some e.2.fiber := by
  obtain ⟨r, -, hphase⟩ := Option.bind_eq_some_iff.1 h
  split at hphase
  · obtain ⟨-, hsome⟩ := Option.ite_none_right_eq_some.1 hphase
    cases hsome
    rfl
  · cases hphase

end World

namespace Moment.Tidy

variable {hidden : Callback → Prop} {before : World} {m : Moment} {run' : Run} {key' : Nat}

/-- No task waits for a fiber that is parked on a deferred. -/
theorem tokens_of_asleep (h : m.Tidy hidden before) (hasleep : m.world.Asleep f home run (.waiter d key)) :
    m.world.tokens f = [] := by
  obtain ⟨p, hp, hstanding, -⟩ := h.parked hasleep
  have hheld : Held f p.epoch p.hook p.standing (m.world.tokens f) (m.activity.of f) := hp.held
  rw [hstanding] at hheld
  exact hheld.of_parked.1

/-- Of two fibers that live on one loop the task of the one that came first is queued first. -/
theorem ahead_complete (h : m.Tidy hidden before) (hf : m.world.Asleep f home run (.waiter d key))
    (hg : m.world.Asleep g home run' (.waiter d key')) (hlt : key < key') (x : Exit Value Value) :
    (m.world.completeDeferred d x).2.Ahead home (.resume f run (.ofExit x)) (.resume g run' (.ofExit x)) := by
  have hmem := h.mem_line_of_asleep hf
  have hmem' := h.mem_line_of_asleep hg
  obtain ⟨next, hrow⟩ := pending_of_mem_line hmem
  obtain ⟨front, back, hline⟩ := List.append_of_mem hmem
  refine ⟨(m.world.loopAt home).inbox ++ (front.filterMap (m.world.rouses home x)).map .task,
    (back.filterMap (m.world.rouses home x)).map .task, ?_, fun htask => ?_⟩
  · rw [h.inbox_complete hrow, hline, List.filterMap_append, List.filterMap_cons, rouses_of_asleep hf, List.map_append,
      List.append_assoc]
    rfl
  · rcases List.mem_append.1 htask with hqueued | hroused
    · have htoken := mem_tokens_of_loopAt hqueued rfl
      rw [h.tokens_of_asleep hg] at htoken
      cases htoken
    · obtain ⟨t, ht, hsame⟩ := List.mem_map.1 hroused
      cases hsame
      obtain ⟨e, he, hrouses⟩ := List.mem_filterMap.1 ht
      have hfiber : e.2.fiber = g := (Option.some.inj (fiber?_of_rouses hrouses)).symm
      have hfront : e ∈ m.world.line d := hline ▸ List.mem_append_left _ he
      -- The fiber stands in the line once, so this is its own place, which is behind that of the other one.
      have hseat := h.lined.seated d e hfront
      rw [hfiber, h.lined.seated d _ hmem'] at hseat
      have hkey : key' = e.1 := congrArg Seat.key (Option.some.inj hseat)
      have hpairwise := List.pairwise_map.1 (h.pairwise_line d)
      rw [hline] at hpairwise
      have hbefore : e.1 < key := (List.pairwise_append.1 hpairwise).2.2 e he _ List.mem_cons_self
      omega

end Moment.Tidy

namespace Scene

/-- A fiber is about to complete a deferred. -/
def Completes (d : DeferredId) (x : Exit Value Value) (s : Scene) : Prop :=
  ∃ g left run, s.moment.activity = .running g (left + 1) ⟨run, .eval (.completeDeferred d x)⟩ ∧
    s.moment.world.interruptPending g run.masks = false

theorem Completes.world_play (h : s.Completes d x) :
    (s.play .next).moment.world = (s.moment.world.completeDeferred d x).2 := by
  obtain ⟨⟨w, a⟩, kept⟩ := s
  obtain ⟨g, left, run, rfl, hopen⟩ := h
  have hopen' : w.interruptPending g run.masks = false := hopen
  simp only [play, Moment.next, World.act, Effect.completeDeferred, Effect.perform, Stand.deed, World.cuts, Call.yields,
    hopen', Bool.and_false, Bool.false_eq_true, if_false]
  rfl

/-- Nobody else is in the middle of anything. -/
theorem Completes.not_returning (h : s.Completes d x) (f : FiberId) (left : Nat) (run : Run) (canceler : Canceler) :
    s.moment.activity ≠ .returning f left run canceler := by
  obtain ⟨g, left', run', ha, -⟩ := h
  rw [ha]
  nofun

/-- A fiber that was parked is in the next epoch after the completion. -/
theorem Occurs.epoch_complete (h : s.Occurs) (hcompletes : s.Completes d x)
    (hasleep : s.moment.world.Asleep f home run (.waiter d key)) :
    s.moment.world.epoch f < (s.play .next).moment.world.epoch f := by
  obtain ⟨next, hrow⟩ := pending_of_mem_line (h.tidy.mem_line_of_asleep hasleep)
  have hlater : s.moment.world.Later (s.play .next).moment.world := by
    rw [hcompletes.world_play, completeDeferred_of_pending hrow]
    exact (Later.of_fiber? fun _ => rfl).trans (later_settleAll _ x (s.moment.world.setDeferred d (.done x)))
  refine (hlater f).resolve_right fun hstays => ?_
  obtain ⟨r, hr, -, hphase⟩ := id hasleep
  have hready : (s.play .next).moment.world.listens f = false := by
    have hafter : (s.play .next).Occurs := h.after [.next]
    have htask := h.tidy.task_complete hasleep x
    rw [← hcompletes.world_play] at htask
    have hrests : (s.play .next).moment.world.Rests f home run (.waiter d key) := .roused (.resume x) htask
    obtain ⟨p, hp⟩ := hafter.fits hrests
    rw [World.listens, hp.phase?_eq, hp.ready_of_task htask]
    rfl
  refine Bool.false_ne_true (hready.symm.trans (hstays.2 ?_))
  rw [World.listens, phase?_of_record hr, hphase]
  rfl

/-- **Of two fibers that are parked in the line the one that came first goes on first**, if they live on one loop. -/
theorem Occurs.resumes_first {run' : Run} {key' : Nat} {canceler' : Canceler} (h : s.Occurs) (hcompletes : s.Completes d x)
    (hf : s.moment.world.Asleep f home run (.waiter d key)) (hg : s.moment.world.Asleep g home run' (.waiter d key'))
    (hlt : key < key') (hresumes : (s.play .next).Resumes g home run' canceler' x strokes) :
    (s.play .next).Before (·.moment.activity.GoesOn f run (.waiter d key)) strokes := by
  refine hresumes.of_ahead (h.after [.next]) ?_ (.resume x) ?_
  · rintro rfl
    obtain ⟨r, hr, -, hphase⟩ := hf
    obtain ⟨r', hr', -, hphase'⟩ := hg
    cases hr.symm.trans hr'
    cases hphase.symm.trans hphase'
    exact Nat.lt_irrefl _ hlt
  · rw [hcompletes.world_play]
    exact h.tidy.ahead_complete hf hg hlt x

/-- A fiber that is parked where it may be interrupted is not flagged. -/
theorem Occurs.unflagged_of_asleep (h : s.Occurs) (hasleep : s.moment.world.Asleep f home run canceler)
    (hopen : run.masks.isInterruptible = true) : s.moment.world.flagged f = false := by
  obtain ⟨es, hreachable⟩ := h.reachable
  obtain ⟨r, hr, -, hphase⟩ := hasleep
  obtain ⟨r', hr', rfl⟩ := fiber?_of_record hr
  rw [flagged, hr']
  refine Bool.eq_false_iff.2 fun hflag => ?_
  have hclosed := (hreachable.heeding f).parked _ run canceler hr hflag hphase
  exact Bool.false_ne_true (hclosed.symm.trans hopen)

end Scene

end FiberLoop