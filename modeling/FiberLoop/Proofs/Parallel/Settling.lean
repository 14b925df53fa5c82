import FiberLoop.Proofs.Parallel.Pairings
import FiberLoop.Proofs.Parallel.Races
import FiberLoop.Proofs.Permits.Fairness

/-!
# The two others when the wait has ended

A fiber waits for two others as long as it is at the end of its registration, parked, or about to cancel what it waited
for (`Tandem.Stays`). While it does, the race or pairing is as it was left by the two others, and nothing else can end
it (`Tandem.Waiting`). Every way in which the wait ends leaves each of the two others ended or interrupted
(`Tandem.Settled`), and this stays so.

The main result of this module is `Tandem.Begun.settled`.
-/

namespace FiberLoop

open World

namespace World

/-- A fiber has ended. -/
def Finished (f : FiberId) (w : World) : Prop := w.phase? f = some .done

/-- A fiber is in the middle of the registration of an epoch. -/
def Enrolling (f : FiberId) (epoch : Nat) (w : World) : Prop :=
  ∃ r early, w.record f = some r ∧ r.epoch = epoch ∧ r.phase = .registering early

end World

/-- Whether a fiber that has come so far is in a registration that has returned, or about to cancel it. -/
def Standing.isWaiting : Standing → Bool
  | .returned .. | .parked .. | .unwinding .. => true
  | _ => false

namespace Tandem

variable (t : Tandem)

/-- Each of the two others has ended or was interrupted. -/
def Settled (s : Scene) : Prop :=
  ∀ side, s.moment.world.Finished (t.side side) ∨ s.moment.world.flagged (t.side side) = true

/-- The wait of the fiber has ended. -/
def Ended (s : Scene) : Prop := ¬ t.Waits s ∧ ¬ t.Unwinds s

/-- Where the fiber is as long as its wait has not ended. -/
inductive Stays (s : Scene) : Prop where
  | returning {left : Nat} (ha : s.moment.activity = .returning t.fiber left t.run t.canceler)
    (henrolling : s.moment.world.Enrolling t.fiber t.epoch)
  | parked (h : s.moment.world.Parked t.callback t.run t.canceler)
  | unwinding (h : t.Unwinds s)

/-- The wait goes on. -/
structure Waiting (s : Scene) : Prop where
  runs : t.Runs s
  pending : t.Pending s
  /-- A value that was kept is that of a fiber that has ended. -/
  values : ∀ p row side v, t.joint = .pairing p → s.moment.world.pairing? p = some row → row.value? side = some v →
    s.moment.world.Finished (t.side side)
  stays : t.Stays s

/-- The race or pairing was begun by some registration before. -/
inductive Begun : Tandem → Scene → Prop where
  | race {s : Scene} {f : FiberId} {left epoch : Nat} {run : Run} {l l' : Effect} (h : s.Occurs)
    (ha : s.moment.activity = .registering f left run (.race l l') epoch) (strokes : List Stroke) :
    Begun (s.tandem (.race ⟨s.moment.world.stores.races.size⟩) f run epoch) ((s.play .next).after strokes)
  | pairing {s : Scene} {f : FiberId} {left epoch : Nat} {run : Run} {l l' : Effect} {g : Combine} (h : s.Occurs)
    (ha : s.moment.activity = .registering f left run (.parZip l l' g) epoch) (strokes : List Stroke) :
    Begun (s.tandem (.pairing ⟨s.moment.world.stores.pairings.size⟩) f run epoch) ((s.play .next).after strokes)

end Tandem

section Settling

variable {t : Tandem} {s : Scene} {stroke : Stroke} {strokes : List Stroke} {f : FiberId} {epoch left : Nat} {run : Run}
  {canceler : Canceler} {w w' : World} {es : Chronicle} {p : Place} {side : Side} {x : Exit Value Value} {hook : ExitHook}

/-! ## Registrations -/

/-- A fiber in the middle of a registration stays there, whatever others ask for. -/
theorem Request.enrolling (h : Request w es w') (henrolling : w.Enrolling f epoch) : w'.Enrolling f epoch := by
  obtain ⟨r, early, hr, hepoch, hphase⟩ := henrolling
  have hsame {v : World} (hv : v.record f = w.record f) : v.Enrolling f epoch := ⟨r, early, hv.trans hr, hepoch, hphase⟩
  cases h with
  | quiet hquiet => exact hsame (hquiet.record f)
  | interrupt g =>
    by_cases hg : g = f
    · subst hg
      cases hflag : r.interruptRequested with
      | true =>
        rw [(interrupt_of_record hr hflag).1]
        exact hsame rfl
      | false =>
        have hawake (run : Run) (canceler : Canceler) : r.phase ≠ .suspended run canceler := by
          rw [hphase]
          exact Phase.noConfusion
        rw [(interrupt_of_not_suspended hr hflag hawake).1]
        exact ⟨_, early, record_modifyFiber hr fun _ => rfl, hepoch, hphase⟩
    · exact hsame (record_interrupt_of_ne hg w)
  | settle callback x =>
    by_cases hg : callback.fiber = f
    · subst hg
      by_cases hcallback : r.epoch = callback.epoch
      · rw [(settle_of_registering hr hcallback hphase x).1]
        exact ⟨_, _, record_modifyFiber hr fun _ => rfl, hepoch, rfl⟩
      · rw [(settle_of_record_epoch hr hcallback x).1]
        exact hsame rfl
    · exact hsame (record_settle_of_ne hg x w)
  | launch root hook =>
    refine hsame ?_
    rw [World.record, fiber?_launch_of_ne (ne_size_of_record hr)]
    rfl

theorem Requested.enrolling (h : Requested w w') (henrolling : w.Enrolling f epoch) : w'.Enrolling f epoch := by
  obtain ⟨es, hrequests⟩ := h
  induction hrequests with
  | refl w => exact henrolling
  | step first _ ih => exact ih (first.enrolling henrolling)

/-- The closure of a registration returns a canceler. -/
theorem Scene.play_registering {r : Registration} (ha : s.moment.activity = .registering f left run r epoch)
    (hrun : (r.run ⟨f, epoch⟩).caught s.moment.world = (.ok canceler, w')) :
    (s.play .next).moment = ⟨w', .returning f left run canceler⟩ := by
  obtain ⟨⟨w, a⟩, kept⟩ := s
  cases ha
  show w.beginRegistration f left run r epoch = _
  rw [World.beginRegistration, hrun]

/-! ## Fibers that have ended -/

namespace Scene.Occurs

/-- A fiber that has ended stays so. -/
theorem finished_play (h : s.Occurs) (hf : s.moment.world.Finished f) (stroke : Stroke) :
    (s.play stroke).moment.world.Finished f := by
  rcases (h.joined.people f).cases with habsent | ⟨p, hp⟩
  · rw [World.Finished, World.phase?, fiber?_of_record_none habsent.record] at hf
    cases hf
  · obtain ⟨x, hx⟩ := Standing.phase_eq_done_iff.1 (Option.some.inj (hp.phase?_eq.symm.trans hf))
    obtain ⟨es, q, hmoves, hq⟩ := h.moves_after hp [stroke]
    exact hq.phase?_eq.trans (congrArg some (Standing.phase_eq_done_iff.2 ⟨x, hmoves.exit? hx⟩))

/-- A fiber that is about to tell its exit has ended. -/
theorem finished_of_exiting (h : s.Occurs) (ha : s.moment.activity = .exiting f x hook) : s.moment.world.Finished f := by
  obtain ⟨p, hp⟩ := h.fits_of_activity (congrArg Activity.fiber? ha)
  refine hp.phase?_eq.trans (congrArg some ?_)
  exact congrArg Standing.phase (hp.held_of_activity ha rfl).of_exiting.1

end Scene.Occurs

namespace Tandem

theorem Settled.play (h : t.Settled s) (hs : s.Occurs) (stroke : Stroke) : t.Settled (s.play stroke) := fun side =>
  (h side).imp (hs.finished_play · stroke) (hs.flagged_play · stroke)

theorem Settled.after (h : t.Settled s) (hs : s.Occurs) (strokes : List Stroke) : t.Settled (s.after strokes) := by
  induction strokes generalizing s with
  | nil => exact h
  | cons stroke rest ih => exact ih (h.play hs stroke) (hs.after [stroke])

/-! ## The end of the wait -/

/-- A fiber whose place is not one of somebody who waits has ended its wait. -/
theorem ended_of_place (h : s.Occurs) (hp : Fits t.fiber (s.moment.view t.fiber) p)
    (hstanding : p.standing.isWaiting = false) : t.Ended s := by
  refine ⟨?_, ?_⟩
  · rintro (⟨left, ha⟩ | ⟨r, hr, -, hphase⟩)
    · obtain ⟨early, hreturned⟩ := (hp.held_of_activity ha rfl).of_returning.1
      rw [hreturned] at hstanding
      cases hstanding
    · have hasleep : s.moment.world.Asleep t.fiber r.home t.run t.canceler := ⟨r, hr, rfl, hphase⟩
      rw [hasleep.standing hp] at hstanding
      cases hstanding
  · rintro (⟨home, htask⟩ | ⟨left, ha⟩)
    · have hheld : Held t.fiber p.epoch p.hook p.standing (s.moment.world.tokens t.fiber) (s.moment.activity.of t.fiber) :=
        hp.held
      rw [(h.held_of_task htask rfl).1] at hheld
      obtain ⟨ended, hunwinding, -⟩ := hheld.of_unwind
      rw [hunwinding] at hstanding
      cases hstanding
    · obtain ⟨ended, hunwinding, -⟩ := (hp.held_of_activity ha rfl).of_canceling
      rw [hunwinding] at hstanding
      cases hstanding

/-- The wait of a fiber that is given an exit has ended. -/
theorem Runs.ended_of_resumed (h : t.Runs s) (hresumed : t.Resumed x s) : t.Ended s := by
  obtain ⟨p, hp, -⟩ := h.place
  have hheld : Held t.fiber p.epoch p.hook p.standing (s.moment.world.tokens t.fiber) (s.moment.activity.of t.fiber) :=
    hp.held
  rw [hresumed.task] at hheld
  refine ended_of_place h.occurs hp ?_
  rw [hheld.of_resume.1]
  rfl

/-- The wait of a fiber that has cancelled what it waited for has ended. -/
theorem Runs.ended_of_cancels (h : t.Runs s) (hcancels : t.Cancels s) : t.Ended (s.play .next) := by
  obtain ⟨-, left, -, hrunning⟩ := hcancels
  obtain ⟨p, hp, -⟩ := (h.play .next).place
  refine ended_of_place (h.play .next).occurs hp ?_
  rw [hp.ready_of_running hrunning]
  rfl

/-- The wait of a fiber that has ended itself has ended. -/
theorem Runs.ended_of_finished (h : t.Runs s) (hf : s.moment.world.Finished t.fiber) : t.Ended s := by
  obtain ⟨p, hp, -⟩ := h.place
  have hdone : p.standing.phase = .done := Option.some.inj (hp.phase?_eq.symm.trans hf)
  refine ended_of_place h.occurs hp ?_
  cases hstanding : p.standing with
  | returned | parked | unwinding =>
    rw [hstanding] at hdone
    cases hdone
  | _ => rfl

theorem Stays.not_ended (h : t.Stays s) : ¬ t.Ended s := by
  rintro ⟨hwaits, hunwinds⟩
  cases h with
  | returning ha => exact hwaits (Or.inl ⟨_, ha⟩)
  | parked h => exact hwaits (Or.inr h)
  | unwinding h => exact hunwinds h

/-! ## One stroke -/

namespace Runs

/-- At the end of its registration the fiber is parked, or it cancels what it waited for. -/
theorem stays_of_returning (h : t.Runs s) (hpending : t.Pending s)
    (ha : s.moment.activity = .returning t.fiber left t.run t.canceler)
    (henrolling : s.moment.world.Enrolling t.fiber t.epoch) : t.Stays (s.play .next) := by
  obtain ⟨row, hrow, hholds⟩ := h.occurs.joined.holds t.joint t.callback hpending
  obtain ⟨r, early, hr, hepoch, hphase⟩ := henrolling
  have hrow : s.moment.world.fiber? t.fiber = some row := hrow
  have hcore : s.moment.world.record t.fiber = some row.core := congrArg (Option.map Fiber.core) hrow
  cases hr.symm.trans hcore
  -- the race or pairing still holds the callback, so no exit was kept for the end of the registration
  have hwaits : row.phase.waits = true := by
    refine (hholds.resolve_right fun hleft => ?_).2
    exact Nat.ne_of_gt hleft.1 hepoch
  have hregistering : row.phase = .registering early := hphase
  cases early with
  | some x =>
    rw [hregistering] at hwaits
    cases hwaits
  | none =>
    obtain ⟨⟨w, a⟩, kept⟩ := s
    cases ha
    have hphase? : (w.fiber? t.fiber).map Fiber.phase = some (.registering none) := by
      rw [hrow, Option.map_some, hregistering]
    have hplay : (Scene.play ⟨⟨w, .returning t.fiber left t.run t.canceler⟩, kept⟩ .next).moment =
        w.leaveRegistration t.fiber left t.run t.canceler := rfl
    rw [World.leaveRegistration, hphase?] at hplay
    dsimp only at hplay
    split at hplay
    · exact .unwinding (Or.inr ⟨left, congrArg Moment.activity hplay⟩)
    · refine .parked ?_
      rw [hplay]
      exact ⟨_, record_modifyFiber hr fun _ => rfl, hepoch, rfl⟩

/-- Unless the race or pairing is ended or told a value, the wait goes on or is cancelled. -/
theorem stays_play (h : t.Runs s) (hpending : t.Pending s) (hstays : t.Stays s)
    (hstroke : s.ended? stroke ≠ some t.joint) : t.Stays (s.play stroke) ∨ t.Settled (s.play stroke) := by
  cases hstays with
  | returning ha henrolling =>
    refine Or.inl ?_
    by_cases hnext : stroke = .next
    · subst hnext
      exact h.stays_of_returning hpending ha henrolling
    · exact .returning (Scene.activity_play ha Activity.noConfusion hnext)
        ((Scene.requested_play ha Activity.noConfusion hnext).enrolling henrolling)
  | parked hparked =>
    refine Or.inl ?_
    rcases h.occurs.remains_play hpending hparked h.sides_ne_nil hstroke with (hstill | htask) | hcanceling
    · exact .parked hstill
    · exact .unwinding (Or.inl (loopAt_of_mem_tokens htask))
    · exact .unwinding (Or.inr hcanceling)
  | unwinding hunwinds =>
    rcases h.cancels_after hunwinds [stroke] with hstill | ⟨before, after, hstrokes, hcancels⟩
    · exact Or.inl (.unwinding hstill)
    · refine Or.inr fun side => Or.inr ?_
      cases before with
      | nil =>
        cases hstrokes
        exact hcancels.1 side
      | cons _ rest => exact absurd (List.cons.inj hstrokes).2.symm (List.append_ne_nil_of_right_ne_nil rest nofun)

/-- One of the two has ended, and the other one was interrupted. -/
theorem settled_of_stops (h : t.Runs s) (ha : s.moment.activity = .exiting (t.side side) x hook)
    (hstops : t.Stops side x s) : t.Settled (s.play .next) := fun side' => by
  by_cases hside : side' = side
  · exact Or.inl (hside ▸ h.occurs.finished_play (h.occurs.finished_of_exiting ha) .next)
  · have hother : side' = side.other := by
      cases side' <;> cases side <;> first | rfl | exact absurd rfl hside
    exact Or.inr (hother ▸ hstops.interrupted)

end Runs

namespace Waiting

variable {v : Value} {pairing : PairingId} {row : Pairing}

/-- The first value is kept, and the wait goes on. -/
theorem waiting_of_first (h : t.Waiting s) (hjoint : t.joint = .pairing pairing)
    (hrow : s.moment.world.pairing? pairing = some row) (hcallback : row.callback = some t.callback)
    (hother : row.value? side.other = none) (ha : s.moment.activity = .exiting (t.side side) (.value v) hook) :
    t.Waiting (s.play .next) := by
  have hdone := h.runs.finishes_pairing hjoint ha
  rw [finishPairing_of_first hrow hcallback side hother v] at hdone
  refine ⟨h.runs.play .next, ?_, fun p row' side' v' hp hrow' hvalue => ?_, ?_⟩
  · exact Runs.pending_of_store hjoint h.pending hdone
  · cases hjoint.symm.trans hp
    rw [hdone, pairing?_modifyPairing, if_pos rfl, hrow, Option.map_some, Option.some.injEq] at hrow'
    subst hrow'
    refine h.runs.occurs.finished_play ?_ .next
    by_cases hside : side' = side
    · exact hside ▸ h.runs.occurs.finished_of_exiting ha
    · refine h.values pairing row side' v' hjoint hrow ?_
      cases side' <;> cases side <;> first | exact hvalue | exact absurd rfl hside
  · cases h.stays with
    | returning hreturning => cases hreturning.symm.trans ha
    | parked hparked =>
      refine .parked ?_
      rw [hdone]
      exact hparked
    | unwinding hunwinds =>
      rcases hunwinds with ⟨home, htask⟩ | ⟨left, hcanceling⟩
      · refine .unwinding (Or.inl ⟨home, ?_⟩)
        rw [hdone]
        exact htask
      · cases hcanceling.symm.trans ha

/-- One of the two others tells its exit. -/
theorem told (h : t.Waiting s) (ha : s.moment.activity = .exiting (t.side side) x hook) :
    t.Waiting (s.play .next) ∨ t.Settled (s.play .next) := by
  cases hjoint : t.joint with
  | race r => exact Or.inr (h.runs.settled_of_stops ha (h.runs.stops_race hjoint h.pending ha))
  | pairing p =>
    obtain ⟨row, hrow, hcallback⟩ := Runs.row_of_pending hjoint h.pending
    cases x with
    | cause c => exact Or.inr (h.runs.settled_of_stops ha (h.runs.stops_pairing hjoint hrow hcallback ha))
    | value v =>
      cases hother : row.value? side.other with
      | none => exact Or.inl (h.waiting_of_first hjoint hrow hcallback hother ha)
      | some v' =>
        have hfirst := h.values p row side.other v' hjoint hrow hother
        have hsecond := h.runs.occurs.finished_of_exiting ha
        refine Or.inr fun side' => Or.inl (h.runs.occurs.finished_play ?_ .next)
        cases side' <;> cases side <;> first | exact hfirst | exact hsecond

/-- **A wait goes on until the two others are settled.** -/
theorem play (h : t.Waiting s) (stroke : Stroke) : t.Waiting (s.play stroke) ∨ t.Settled (s.play stroke) := by
  by_cases hended : s.ended? stroke = some t.joint
  · obtain ⟨rfl, f, x, hook, hf, ha⟩ := h.runs.tells_of_ended hended
    obtain ⟨side, rfl⟩ := t.mem_fibers.1 hf
    exact h.told ha
  · have hrows := h.runs.occurs.rows_play h.runs.sides_ne_nil fun he => absurd he hended
    refine (h.runs.stays_play h.pending h.stays hended).imp_left fun hstays => ?_
    refine ⟨h.runs.play stroke, hrows.holder?.trans h.pending, fun p row side v hjoint hrow hvalue => ?_, hstays⟩
    rw [hjoint] at hrows
    exact h.runs.occurs.finished_play (h.values p row side v hjoint (hrows.symm.trans hrow) hvalue) stroke

theorem after (h : t.Waiting s) (strokes : List Stroke) :
    t.Waiting (s.after strokes) ∨ t.Runs (s.after strokes) ∧ t.Settled (s.after strokes) := by
  induction strokes generalizing s with
  | nil => exact Or.inl h
  | cons stroke rest ih =>
    rcases h.play stroke with hstill | hsettled
    · exact ih hstill
    · have hruns := h.runs.play stroke
      exact Or.inr ⟨hruns.after rest, hsettled.after hruns.occurs rest⟩

end Waiting

end Tandem

/-! ## Beginnings -/

section Beginnings

variable {j : Joint} {r : Registration} {l l' : Effect} {g : Combine}

/-- A registration that starts a race or a pairing begins a wait. -/
theorem Scene.Occurs.waiting (h : s.Occurs) (ha : s.moment.activity = .registering f left run r epoch)
    (hstarts : s.moment.world.Starts j ⟨f, epoch⟩ l l' w')
    (hnext : (s.play .next).moment = ⟨w', .returning f left run (s.tandem j f run epoch).canceler⟩)
    (hvalues : ∀ p row side, j = .pairing p → w'.pairing? p = some row → row.value? side = none) :
    (s.tandem j f run epoch).Waiting (s.play .next) := by
  obtain ⟨hbegins, hruns⟩ := h.begins ha hstarts hnext
  have hworld : (s.play .next).moment.world = w' := congrArg Moment.world hnext
  refine ⟨hruns, ?_, fun p row side v hj hrow hvalue => ?_, ?_⟩
  · rw [Tandem.Pending, hworld]
    exact hstarts.holder
  · rw [hworld] at hrow
    cases (hvalues p row side hj hrow).symm.trans hvalue
  · obtain ⟨p, hp⟩ := h.fits_of_activity (congrArg Activity.fiber? ha)
    obtain ⟨home, hrecord⟩ := hp.record
    obtain ⟨⟨early, hstanding⟩, -, hepoch⟩ := (hp.held_of_activity ha rfl).of_registering
    have hself : (s.play .next).moment.world.record f = s.moment.world.record f :=
      congrArg (Option.map Fiber.core) (hbegins.others f fun side => Ne.symm (hruns.alone side))
    exact .returning (congrArg Moment.activity hnext)
      ⟨_, early, hself.trans hrecord, hepoch.symm, congrArg Standing.phase hstanding⟩

theorem Scene.Occurs.waiting_of_race (h : s.Occurs)
    (ha : s.moment.activity = .registering f left run (.race l l') epoch) :
    (s.tandem (.race ⟨s.moment.world.stores.races.size⟩) f run epoch).Waiting (s.play .next) := by
  refine h.waiting ha (starts_startRace l l' ⟨f, epoch⟩ s.moment.world) (play_registering ha ?_) nofun
  rw [Tandem.canceler, Tandem.fibers, Scene.tandem, ← startRace_fst l l' ⟨f, epoch⟩ s.moment.world]
  rfl

theorem Scene.Occurs.waiting_of_pairing (h : s.Occurs)
    (ha : s.moment.activity = .registering f left run (.parZip l l' g) epoch) :
    (s.tandem (.pairing ⟨s.moment.world.stores.pairings.size⟩) f run epoch).Waiting (s.play .next) := by
  refine h.waiting ha (starts_startPairing l l' g ⟨f, epoch⟩ s.moment.world) (play_registering ha ?_) ?_
  · rw [Tandem.canceler, Tandem.fibers, Scene.tandem, ← startPairing_fst l l' g ⟨f, epoch⟩ s.moment.world]
    rfl
  · rintro p row side ⟨⟩ hrow
    rw [pairing?_startPairing, if_pos rfl, Option.some.injEq] at hrow
    subst hrow
    cases side <;> rfl

namespace Tandem.Begun

theorem waiting_or_settled (h : t.Begun s) : t.Waiting s ∨ t.Runs s ∧ t.Settled s := by
  cases h with
  | race h ha strokes => exact (h.waiting_of_race ha).after strokes
  | pairing h ha strokes => exact (h.waiting_of_pairing ha).after strokes

theorem runs (h : t.Begun s) : t.Runs s := h.waiting_or_settled.elim (·.runs) (·.1)

/-- **When the wait of the fiber has ended, each of the two others has ended or was interrupted.** -/
theorem settled (h : t.Begun s) (hended : t.Ended s) : t.Settled s :=
  (h.waiting_or_settled.resolve_left fun hwaiting => hwaiting.stays.not_ended hended).2

end Tandem.Begun

end Beginnings

end Settling

end FiberLoop
