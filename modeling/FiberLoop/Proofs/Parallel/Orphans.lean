import FiberLoop.Proofs.Parallel.Settling

/-!
# No fiber is left behind

Fibers that wait for two others form trees: each of the others may wait for two more, several times in its life. An
interruption reaches a fiber at any depth by one hop at a time, through the task with which each fiber on the way
cancels its own wait. When nothing is left to do on either loop it has reached all of them: a fiber that was interrupted
and can be has ended (`Scene.Occurs.finished_of_flagged`), and then every wait of its own has ended, which leaves the
two others of that one ended or interrupted in turn.

The main result of this module is `Tandem.Begun.orphanless`.
-/

namespace FiberLoop

open World

/-- Nothing is left to do, on either loop. -/
structure Moment.Still (m : Moment) : Prop where
  activity : m.activity = .idle
  loop : m.world.loop.inbox = []
  aside : m.world.aside.inbox = []

/-- No fiber is parked inside an uninterruptible region. -/
def World.Unshielded (w : World) : Prop :=
  ∀ f run canceler, w.phase? f = some (.suspended run canceler) → run.masks.isInterruptible = true

namespace Tandem

/-- The two others, and those of the races and pairings for which one of these has waited. -/
inductive Descendant (s : Scene) (t : Tandem) : FiberId → Prop where
  | child (side : Side) : Descendant s t (t.side side)
  | deeper {u : Tandem} (h : Descendant s t u.fiber) (hbegun : u.Begun s) (side : Side) : Descendant s t (u.side side)

/-- What becomes of the fibers that were started for a race or a pairing when its wait has ended. -/
structure Orphanless (t : Tandem) (s : Scene) : Prop where
  /-- The wait has ended when the fiber is given an exit. -/
  resumed : ∀ x, t.Resumed x s → t.Ended s
  /-- The wait has ended when the fiber goes on with the interruption. -/
  canceled : t.Cancels s → t.Ended (s.play .next)
  /-- Each of the two others has ended or was interrupted. -/
  settled : t.Ended s → t.Settled s
  /-- When nothing is left to do and no fiber is parked inside an uninterruptible region, all descendants have ended. -/
  finished : t.Ended s → s.moment.Still → s.moment.world.Unshielded → ∀ f, t.Descendant s f → s.moment.world.Finished f

end Tandem

section Orphans

variable {t : Tandem} {s : Scene} {f : FiberId}

/-- When nothing is left to do, a fiber that was interrupted and is not shielded from it has ended. -/
theorem Scene.Occurs.finished_of_flagged (h : s.Occurs) (hstill : s.moment.Still) (hopen : s.moment.world.Unshielded)
    (hflag : s.moment.world.flagged f = true) : s.moment.world.Finished f := by
  rcases (h.joined.people f).cases with habsent | ⟨p, hp⟩
  · rw [flagged, fiber?_of_record_none habsent.record] at hflag
    cases hflag
  · obtain ⟨home, hrecord⟩ := hp.record
    have hphase : s.moment.world.phase? f = some p.standing.phase := hp.phase?_eq
    have hheld : Held f p.epoch p.hook p.standing (s.moment.world.tokens f) (s.moment.activity.of f) := hp.held
    rw [tokens_of_empty hstill.loop hstill.aside, hstill.activity] at hheld
    have hidle : Activity.idle.of f = .idle := ite_self _
    rw [hidle] at hheld
    -- nobody holds the fiber, so it is parked or has ended
    generalize hstanding : p.standing = standing at hheld
    cases hheld with
    | parked run canceler =>
      rw [hstanding] at hphase
      have hasleep : s.moment.world.Asleep f home run canceler :=
        ⟨_, hrecord, rfl, (Place.phase_record p home).trans (congrArg Standing.phase hstanding)⟩
      cases hflag.symm.trans (h.unflagged_of_asleep hasleep (hopen f run canceler hphase))
    | done x =>
      rw [hstanding] at hphase
      exact hphase

namespace Tandem

theorem Begun.after (h : t.Begun s) (strokes : List Stroke) : t.Begun (s.after strokes) := by
  cases h with
  | race h ha before =>
    rw [← Scene.after_append]
    exact .race h ha (before ++ strokes)
  | pairing h ha before =>
    rw [← Scene.after_append]
    exact .pairing h ha (before ++ strokes)

section Still

variable (hstill : s.moment.Still) (hopen : s.moment.world.Unshielded)

include hstill hopen

/-- When nothing is left to do, those have ended for whom the wait of another fiber has. -/
theorem Begun.finished_side (h : t.Begun s) (hended : t.Ended s) (side : Side) : s.moment.world.Finished (t.side side) :=
  (h.settled hended side).elim id (h.runs.occurs.finished_of_flagged hstill hopen)

theorem Descendant.finished (hf : t.Descendant s f) (h : t.Begun s) (hended : t.Ended s) :
    s.moment.world.Finished f := by
  induction hf with
  | child side => exact h.finished_side hstill hopen hended side
  | deeper _ hbegun side ih => exact hbegun.finished_side hstill hopen (hbegun.runs.ended_of_finished ih) side

end Still

/-- **No fiber is left behind when the wait for it has ended**, in every run and at every depth. -/
theorem Begun.orphanless (h : t.Begun s) : t.Orphanless s where
  resumed _ := h.runs.ended_of_resumed
  canceled := h.runs.ended_of_cancels
  settled := h.settled
  finished hended hstill hopen _ hf := hf.finished hstill hopen h hended

end Tandem

/-! ## A race inside a race -/

namespace Scene

/-- A fiber is about to wait for a race of an interruption and of another race, of two effects that never end. -/
def nesting : Scene := (initial {} []).after
  (.demand (.scenario (.run "a" (.race (.race .never .never) .interrupted) false)) :: List.replicate 5 .next)

/-- The inner race is about to begin. -/
def nested : Scene := (nesting.play .next).after (List.replicate 6 .next)

/-- Nothing is left to do. -/
def unwound : Scene := (nested.play .next).after (List.replicate 28 .next)

theorem unshielded_unwound : unwound.moment.world.Unshielded := by
  rintro ⟨i⟩ run canceler hphase
  match i with
  | 0 | 1 | 2 | 3 | 4 => cases hphase
  | n + 5 =>
    have hsize : unwound.moment.world.fibers.size = 5 := rfl
    rw [World.phase?, World.fiber?_eq_none_of_le (hsize ▸ Nat.le_add_left 5 n)] at hphase
    cases hphase

/-- The fibers of the inner race have ended, whose outer race ended before they were started. -/
theorem orphanless_of_nesting :
    let t := nesting.tandem (.race ⟨0⟩) ⟨0⟩ {} 1
    t.Begun unwound ∧ t.Ended unwound ∧ unwound.moment.Still ∧ unwound.moment.world.Unshielded ∧
      t.Descendant unwound ⟨3⟩ ∧ unwound.moment.world.Finished ⟨3⟩ := by
  intro t
  have houter : nesting.moment.activity =
      .registering ⟨0⟩ 1020 {} (.race (.race (.async .never) (.async .never)) (.caused .interrupted)) 1 := rfl
  have hinner : nested.moment.activity = .registering ⟨1⟩ 1020 {} (.race (.async .never) (.async .never)) 1 := rfl
  have hraces : nesting.moment.world.stores.races.size = 0 := rfl
  have hmore : nested.moment.world.stores.races.size = 1 := rfl
  have hoccurs : nesting.Occurs := (Occurs.initial {} []).after _
  have hnested : nested.Occurs := hoccurs.after (.next :: List.replicate 6 .next)
  have hbegun : t.Begun unwound := by
    have hrace := (Tandem.Begun.race hoccurs houter (List.replicate 6 .next)).after (.next :: List.replicate 28 .next)
    rwa [hraces, after_cons] at hrace
  have hdeeper : (nested.tandem (.race ⟨1⟩) ⟨1⟩ {} 1).Begun unwound := by
    have hrace := Tandem.Begun.race hnested hinner (List.replicate 28 .next)
    rwa [hmore] at hrace
  have hended : t.Ended unwound := hbegun.runs.ended_of_finished rfl
  have hstill : unwound.moment.Still := ⟨rfl, rfl, rfl⟩
  have hdescendant : t.Descendant unwound ⟨3⟩ := .deeper (.child .left) hdeeper .left
  exact ⟨hbegun, hended, hstill, unshielded_unwound, hdescendant,
    (Tandem.Begun.orphanless hbegun).finished hended hstill unshielded_unwound ⟨3⟩ hdescendant⟩

end Scene

end Orphans

end FiberLoop
