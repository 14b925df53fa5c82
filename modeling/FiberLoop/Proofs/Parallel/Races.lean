import FiberLoop.Proofs.Parallel.Outcomes

/-!
# Races

The first of the two fibers of a race to end ends the race: the other one is interrupted, and then the fiber that
waits goes on with the exit, whatever it is. The exit of the other one is ignored.

The main result of this module is `Scene.Occurs.raced`.
-/

namespace FiberLoop

open World

/-- How a race goes, from its beginning for ever. -/
structure Tandem.Races (t : Tandem) (s : Scene) : Prop extends t.Endures s where
  /-- The first of the two to end ends the race with its exit. -/
  first : ∀ strokes side x hook, s.Silent t.fibers strokes →
    (s.after strokes).moment.activity = .exiting (t.side side) x hook → t.Stops side x (s.after strokes)

section Races

variable {t : Tandem} {s : Scene} {strokes : List Stroke} {side : Side} {x : Exit Value Value} {hook : ExitHook}
  {r : RaceId} {f : FiberId} {left epoch : Nat} {run : Run} {l l' : Effect}

namespace Tandem.Runs

/-- A fiber that ends before the race has ended ends it. -/
theorem stops_race (h : t.Runs s) (hjoint : t.joint = .race r) (hpending : t.Pending s)
    (ha : s.moment.activity = .exiting (t.side side) x hook) : t.Stops side x s := by
  have hends : ∃ w, s.moment.world.Ends t.joint w ∧
      (s.play .next).moment.world = (w.interrupt (t.side side.other)).settle t.callback x := by
    have hhook := h.hook_of_exiting ha
    have hsides := h.sides
    have hholder : s.moment.world.holder? t.joint = some t.callback := hpending
    rw [hjoint] at hhook hsides hholder
    rw [hjoint]
    obtain ⟨⟨w, a⟩, kept⟩ := s
    cases ha
    subst hhook
    obtain ⟨row, hrow, hcallback⟩ := Option.bind_eq_some_iff.1 hholder
    rw [World.sides, hrow] at hsides
    have hfibers : row.fibers = t.fibers := hsides
    refine ⟨_, ends_modifyRace w r, (finishRace_of_open hrow hcallback side x).trans ?_⟩
    rw [hfibers]
    cases side <;> rfl
  obtain ⟨w, hends, hdone⟩ := hends
  exact h.stops hpending ha hends hdone

theorem races_of_pending (h : t.Runs s) (hjoint : t.joint = .race r) (hpending : t.Pending s) : t.Races s where
  toEndures := by
    refine h.endures (fun s side x hook hs hp ha => ?_) hpending
    have hstops := hs.stops_race hjoint hp ha
    exact ⟨Or.inr hstops.ended, hstops.spares _ (Ne.symm (h.alone side.other))⟩
  first strokes side x hook hsilent ha :=
    (h.after strokes).stops_race hjoint (h.pending_of_silent hpending hsilent) ha

end Tandem.Runs

/-- **A race ends with the exit of that fiber which ends first**, in every run. -/
theorem Scene.Occurs.raced (h : s.Occurs) (ha : s.moment.activity = .registering f left run (.race l l') epoch) :
    (s.tandem (.race ⟨s.moment.world.stores.races.size⟩) f run epoch).Begins l l' s ∧
      (s.tandem (.race ⟨s.moment.world.stores.races.size⟩) f run epoch).Races (s.play .next) := by
  have hstarts := starts_startRace l l' ⟨f, epoch⟩ s.moment.world
  have hnext : (s.play .next).moment = ⟨(s.moment.world.startRace l l' ⟨f, epoch⟩).2, .returning f left run
      (s.tandem (.race ⟨s.moment.world.stores.races.size⟩) f run epoch).canceler⟩ := by
    have hfibers := startRace_fst l l' ⟨f, epoch⟩ s.moment.world
    obtain ⟨⟨w, a⟩, kept⟩ := s
    cases ha
    show Moment.mk _ (.returning f left run (.interrupt (w.startRace l l' ⟨f, epoch⟩).1)) = _
    rw [hfibers]
    rfl
  obtain ⟨hbegins, hruns⟩ := h.begins ha hstarts hnext
  refine ⟨hbegins, hruns.races_of_pending rfl ?_⟩
  rw [Tandem.Pending, congrArg Moment.world hnext]
  exact hstarts.holder

/-- A fiber is about to wait for a race of an interruption and of an effect that never ends. -/
def Scene.racing : List Stroke :=
  .demand (.scenario (.run "a" (.race .interrupted .never) false)) :: List.replicate 5 .next

theorem Scene.raced_of_racing :
    ((initial {} []).after racing).moment.activity =
        .registering ⟨0⟩ 1020 {} (.race (.caused .interrupted) (.async .never)) 1 ∧
      (((initial {} []).after racing).tandem (.race ⟨0⟩) ⟨0⟩ {} 1).Begins (.caused .interrupted) (.async .never)
        ((initial {} []).after racing) ∧
      (((initial {} []).after racing).tandem (.race ⟨0⟩) ⟨0⟩ {} 1).Races (((initial {} []).after racing).play .next) := by
  have ha : ((initial {} []).after racing).moment.activity =
      .registering ⟨0⟩ 1020 {} (.race (.caused .interrupted) (.async .never)) 1 := rfl
  exact ⟨ha, Occurs.raced ((Occurs.initial {} []).after racing) ha⟩

end Races

end FiberLoop
