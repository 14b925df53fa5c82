import FiberLoop.Proofs.Permits.Exclusion
import FiberLoop.Proofs.Runtime.Progress

/-!
# Evaluations, stroke by stroke

While an effect is evaluated its fiber takes steps, yields, waits in the queue of its loop, or is parked. In all of
these places it is above the run on which the evaluation began, and the strokes of others do not take it from there.

The main result of this module is `Scene.Occurs.evaluates_play`: with one stroke an evaluation goes on, or it comes to
its end with an exit.
-/

namespace FiberLoop

/-- A fiber in this standing is above a run. -/
inductive Standing.Above (base : Run) : Standing → Prop where
  | ready {stand : Stand} (h : stand.Above base) : Above base (.ready stand)
  | waits {s : Standing} {run : Run} (hs : ∀ stand, s ≠ .ready stand) (hrun : s.run? = some run)
    (h : base.Within run) : Above base s

namespace Standing

variable {base run : Run} {s : Standing}

/-- A fiber on a run above the base is above the base, or feeds an exit to it. -/
theorem above_or_feeds (hrun : s.run? = some run) (h : base.Within run) :
    s.Above base ∨ ∃ x, s = .ready ⟨base, .ofExit x⟩ := by
  by_cases hs : ∃ stand, s = .ready stand
  · obtain ⟨⟨run', next⟩, rfl⟩ := hs
    cases hrun
    rcases Stand.above_or_feeds h next with habove | ⟨x, hx⟩
    · exact Or.inl (.ready habove)
    · exact Or.inr ⟨x, congrArg Standing.ready hx⟩
  · exact Or.inl (.waits (fun stand hstand => hs ⟨stand, hstand⟩) hrun h)

theorem Above.of_ready {stand : Stand} (h : s.Above base) (hs : s = .ready stand) : stand.Above base := by
  cases h with
  | ready h => exact Standing.ready.inj hs ▸ h
  | waits hnot => exact absurd hs (hnot stand)

/-- A fiber above an inner run is above every run on which that one lies. -/
theorem Above.trans {inner : Run} (h : s.Above inner) (hbase : base.Within inner) : s.Above base := by
  cases h with
  | ready h => exact .ready (h.trans hbase)
  | waits hs hrun h => exact .waits hs hrun (hbase.trans h)

/-- A fiber that is done has come to the end of every evaluation. -/
theorem Above.not_done (h : s.Above base) : s.phase ≠ .done := by
  cases h with
  | ready => exact Phase.noConfusion
  | waits _ hrun =>
    intro hdone
    cases s with
    | exiting x | done x => cases hrun
    | _ => cases hdone

end Standing

namespace Scene

/-- The evaluation that the fiber began on the run has not ended. -/
def Evaluates (f : FiberId) (base : Run) (s : Scene) : Prop :=
  ∃ p, Fits f (s.moment.view f) p ∧ p.standing.Above base

/-- The evaluation that the fiber began on the run has ended with an exit. -/
def Ends (f : FiberId) (base : Run) (x : Exit Value Value) (s : Scene) : Prop :=
  ∃ p, Fits f (s.moment.view f) p ∧ p.standing = .ready ⟨base, .ofExit x⟩

/-- The fiber is ready to go on from a stand. -/
def Ready (f : FiberId) (stand : Stand) (s : Scene) : Prop :=
  ∃ p, Fits f (s.moment.view f) p ∧ p.standing = .ready stand

variable {s : Scene} {f : FiberId} {base run : Run} {stand stand' : Stand} {left : Nat} {stroke : Stroke}

theorem Occurs.ready (h : s.Occurs) (ha : s.moment.activity = .running f left stand) : s.Ready f stand := by
  obtain ⟨p, hp⟩ := h.fits_of_activity (by rw [ha]; rfl)
  exact ⟨p, hp, hp.ready_of_running ha⟩

theorem Ready.eq (h : s.Ready f stand) (ha : s.moment.activity = .running f left stand') : stand' = stand := by
  obtain ⟨p, hp, hready⟩ := h
  exact (Standing.ready.inj (hready.symm.trans (hp.ready_of_running ha))).symm

/-- A fiber that takes no step is ready to go on from where it was. -/
theorem Ready.still (h : s.Ready f stand) (ho : s.Occurs) (hstep : s.stepper? stroke ≠ some f) :
    (s.play stroke).Ready f stand := by
  obtain ⟨p, hp, hready⟩ := h
  obtain ⟨q, hq⟩ := ho.fits_play hp stroke
  exact ⟨q, hq, (ho.stays hp hq hstep).ready _ hready⟩

/-- A fiber goes to its next stand when it takes its step, and until then it stays. -/
theorem Ready.goes (h : s.Ready f stand) (ho : s.Occurs) (hgoes : stand.Goes stand') (stroke : Stroke) :
    (s.play stroke).Ready f stand ∨ (s.play stroke).Ready f stand' := by
  by_cases hstep : s.stepper? stroke = some f
  · obtain ⟨rfl, left, stand'', ha⟩ := of_stepper? hstep
    cases h.eq ha
    have hmoment := (play_of_goes (b := {}) ha hgoes).1
    exact Or.inr ((ho.after [.next]).ready (congrArg Moment.activity hmoment))
  · exact Or.inl (h.still ho hstep)

theorem Ready.evaluates (h : s.Ready f stand) (habove : stand.Above base) : s.Evaluates f base := by
  obtain ⟨p, hp, hready⟩ := h
  exact ⟨p, hp, hready ▸ .ready habove⟩

/-- A fiber that is on a run above the base evaluates something on the base, or has ended that. -/
theorem Occurs.evaluates_or_ends (h : s.Occurs) (ha : s.moment.activity.fiber? = some f)
    (hrun : s.moment.activity.run? = some run) (hwithin : base.Within run) :
    s.Evaluates f base ∨ ∃ x, s.Ends f base x := by
  obtain ⟨p, hp⟩ := h.fits_of_activity ha
  rcases Standing.above_or_feeds ((hp.run?_of_activity ha).trans hrun) hwithin with habove | ⟨x, hx⟩
  · exact Or.inl ⟨p, hp, habove⟩
  · exact Or.inr ⟨x, p, hp, hx⟩

/-- A step of a fiber above a run leads to a place above the run or to the end of the evaluation. -/
theorem Occurs.evaluates_step (h : s.Occurs) (ha : s.moment.activity = .running f (left + 1) stand)
    (habove : stand.Above base) :
    (s.play .next).Evaluates f base ∨ ∃ x, (s.play .next).Ends f base x := by
  have hafter : (s.play .next).Occurs := h.after [.next]
  have hresult {stand' : Stand} (hactivity : (s.play .next).moment.activity = .running f left stand')
      (hwithin : base.Within stand'.run) : (s.play .next).Evaluates f base ∨ ∃ x, (s.play .next).Ends f base x :=
    hafter.evaluates_or_ends (by rw [hactivity]; rfl) (by rw [hactivity]; rfl) hwithin
  cases hdeed : stand.deed with
  | move stand' =>
    exact hresult (congrArg Moment.activity (play_of_goes (b := {}) ha (.move hdeed)).1) (habove.move hdeed)
  | call c run =>
    cases hcuts : s.moment.world.cuts f c run with
    | true => exact hresult (congrArg Moment.activity (play_of_cut ha {} hdeed hcuts).1) (habove.call hdeed)
    | false => exact hresult (congrArg Moment.activity (play_of_call ha {} hdeed hcuts).1) (habove.call hdeed)
  | register r =>
    rcases activity_of_register ha hdeed with hcut | ⟨epoch, hregisters⟩
    · exact hresult hcut habove.1
    · exact hafter.evaluates_or_ends (by rw [hregisters]; rfl) (by rw [hregisters]; rfl) habove.1
  | exit x => exact absurd hdeed (habove.not_exit x)

/-- **With one stroke an evaluation goes on, or it comes to its end with an exit.** -/
theorem Occurs.evaluates_play (h : s.Occurs) (he : s.Evaluates f base) (stroke : Stroke) :
    (s.play stroke).Evaluates f base ∨ ∃ x, (s.play stroke).Ends f base x := by
  obtain ⟨p, hp, habove⟩ := he
  by_cases hstep : s.stepper? stroke = some f
  · obtain ⟨rfl, left, stand, ha⟩ := of_stepper? hstep
    exact h.evaluates_step ha (habove.of_ready (hp.ready_of_running ha))
  · obtain ⟨q, hq⟩ := h.fits_play hp stroke
    have hstays := h.stays hp hq hstep
    generalize hstanding : p.standing = standing at habove
    cases habove with
    | ready habove =>
      exact Or.inl ⟨q, hq, (hstays.ready _ hstanding) ▸ .ready habove⟩
    | waits _ hrun hwithin =>
      rcases Standing.above_or_feeds (hstays.run _ (hstanding ▸ hrun)) hwithin with habove | ⟨x, hx⟩
      · exact Or.inl ⟨q, hq, habove⟩
      · exact Or.inr ⟨x, q, hq, hx⟩

end Scene

end FiberLoop
