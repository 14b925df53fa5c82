import FiberLoop.Proofs.Runtime.Lockstep
import FiberLoop.Proofs.Runtime.Scenes

/-!
# A masked fiber is insensitive to interruption

A fiber whose whole effect is uninterruptible never finds out whether its interruption was requested, and neither
does anybody else. Two runs that differ only in the requests to interrupt it go through the same moments, stroke by
stroke, but for its flag: the loops hold the same messages and have counted the same tasks, all fibers are in the
same phases, the stores hold the same, and the log is the same.

The main result of this module is `Scene.Occurs.insensitive`.
-/

namespace FiberLoop

namespace World

/-- The world without the flag of a fiber. -/
def forget (f : FiberId) (w : World) : World := w.modifyFiber f fun r => { r with interruptRequested := false }

theorem forget_raise (w : World) (f : FiberId) : (w.raise f).forget f = w.forget f := by
  simp only [forget, raise, modifyFiber, Table.modify_modify]

end World

/-- Whether a stroke is a request to interrupt the fiber. -/
def Stroke.interrupts (f : FiberId) : Stroke → Bool
  | .demand (.interrupt g) => g = f
  | _ => false

theorem Stroke.eq_of_interrupts {f : FiberId} {stroke : Stroke} (h : stroke.interrupts f = true) :
    stroke = .demand (.interrupt f) := by
  cases stroke with
  | demand d =>
    cases d with
    | interrupt g => exact congrArg (fun g => Stroke.demand (.interrupt g)) (of_decide_eq_true h)
    | _ => cases h
  | _ => cases h

namespace Scene

/-- The scene without the flag of a fiber. -/
def forget (f : FiberId) (s : Scene) : Scene :=
  { s with moment := ⟨s.moment.world.forget f, s.moment.activity⟩ }

/-- The same scene with the flag of a fiber set. -/
def raise (f : FiberId) (s : Scene) : Scene := { s with moment := s.moment.raise f }

variable {f : FiberId} {body : Effect} {s s' : Scene} {strokes : List Stroke}

/-- A scene at which a fiber is under its shield, as it stands in a run. -/
structure Sheltered (f : FiberId) (body : Effect) (s : Scene) : Prop where
  moment : s.moment.Sheltered f body
  quiet : s.moment.world.TimersQuiet

theorem Sheltered.play (h : s.Sheltered f body) (stroke : Stroke) : (s.play stroke).Sheltered f body := by
  have hleads := leadsTo_play h.quiet stroke
  refine ⟨?_, hleads.timersQuiet h.quiet⟩
  obtain ⟨p, hfits, hsealed⟩ := h.moment
  obtain ⟨es, htransitions⟩ := hleads
  obtain ⟨q, hmoves, hfits'⟩ := htransitions.fits hfits
  exact ⟨q, hfits', hsealed.moves hmoves⟩

/-- **A stroke does the same, whether or not the flag of a sheltered fiber is set.** -/
theorem Sheltered.play_raise (h : s.Sheltered f body) (stroke : Stroke) :
    (s.raise f).play stroke = (s.play stroke).raise f := by
  obtain ⟨⟨w, a⟩, kept⟩ := s
  have hworld : w.Sheltered f body := h.moment.world
  cases stroke with
  | next => exact congrArg (Scene.mk · kept) (Moment.next_raise h.moment h.quiet)
  | fire =>
    cases a with
    | idle =>
      have hstopped : (w.raise f).loop.stopped = w.loop.stopped := rfl
      simp only [raise, Moment.raise, Scene.play, between, hstopped, hworld.raise_fireDue h.quiet]
      split <;> rfl
    | _ => rfl
  | switch => cases a <;> rfl
  | clock time => cases a <;> rfl
  | demand d =>
    have hdeaf := (TracksAll.demand (J := Deaf f body) kept d).2 w hworld
    simp only [raise, Moment.raise, Scene.play, hdeaf]
    cases (d.act kept).run w with
    | mk result v => cases result <;> rfl

/-- A request to interrupt a sheltered fiber sets the flag, if anything. -/
theorem Sheltered.interrupt (h : s.Sheltered f body) :
    s.play (.demand (.interrupt f)) = s.raise f := by
  have hplay : s.play (.demand (.interrupt f)) =
      { s with moment := ⟨s.moment.world.interrupt f, s.moment.activity⟩ } :=
    congrArg (Scene.mk _) (List.append_nil s.kept)
  rcases h.moment.world.interrupt with hset | ⟨hsame, hraised⟩
  · rw [hplay, hset]
    rfl
  · rw [hplay, hsame]
    exact congrArg (fun w => (⟨⟨w, s.moment.activity⟩, s.kept⟩ : Scene)) hraised.symm

theorem raise_raise (s : Scene) (f : FiberId) : (s.raise f).raise f = s.raise f :=
  congrArg (fun w => (⟨⟨w, s.moment.activity⟩, s.kept⟩ : Scene)) (World.raise_raise _ f)

theorem forget_raise (s : Scene) (f : FiberId) : (s.raise f).forget f = s.forget f :=
  congrArg (fun w => (⟨⟨w, s.moment.activity⟩, s.kept⟩ : Scene)) (World.forget_raise _ f)

/-- So does a run. -/
theorem Sheltered.after_raise (h : s.Sheltered f body) (strokes : List Stroke) :
    (s.raise f).after strokes = (s.after strokes).raise f := by
  induction strokes generalizing s with
  | nil => rfl
  | cons stroke rest ih =>
    rw [after_cons, after_cons, h.play_raise]
    exact ih (h.play stroke)

theorem Sheltered.after (h : s.Sheltered f body) (strokes : List Stroke) : (s.after strokes).Sheltered f body := by
  induction strokes generalizing s with
  | nil => exact h
  | cons stroke rest ih => exact ih (h.play stroke)

theorem Sheltered.raise (h : s.Sheltered f body) : (s.raise f).Sheltered f body :=
  h.interrupt ▸ h.play (.demand (.interrupt f))

/-- Without the requests to interrupt a sheltered fiber the run is the same, up to the flag. -/
theorem Sheltered.after_filter (h : s.Sheltered f body) (strokes : List Stroke) :
    s.after strokes = s.after (strokes.filter (!·.interrupts f)) ∨
      s.after strokes = (s.after (strokes.filter (!·.interrupts f))).raise f := by
  induction strokes generalizing s with
  | nil => exact Or.inl rfl
  | cons stroke rest ih =>
    cases hstroke : stroke.interrupts f with
    | true =>
      obtain rfl := Stroke.eq_of_interrupts hstroke
      have hraised := h.after_raise (rest.filter (!·.interrupts f))
      rw [after_cons, h.interrupt, List.filter_cons_of_neg (by simp [hstroke])]
      rcases ih h.raise with hsame | hsame
      · exact Or.inr (hsame.trans hraised)
      · exact Or.inr (by rw [hsame, hraised, raise_raise])
    | false =>
      rw [List.filter_cons_of_pos (by simp [hstroke]), after_cons, after_cons]
      exact ih (h.play stroke)

/-! ## The main result -/

/-- Two scenes that differ at most in the flag of a fiber: in both, the loops hold the same messages and have counted
the same tasks, every fiber is in the same phase and has the same exit, the stores and the log are the same, and
the same comes next. -/
structure SameButFlag (f : FiberId) (s s' : Scene) : Prop where
  forget : s.forget f = s'.forget f
  /-- Nobody can tell the two apart. -/
  answers : ∀ op : ScenarioOp, (op.perform.run s.moment.world).1 = (op.perform.run s'.moment.world).1
  /-- Nor can a closure that somebody calls. -/
  calls : ∀ c : Call, (c.act.run s.moment.world).1 = (c.act.run s'.moment.world).1
  states : ∀ g, s.moment.world.fiberReport g = s'.moment.world.fiberReport g

theorem SameButFlag.symm (h : s.SameButFlag f s') : s'.SameButFlag f s :=
  ⟨h.forget.symm, fun op => (h.answers op).symm, fun c => (h.calls c).symm, fun g => (h.states g).symm⟩

theorem SameButFlag.trans {s'' : Scene} (h : s.SameButFlag f s') (h' : s'.SameButFlag f s'') :
    s.SameButFlag f s'' :=
  ⟨h.forget.trans h'.forget, fun op => (h.answers op).trans (h'.answers op),
    fun c => (h.calls c).trans (h'.calls c), fun g => (h.states g).trans (h'.states g)⟩

theorem Sheltered.sameButFlag (h : s.Sheltered f body) : (s.raise f).SameButFlag f s := by
  have hworld : s.moment.world.Sheltered f body := h.moment.world
  refine ⟨forget_raise s f, fun op => ?_, fun c => ?_, fun g => World.fiberReport_raise _ f g⟩
  · have hdeaf := (TracksAll.scenario (J := Deaf f body) op).2 _ hworld
    simp only [Scene.raise, Moment.raise, hdeaf]
  · have hdeaf := (TracksAll.call (J := Deaf f body) c).2 _ hworld
    simp only [Scene.raise, Moment.raise, hdeaf]

theorem Sheltered.sameButFlag_filter (h : s.Sheltered f body) (strokes : List Stroke) :
    (s.after strokes).SameButFlag f (s.after (strokes.filter (!·.interrupts f))) := by
  rcases h.after_filter strokes with hsame | hsame
  · rw [hsame]
    exact ⟨rfl, fun _ => rfl, fun _ => rfl, fun _ => rfl⟩
  · rw [hsame]
    exact (h.after _).sameButFlag

/-- A fiber that is about to start an uninterruptible effect is under its shield. -/
theorem Occurs.sheltered (h : s.Occurs)
    (hcreated : s.moment.world.phase? f = some (.created body.uninterruptible)) : s.Sheltered f body := by
  refine ⟨?_, h.timersQuiet⟩
  rcases h.absent_or_fits f with habsent | ⟨p, hfits⟩
  · rw [World.phase?, World.fiber?_of_record_none habsent.record] at hcreated
    cases hcreated
  · have hphase : p.standing.phase = .created body.uninterruptible :=
      Option.some.inj (hfits.phase?_eq.symm.trans hcreated)
    refine ⟨p, hfits, ?_⟩
    rw [Standing.phase_eq_created hphase]
    exact .fresh

/-- **A fiber whose whole effect is uninterruptible is insensitive to interruption.** From the moment at which such a
fiber is there, two runs that differ only in the requests to interrupt it come to the same moment, but for its
flag, and wherever they have come, a request by anybody changes nothing but the flag. -/
theorem Occurs.insensitive (h : s.Occurs)
    (hcreated : s.moment.world.phase? f = some (.created body.uninterruptible)) {strokes strokes' : List Stroke}
    (hsame : strokes.filter (!·.interrupts f) = strokes'.filter (!·.interrupts f)) :
    (s.after strokes).SameButFlag f (s.after strokes') ∧
      ((s.after strokes).moment.world.interrupt f).forget f = (s.after strokes).moment.world.forget f := by
  have hsheltered := h.sheltered hcreated
  refine ⟨?_, ?_⟩
  · have hstrokes := hsheltered.sameButFlag_filter strokes
    rw [hsame] at hstrokes
    exact hstrokes.trans (hsheltered.sameButFlag_filter strokes').symm
  · rcases (hsheltered.after strokes).moment.world.interrupt with hset | ⟨hunchanged, -⟩
    · rw [hset, World.forget_raise]
    · rw [hunchanged]

/-- A run in which a fiber is there that is about to wait for ever under its shield. -/
def waiting : Scene :=
  (initial {} []).after [.demand (.build (.uninterruptible .never)), .demand (.fork 0)]

/-- That fiber is asked to stop before its first step, while it runs, and when it is parked. -/
def pressing : List Stroke :=
  [.demand (.interrupt ⟨0⟩), .next, .demand (.interrupt ⟨0⟩), .next, .next, .next, .next, .demand (.interrupt ⟨0⟩),
    .next]

/-- It is parked all the same, as if nobody had asked. -/
theorem Occurs.insensitive_never : (waiting.after pressing).moment.world.fiberState ⟨0⟩ = .suspended ∧
    (waiting.after pressing).SameButFlag ⟨0⟩ (waiting.after (List.replicate 6 .next)) := by
  have hoccurs : waiting.Occurs := (Occurs.initial {} []).after _
  have hcreated : waiting.moment.world.phase? ⟨0⟩ = some (.created Effect.never.uninterruptible) := rfl
  have hsame : pressing.filter (!·.interrupts ⟨0⟩) =
      (List.replicate 6 Stroke.next).filter (!·.interrupts ⟨0⟩) := rfl
  exact ⟨rfl, (Occurs.insensitive hoccurs hcreated hsame).1⟩

end Scene

end FiberLoop
