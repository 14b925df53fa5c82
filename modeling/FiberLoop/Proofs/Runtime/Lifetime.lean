import FiberLoop.Proofs.Runtime.Residing

/-!
# The first step and the last one

A fiber that has not begun waits in the queue until it begins with its root; a fiber that has ended has its exit for
ever and takes no step any more.

The main results of this module are `Scene.Occurs.begins_play` and `Scene.Occurs.exits_play`.
-/

namespace FiberLoop

/-! ## Moves -/

section Moves

variable {p q : Place} {es : List Event} {root : Effect} {x : Exit Value Value}

theorem Move.fresh_of_fresh {e : Event} (h : Move p e q) (hq : q.standing = .fresh root) :
    p.standing = .fresh root := by
  cases h with
  | request => exact hq
  | _ => cases hq

/-- A fiber that has not begun had not begun before. -/
theorem Moves.fresh_of_fresh (h : Moves p es q) (hq : q.standing = .fresh root) : p.standing = .fresh root := by
  induction h with
  | refl => exact hq
  | step first _ ih => exact first.fresh_of_fresh (ih hq)

theorem Move.exit?_eq {e : Event} (h : Move p e q) (hp : p.standing.exit? = some x) : q.standing.exit? = some x := by
  cases h with
  | request => exact hp
  | tell hstanding =>
    rw [hstanding] at hp
    exact hp
  | begin hstanding | step hstanding | register hstanding | «return» hstanding | keepRegistering hstanding
  | keepReturned hstanding | park hstanding | throw hstanding | early hstanding | answer hstanding
  | interruptReturned hstanding | interruptParked hstanding | cancel hstanding | «continue» hstanding
  | exit hstanding =>
    rw [hstanding] at hp
    cases hp

/-- A fiber that has ended keeps its exit. -/
theorem Moves.exit?_eq (h : Moves p es q) (hp : p.standing.exit? = some x) : q.standing.exit? = some x := by
  induction h with
  | refl => exact hp
  | step first _ ih => exact ih (first.exit?_eq hp)

end Moves

namespace Scene

variable {s : Scene} {f : FiberId} {stand stand' : Stand} {left : Nat} {stroke : Stroke} {x : Exit Value Value}
  {p : Place} {root : Effect}

/-- The fiber has ended with an exit. -/
def Exits (f : FiberId) (x : Exit Value Value) (s : Scene) : Prop :=
  ∃ p, Fits f (s.moment.view f) p ∧ p.standing.exit? = some x

theorem Ready.unique (h : s.Ready f stand) (h' : s.Ready f stand') : stand' = stand := by
  obtain ⟨p, hp, hready⟩ := h
  obtain ⟨q, hq, hready'⟩ := h'
  exact Standing.ready.inj ((hq.ready_unique hp hready').symm.trans hready)

theorem Occurs.moves_play (h : s.Occurs) (hp : Fits f (s.moment.view f) p) (stroke : Stroke) :
    ∃ es q, Moves p es q ∧ Fits f ((s.play stroke).moment.view f) q := by
  obtain ⟨es, htransitions⟩ := leadsTo_play h.timersQuiet stroke
  obtain ⟨q, hmoves, hq⟩ := htransitions.fits hp
  exact ⟨_, q, hmoves, hq⟩

/-! ## The last step -/

/-- **A fiber that has ended keeps its exit.** -/
theorem Occurs.exits_play (h : s.Occurs) (hexits : s.Exits f x) (stroke : Stroke) : (s.play stroke).Exits f x := by
  obtain ⟨p, hp, hexit⟩ := hexits
  obtain ⟨es, q, hmoves, hq⟩ := h.moves_play hp stroke
  exact ⟨q, hq, hmoves.exit?_eq hexit⟩

theorem Occurs.exits_after (h : s.Occurs) (hexits : s.Exits f x) (strokes : List Stroke) :
    (s.after strokes).Exits f x := by
  induction strokes generalizing s with
  | nil => exact hexits
  | cons stroke rest ih => exact ih (h.after [stroke]) (h.exits_play hexits stroke)

theorem Exits.done (h : s.Exits f x) : s.moment.world.phase? f = some .done := by
  obtain ⟨p, hp, hexit⟩ := h
  rw [hp.phase?_eq]
  cases hstanding : p.standing with
  | exiting | done => rfl
  | _ =>
    rw [hstanding] at hexit
    cases hexit

/-- A fiber that is done has ended with an exit. -/
theorem Occurs.exits_of_done (h : s.Occurs) (hdone : s.moment.world.phase? f = some .done) : ∃ x, s.Exits f x := by
  rcases h.absent_or_fits f with habsent | ⟨p, hp⟩
  · have hnone : s.moment.world.fiber? f = none := World.fiber?_of_record_none habsent.record
    rw [World.phase?, hnone] at hdone
    cases hdone
  · have hphase : p.standing.phase = .done := Option.some.inj (hp.phase?_eq.symm.trans hdone)
    cases hstanding : p.standing with
    | exiting x | done x => exact ⟨x, p, hp, congrArg Standing.exit? hstanding⟩
    | _ =>
      rw [hstanding] at hphase
      cases hphase

/-- A fiber whose exit comes next is about to tell it. -/
theorem play_of_exit (hp : Fits f (s.moment.view f) p) (ha : s.moment.activity = .running f (left + 1) stand)
    (hdeed : stand.deed = .exit x) :
    (s.play .next).moment = ⟨s.moment.world.markDone f x, .exiting f x p.hook⟩ := by
  obtain ⟨⟨w, a⟩, kept⟩ := s
  cases ha
  rw [Moment.view_self rfl] at hp
  simp only [play, Moment.next, World.act, hdeed, hp.hook_of_running]

/-- A fiber whose exit comes next ends with it. -/
theorem Occurs.exits_step (h : s.Occurs) (ha : s.moment.activity = .running f (left + 1) stand)
    (hdeed : stand.deed = .exit x) : (s.play .next).Exits f x := by
  obtain ⟨p, hp⟩ := h.fits_of_activity (by rw [ha]; rfl)
  have hmoment := play_of_exit hp ha hdeed
  obtain ⟨⟨w, a⟩, kept⟩ := s
  cases ha
  rw [Moment.view_self rfl] at hp
  obtain ⟨q, hmoves, hq⟩ := hp.exit hdeed
  refine ⟨q, ?_, ?_⟩
  · rw [← Moment.view_self rfl] at hq
    rw [hmoment]
    exact hq
  · cases hmoves.one_eq
    rfl

/-- A fiber that has ended takes no step. -/
theorem Exits.not_step (h : s.Exits f x) (stroke : Stroke) : s.stepper? stroke ≠ some f := by
  intro hstep
  obtain ⟨rfl, left, stand, ha⟩ := of_stepper? hstep
  obtain ⟨p, hp, hexit⟩ := h
  rw [hp.ready_of_running ha] at hexit
  cases hexit

theorem Exits.not_ready (h : s.Exits f x) : ¬ s.Ready f stand := by
  rintro ⟨q, hq, hready⟩
  obtain ⟨p, hp, hexit⟩ := h
  rw [hq.ready_unique hp hready] at hexit
  cases hexit

end Scene

/-! ## The first step -/

section First

variable {f : FiberId} {w v : World} {home : LoopName} {a : Activity} {m m' : Moment} {p q : Place} {es : List Event}
  {root : Effect}

theorem Fits.fresh_of_task (h : Fits f (w.view f a) p) (htask : .task (.start f) ∈ (w.loopAt home).inbox) :
    ∃ root, p.standing = .fresh root := by
  have hheld : Held f p.epoch p.hook p.standing (w.tokens f) a := h.held
  have hmem := World.mem_tokens_of_loopAt htask rfl
  rcases hheld.tokens_cases with hnil | ⟨t, hone⟩
  · rw [hnil] at hmem
    cases hmem
  · rw [hone] at hmem hheld
    cases List.mem_singleton.1 hmem
    exact hheld.of_start.1

/-- While the task waits the fiber is as fresh as it was. -/
theorem Moves.fresh_of_task (h : Moves p es q) (hp : p.standing = .fresh root) (hq : Fits f (w.view f a) q)
    (htask : .task (.start f) ∈ (w.loopAt home).inbox) : q.standing = .fresh root := by
  obtain ⟨root', hroot⟩ := hq.fresh_of_task htask
  cases hp.symm.trans (h.fresh_of_fresh hroot)
  exact hroot

/-- A fiber whose first task is taken begins with its root. -/
theorem Fits.begins (hp : Fits f (v.view f .idle) p) (hfresh : p.standing = .fresh root) :
    (v.dropMessage.takeUp (.task (.start f))).activity = .running f v.dropMessage.budget ⟨{}, .eval root⟩ := by
  have hphase : (v.dropMessage.fiber? f).map Fiber.phase = some (.created root) :=
    hp.phase?_eq.trans (congrArg some (congrArg Standing.phase hfresh))
  simp only [World.takeUp, hphase]

/-- The first task of a fiber goes on waiting, or the fiber begins with its root. -/
theorem Turn.starts (hturn : Turn m m') (hp : Fits f (m.view f) p) (hfresh : p.standing = .fresh root)
    (hwaits : .task (.start f) ∈ (m.world.loopAt home).inbox) :
    .task (.start f) ∈ (m'.world.loopAt home).inbox ∨ ∃ left, m'.activity = .running f left ⟨{}, .eval root⟩ := by
  have hheld : Held f p.epoch p.hook p.standing (m.world.tokens f) (m.activity.of f) := hp.held
  have hidle : m.activity.of f = .idle := by
    generalize m.world.tokens f = tokens at hheld
    generalize m.activity.of f = a at hheld
    rw [hfresh] at hheld
    cases hheld
    rfl
  cases hturn with
  | go hspares =>
    have hother : m.activity.fiber? ≠ some f := fun hactive => by
      rw [Activity.of_self hactive] at hidle
      rw [hidle] at hactive
      cases hactive
    exact Or.inl (((hspares f hother).grown.loopAt home).subset hwaits)
  | switch w => exact Or.inl ((World.loopAt_switch home w).symm ▸ hwaits)
  | @take w v message rest hleads hspares hinbox =>
    by_cases hmessage : message = .task (.start f)
    · subst hmessage
      obtain ⟨es', htransitions⟩ := hleads
      obtain ⟨r, hmoves, hr⟩ := htransitions.fits hp
      have hstart : .task (.start f) ∈ (v.loopAt v.here).inbox := by
        rw [World.loopAt_here, hinbox]
        exact List.mem_cons_self
      exact Or.inr ⟨_, hr.begins (hmoves.fresh_of_task hfresh hr hstart)⟩
    · have hv := ((hspares f).grown.loopAt home).subset hwaits
      exact Or.inl (((World.Extends.takeUp message _).loopAt home).subset (World.mem_dropMessage hv hinbox hmessage))

/-- A fiber that has not begun goes on waiting, or begins with its root. -/
theorem Turn.begins (hturn : Turn m m') (hp : Fits f (m.view f) p) (hfresh : p.standing = .fresh root)
    (hmoves : Moves p es q) (hq : Fits f (m'.view f) q) :
    q.standing = .fresh root ∨ q.standing = .ready ⟨{}, .eval root⟩ := by
  have htokens : m.world.tokens f = [.start f] := by
    have hheld : Held f p.epoch p.hook p.standing (m.world.tokens f) (m.activity.of f) := hp.held
    generalize m.world.tokens f = tokens at hheld
    generalize m.activity.of f = a at hheld
    rw [hfresh] at hheld
    cases hheld
    rfl
  obtain ⟨home, hwaits⟩ := World.loopAt_of_mem_tokens (t := .start f) (htokens ▸ List.mem_singleton_self _)
  rcases hturn.starts hp hfresh hwaits with hstill | ⟨left, hbegins⟩
  · exact Or.inl (hmoves.fresh_of_task hfresh hq hstill)
  · exact Or.inr (hq.ready_of_running hbegins)

end First

/-- **A fiber that has not begun goes on waiting, or begins with its root.** -/
theorem Scene.Occurs.begins_play {s : Scene} {f : FiberId} {p : Place} {root : Effect} (h : s.Occurs)
    (hp : Fits f (s.moment.view f) p) (hfresh : p.standing = .fresh root) (stroke : Stroke) :
    ∃ q, Fits f ((s.play stroke).moment.view f) q ∧
      (q.standing = .fresh root ∨ q.standing = .ready ⟨{}, .eval root⟩) := by
  obtain ⟨es, q, hmoves, hq⟩ := h.moves_play hp stroke
  exact ⟨q, hq, (h.turn stroke).begins hp hfresh hmoves hq⟩

end FiberLoop
