import FiberLoop.Outside
import FiberLoop.Proofs.Runtime.Coverage

/-!
# Runs, stroke by stroke

A run is determined by the order of its strokes: when the loop does its next small thing, when the loops change
places, when the clock moves, and what somebody who is no fiber asks for at which moment. `Scene.after` plays
strokes one after the other.

Every operation of a scenario and every call from outside is played by some strokes (`ScenarioOp.carryOut_plays`,
`Outside.perform_plays`), so what holds of all lists of strokes holds of every session.
-/

namespace FiberLoop

/-- What somebody who is no fiber asks for. -/
inductive Demand where
  /-- An operation of a scenario that does not let the loop go on. -/
  | scenario (op : ScenarioOp)
  | interrupt (fiber : FiberId)
  /-- Build a program and keep its description. -/
  | build (body : Program)
  /-- Keep the description of a join. -/
  | join (fiber : FiberId)
  /-- Keep the description of waiting for an exit. -/
  | await (fiber : FiberId)
  /-- Start the description kept in a place; its exit goes to a new outbox. -/
  | deliver (place : Nat)
  /-- Fork the description kept in a place. -/
  | fork (place : Nat)
  /-- Queue a task that does nothing after a delay. -/
  | schedule (delay : Nat)
  | takeLog

/-- Do what is asked for, given the descriptions that are kept; the answer is those that are kept in addition. -/
def Demand.act (kept : List Effect) : Demand → Act (List Effect)
  | .scenario op => do
    let _ ← op.perform
    return []
  | .interrupt f => do
    Act.update (World.interrupt f)
    return []
  | .build body => return [← body.build .empty]
  | .join f => return [.join f]
  | .await f => return [(Effect.awaitExit f).convert]
  | .deliver place => do
    if let some root := kept[place]? then
      let outbox ← Act.updateGet World.makeOutbox
      let _ ← Act.updateGet (World.launch root (.deliver outbox) none)
    return []
  | .fork place => do
    if let some root := kept[place]? then
      let _ ← Act.updateGet (World.fork root)
    return []
  | .schedule delay => do
    let _ ← Act.updateGet (World.schedule delay (.actions [] .empty))
    return []
  | .takeLog => do
    let _ ← Act.updateGet World.takeLog
    return []

/-- One thing that happens in a run. -/
inductive Stroke where
  /-- The loop goes on to its next moment. -/
  | next
  /-- Between two tasks the timers run that are due. -/
  | fire
  /-- Between two tasks the loops change places. -/
  | switch
  /-- Between two tasks the clock is set. -/
  | clock (time : Nat)
  /-- At any moment somebody asks for something. -/
  | demand (demand : Demand)

/-- A moment of a run, and the descriptions that callers from outside keep. -/
structure Scene where
  moment : Moment
  kept : List Effect := []

namespace Scene

/-- Change the world if no task is running. -/
def between (s : Scene) (change : World → World) : Scene :=
  match s.moment.activity with
  | .idle => { s with moment := ⟨change s.moment.world, .idle⟩ }
  | _ => s

/-- Play one stroke. -/
def play (s : Scene) : Stroke → Scene
  | .next => { s with moment := s.moment.next }
  | .fire => s.between fun w => if w.loop.stopped then w else w.fireDue
  | .switch => s.between World.switch
  | .clock time => s.between fun w => { w with clock := time }
  | .demand d =>
    match (d.act s.kept).run s.moment.world with
    | (.ok more, w) => ⟨⟨w, s.moment.activity⟩, s.kept ++ more⟩
    | (.error _, w) => ⟨⟨w, s.moment.activity⟩, s.kept⟩

/-- Play strokes in order. -/
def after (s : Scene) (strokes : List Stroke) : Scene := strokes.foldl play s

@[simp] theorem after_nil (s : Scene) : s.after [] = s := rfl

@[simp] theorem after_cons (s : Scene) (stroke : Stroke) (rest : List Stroke) :
    s.after (stroke :: rest) = (s.play stroke).after rest := rfl

theorem after_append (s : Scene) (strokes more : List Stroke) :
    s.after (strokes ++ more) = (s.after strokes).after more := List.foldl_append ..

/-- The scene in which a session starts. -/
def initial (config : Config) (definitions : List (Name × Definition)) : Scene :=
  ⟨⟨Scenario.initial config definitions, .idle⟩, []⟩

end Scene

/-! ## Demands are closures -/

/-- Whether a demand hands out no deferred, semaphore or queue. -/
def Demand.isOrdinary : Demand → Bool
  | .scenario op => op.isOrdinary
  | _ => true

namespace Tracks

variable {V : Scope} {J : Judgement} [tracks : TracksReading V J]

include tracks

theorem makeOutbox : J Nat (Act.updateGet World.makeOutbox) fun _ => True :=
  session (fun s => (s.outboxes.size, { s with outboxes := s.outboxes.push none })) (fun _ => rfl) fun _ hs =>
    ⟨⟨hs.globals, hs.kept, hs.cancelers⟩, trivial⟩

theorem takeLog : J (List LogEntry) (Act.updateGet World.takeLog) fun _ => True :=
  session (fun s => (s.log.reverse, { s with log := [] })) (fun _ => rfl) fun _ hs =>
    ⟨⟨hs.globals, hs.kept, hs.cancelers⟩, trivial⟩

/-- What is asked for changes the world as closures do, and only descriptions in scope are kept. -/
theorem demand {kept : List Effect} (hkept : ∀ e ∈ kept, e.In V) {d : Demand} (hd : d.isOrdinary = true) :
    J (List Effect) (d.act kept) fun more => ∀ e ∈ more, e.In V := by
  have hnone : ∀ e ∈ ([] : List Effect), e.In V := nofun
  cases d with
  | scenario op => exact bind (scenario hd) fun _ _ => pure hnone
  | interrupt f => exact bind (interrupt f) fun _ _ => pure hnone
  | build body =>
    exact bind (build Env.in_empty body) fun _ he => pure (List.forall_mem_singleton.2 he)
  | join f | await f => exact pure (List.forall_mem_singleton.2 Scope.nothing)
  | deliver place =>
    cases hroot : kept[place]? with
    | none =>
      simp only [Demand.act, hroot]
      exact pure hnone
    | some root =>
      simp only [Demand.act, hroot]
      exact bind makeOutbox fun outbox _ =>
        bind (launch (hkept root (List.mem_of_getElem? hroot)) (.deliver outbox) rfl) fun _ _ => pure hnone
  | fork place =>
    cases hroot : kept[place]? with
    | none =>
      simp only [Demand.act, hroot]
      exact pure hnone
    | some root =>
      simp only [Demand.act, hroot]
      exact bind (launch (hkept root (List.mem_of_getElem? hroot)) .publish rfl) fun _ _ => pure hnone
  | schedule delay => exact bind (schedule delay rfl Env.in_empty) fun _ _ => pure hnone
  | takeLog => exact bind takeLog fun _ _ => pure hnone

end Tracks

theorem TracksAll.demand {V : Scope} {J : Judgement} [TracksMaking V J] (kept : List Effect) (d : Demand) :
    J (List Effect) (d.act kept) fun _ => True := by
  by_cases hd : d.isOrdinary = true
  · exact Tracks.mono (Tracks.demand (fun _ _ d _ => everything J d) hd) fun _ _ => trivial
  · cases d with
    | scenario op => exact Tracks.bind (TracksAll.scenario op) fun _ _ => Tracks.pure trivial
    | _ => exact absurd rfl hd

/-! ## Strokes are transitions -/

namespace Scene

theorem leadsTo_play {s : Scene} (h : s.moment.world.TimersQuiet) (stroke : Stroke) :
    LeadsTo s.moment (s.play stroke).moment := by
  obtain ⟨⟨w, a⟩, kept⟩ := s
  cases stroke with
  | next => exact .next h
  | fire =>
    cases a with
    | idle =>
      simp only [play, between]
      split
      · exact .refl _
      · exact .fireDue h
    | _ => exact .refl _
  | switch =>
    cases a with
    | idle => exact .single (.switch w)
    | _ => exact .refl _
  | clock time =>
    cases a with
    | idle => exact .single (.tend ⟨rfl, Or.inl rfl, h.loop.timers⟩ time)
    | _ => exact .refl _
  | demand d =>
    have hrequested := (TracksAll.demand (J := Keeping Requested) kept d).keeps w
    simp only [play]
    cases hrun : (d.act kept).run w with
    | mk result v =>
      rw [hrun] at hrequested
      cases result with
      | ok more => exact .requested hrequested a
      | error defect => exact .requested hrequested a

theorem leadsTo_after {s : Scene} (h : s.moment.world.TimersQuiet) (strokes : List Stroke) :
    LeadsTo s.moment (s.after strokes).moment := by
  induction strokes generalizing s with
  | nil => exact .refl _
  | cons stroke rest ih =>
    have hplay := leadsTo_play h stroke
    exact hplay.trans (ih (hplay.timersQuiet h))

/-- A scene that some run comes to. -/
def Occurs (s : Scene) : Prop := ∃ config definitions strokes, s = (initial config definitions).after strokes

theorem Occurs.initial (config : Config) (definitions : List (Name × Definition)) :
    (initial config definitions).Occurs := ⟨config, definitions, [], rfl⟩

theorem Occurs.after {s : Scene} (h : s.Occurs) (strokes : List Stroke) : (s.after strokes).Occurs := by
  obtain ⟨config, definitions, start, rfl⟩ := h
  exact ⟨config, definitions, start ++ strokes, (after_append _ start strokes).symm⟩

/-- **What a run comes to is reachable.** -/
theorem Occurs.reachable {s : Scene} (h : s.Occurs) : ∃ es, Reachable es s.moment := by
  obtain ⟨config, definitions, strokes, rfl⟩ := h
  have hinitial := Reachable.initial config definitions
  obtain ⟨es, htransitions⟩ := leadsTo_after (s := .initial config definitions) hinitial.timersQuiet strokes
  exact ⟨_, hinitial.append htransitions⟩

theorem Occurs.timersQuiet {s : Scene} (h : s.Occurs) : s.moment.world.TimersQuiet := by
  obtain ⟨es, hreachable⟩ := h.reachable
  exact hreachable.timersQuiet

/-- A fiber has not been launched yet, or it has a place. -/
theorem Occurs.absent_or_fits {s : Scene} (h : s.Occurs) (f : FiberId) :
    Absent f (s.moment.view f) ∨ ∃ p, Fits f (s.moment.view f) p := by
  obtain ⟨es, hreachable⟩ := h.reachable
  exact (hreachable.accounted f).cases.imp And.right fun ⟨p, _, hp⟩ => ⟨p, hp⟩

end Scene

end FiberLoop
