import FiberLoop.Proofs.Runtime.Scenes

/-!
# Scenarios and calls from outside

What the loop does in a pass, in a round, and until it comes to rest is played by strokes, and so are the operations
of a scenario and the calls from outside. So whatever is shown of all runs holds between any two operations of
every session.

The main results of this module are `ScenarioOp.carryOut_plays` and `Outside.perform_plays`.
-/

namespace FiberLoop

/-- Between two tasks some strokes lead from one world to another one, if the `known` descriptions are kept. -/
def Plays (known : List Effect) (w v : World) : Prop :=
  ∀ kept : List Effect, (∀ e ∈ known, e ∈ kept) → ∃ strokes more,
    Scene.after ⟨⟨w, .idle⟩, kept⟩ strokes = ⟨⟨v, .idle⟩, kept ++ more⟩

/-- The next moments, one after the other. -/
theorem Scene.after_next (n : Nat) (s : Scene) :
    s.after (List.replicate n .next) = { s with moment := Moment.after n s.moment } := by
  induction n generalizing s with
  | zero => rfl
  | succ n ih => exact ih _

namespace Plays

variable {known : List Effect} {u v w : World}

theorem refl (w : World) : Plays known w w := fun kept _ => ⟨[], [], by rw [List.append_nil]; rfl⟩

theorem trans (h : Plays known u v) (h' : Plays known v w) : Plays known u w := by
  intro kept hkept
  obtain ⟨strokes, more, hafter⟩ := h kept hkept
  obtain ⟨strokes', more', hafter'⟩ := h' (kept ++ more) fun e he => List.mem_append_left more (hkept e he)
  refine ⟨strokes ++ strokes', more ++ more', ?_⟩
  rw [Scene.after_append, hafter, hafter', List.append_assoc]

/-- A single stroke after which nothing more is kept. -/
theorem single (stroke : Stroke)
    (h : ∀ kept, (∀ e ∈ known, e ∈ kept) → Scene.play ⟨⟨w, .idle⟩, kept⟩ stroke = ⟨⟨v, .idle⟩, kept⟩) :
    Plays known w v := fun kept hkept => ⟨[stroke], [], by rw [List.append_nil]; exact h kept hkept⟩

/-- A description is kept, and what can be played then can be played. -/
theorem keeping {d : Demand} {e : Effect} (hd : ∀ kept, (d.act kept).run u = (.ok [e], w))
    (h : Plays (e :: known) w v) : Plays known u v := by
  intro kept hkept
  obtain ⟨strokes, more, hafter⟩ := h (kept ++ [e]) fun e' he' => by
    rcases List.mem_cons.1 he' with rfl | he'
    · exact List.mem_append_right kept List.mem_cons_self
    · exact List.mem_append_left _ (hkept e' he')
  refine ⟨.demand d :: strokes, e :: more, ?_⟩
  rw [Scene.after_cons, Scene.play, hd]
  rw [List.append_cons]
  exact hafter

theorem scenario (op : ScenarioOp) (w : World) : Plays known w (op.perform.run w).2 := by
  refine single (.demand (.scenario op)) fun kept _ => ?_
  simp only [Scene.play, Demand.act, Act.run_bind]
  cases op.perform.run w with
  | mk result v =>
    cases result with
    | ok answer => exact congrArg (Scene.mk _) (List.append_nil kept)
    | error d => rfl

theorem switch (w : World) : Plays known w w.switch := single .switch fun _ _ => rfl

theorem clock (w : World) (time : Nat) : Plays known w { w with clock := time } :=
  single (.clock time) fun _ _ => rfl

theorem takeLog (w : World) : Plays known w w.takeLog.2 :=
  single (.demand .takeLog) fun kept _ => congrArg (Scene.mk _) (List.append_nil kept)

theorem schedule (delay : Nat) (w : World) : Plays known w (w.schedule delay (.actions [] .empty)).2 :=
  single (.demand (.schedule delay)) fun kept _ => congrArg (Scene.mk _) (List.append_nil kept)

/-! ## Passes, rounds and rests -/

theorem pass (w : World) : Plays known w w.pass := by
  intro kept _
  obtain ⟨n, hn⟩ := Moment.pass_of_next w
  refine ⟨List.replicate n .next, [], ?_⟩
  rw [Scene.after_next, hn, List.append_nil]

theorem passes (n : Nat) (w : World) : Plays known w (w.passes n) := by
  induction n generalizing w with
  | zero => exact single .fire fun _ _ => rfl
  | succ n ih => exact (pass w).trans (ih _)

theorem rounds (n : Nat) (w : World) : Plays known w (w.rounds n) := by
  induction n generalizing w with
  | zero => exact refl w
  | succ n ih => exact (passes _ w).trans (ih _)

theorem settleWithin (n : Nat) (quiet : Bool) (w : World) : Plays known w (w.settleWithin n quiet).2 := by
  induction n generalizing quiet w with
  | zero => exact refl w
  | succ n ih =>
    have hround : Plays known w w.round := passes _ w
    unfold World.settleWithin
    dsimp only
    split
    · exact hround
    · exact hround.trans (ih _ _)

theorem comeToRest (w : World) : Plays known w w.comeToRest.2 := settleWithin _ _ w

theorem restEach (n : Nat) (w : World) : Plays known w (w.restEach n).2 := by
  induction n generalizing w with
  | zero => exact refl w
  | succ n ih =>
    have hrest : Plays known w w.tick.comeToRest.2 := (clock w (w.clock + 1)).trans (comeToRest w.tick)
    unfold World.restEach
    split
    · rename_i heq
      rw [heq] at hrest
      exact hrest.trans (ih _)
    · rename_i heq
      rw [heq] at hrest
      exact hrest

theorem advance (milliseconds : Nat) (w : World) : Plays known w (w.advance milliseconds).2 := by
  have hrest : Plays known w w.comeToRest.2 := comeToRest w
  unfold World.advance
  split
  · rename_i heq
    rw [heq] at hrest
    exact hrest.trans (restEach milliseconds _)
  · rename_i heq
    rw [heq] at hrest
    exact hrest

/-! ## Calls from outside -/

theorem passBoth (w : World) : Plays known w w.passBoth :=
  ((pass w).trans (switch _)).trans ((pass _).trans (switch _))

theorem passTo (limit : Nat) (finished : World → Bool) (w : World) :
    Plays known w (w.passTo limit finished) := by
  induction limit generalizing w with
  | zero => exact refl w
  | succ limit ih =>
    unfold World.passTo
    split
    · exact refl w
    · split
      · split
        · exact refl w
        · exact ((clock w _).trans (passBoth _)).trans (ih _)
      · exact (passBoth w).trans (ih _)

theorem restBoth (n : Nat) (w : World) : Plays known w (w.restBoth n) := by
  induction n generalizing w with
  | zero => exact refl w
  | succ n ih =>
    have hboth : Plays known w w.comeToRest.2.switch.comeToRest.2.switch :=
      ((comeToRest w).trans (switch _)).trans ((comeToRest _).trans (switch _))
    unfold World.restBoth
    dsimp only
    split
    · exact hboth.trans (ih _)
    · exact hboth

/-- A description that is kept is kept in some place. -/
theorem place_of_mem {root : Effect} {kept : List Effect} (h : root ∈ kept) :
    ∃ place : Nat, kept[place]? = some root :=
  List.getElem?_of_mem h

theorem launchDelivering {root : Effect} (h : root ∈ known) (w : World) :
    Plays known w (w.launchDelivering root).2.2 := by
  intro kept hkept
  obtain ⟨place, hplace⟩ := place_of_mem (hkept root h)
  refine ⟨[.demand (.deliver place)], [], ?_⟩
  rw [Scene.after_cons, Scene.after_nil, Scene.play]
  simp only [Demand.act, hplace]
  rfl

theorem fork {root : Effect} (h : root ∈ known) (w : World) : Plays known w (w.fork root).2 := by
  intro kept hkept
  obtain ⟨place, hplace⟩ := place_of_mem (hkept root h)
  refine ⟨[.demand (.fork place)], [], ?_⟩
  rw [Scene.after_cons, Scene.after_nil, Scene.play]
  simp only [Demand.act, hplace]
  rfl

theorem blockOn {root : Effect} (h : root ∈ known) (w : World) : Plays known w (w.blockOn root).2 := by
  exact (launchDelivering h w).trans
    (passTo World.patience (fun v => (v.outbox? (w.launchDelivering root).1).isSome) _)

end Plays

/-- **An operation of a scenario is played by strokes.** -/
theorem ScenarioOp.carryOut_plays (known : List Effect) (op : ScenarioOp) (w : World) :
    Plays known w (op.carryOut w).2 := by
  have hperform : Plays known w (op.perform.run w).2 := Plays.scenario op w
  unfold ScenarioOp.carryOut
  split
  · exact Plays.comeToRest w
  · exact Plays.rounds _ w
  · exact Plays.advance _ w
  · split
    · rename_i heq
      rw [heq] at hperform
      exact hperform
    · rename_i heq
      rw [heq] at hperform
      exact hperform

namespace Outside

variable {known : List Effect} {w : World}

theorem withEffect_plays (body : Program) {use : Effect → World → OutsideAnswer × World}
    (huse : ∀ root v, Plays (root :: known) v (use root v).2) (w : World) :
    Plays known w (withEffect body w use).2 := by
  unfold withEffect
  cases hrun : (body.build .empty).run w with
  | mk result v =>
    cases result with
    | ok root =>
      refine Plays.keeping (d := .build body) (e := root) (w := v) (fun kept => ?_) (huse root v)
      simp only [Demand.act, Act.run_bind, hrun]
      rfl
    | error d =>
      refine Plays.single (.demand (.build body)) fun kept _ => ?_
      simp only [Scene.play, Demand.act, Act.run_bind, hrun]

theorem forkJoin_plays {root : Effect} (h : root ∈ known) (w : World) : Plays known w (forkJoin root w).2 := by
  have hjoin (f : FiberId) (v : World) : Plays known v (v.blockOn (.join f)).2 :=
    .keeping (d := .join f) (fun _ => rfl) (Plays.blockOn List.mem_cons_self v)
  have hawait (f : FiberId) (v : World) : Plays known v (v.blockOn (Effect.awaitExit f).convert).2 :=
    .keeping (d := .await f) (fun _ => rfl) (Plays.blockOn List.mem_cons_self v)
  exact ((Plays.fork h w).trans (hjoin _ _)).trans (hawait _ _)

theorem tellFromLoop_plays (told : OutsideAnswer) (w : World) : Plays known w (tellFromLoop told w).2 :=
  Plays.scenario (.dispatch []) w

theorem act_plays (op : OutsideOp) (w : World) : Plays known w (act op w).2 := by
  have hblock (root : Effect) (v : World) : Plays (root :: known) v (v.blockOn root).2 :=
    Plays.blockOn List.mem_cons_self v
  cases op with
  | blockOn name body | runFuture name body | runFutureTotal name body => exact withEffect_plays body hblock w
  | runCallback name body =>
    exact withEffect_plays body
      (fun root v => (Plays.launchDelivering List.mem_cons_self v).trans (Plays.passTo _ _ _)) w
  | blockOnTwice body =>
    exact withEffect_plays body (fun root v => (hblock root v).trans (hblock root _)) w
  | forkJoin body => exact withEffect_plays body (fun root v => forkJoin_plays List.mem_cons_self v) w
  | blockOnFromLoop body => exact withEffect_plays body (fun _ v => tellFromLoop_plays _ v) w
  | loopThreadName => exact tellFromLoop_plays _ w
  | after delay => exact Plays.schedule delay w
  | shutdown => exact (Plays.scenario .shutdown w).trans (Plays.passTo _ _ _)
  | config name | isLoopThread | isShutDown | dispatched | debug => exact Plays.refl w

theorem onLoop_plays {α : Type} (name : LoopName) {use : World → α × World}
    (huse : ∀ v, Plays known v (use v).2) (w : World) : Plays known w (onLoop name use w).2 := by
  unfold onLoop
  split
  · exact huse w
  · exact ((Plays.switch w).trans (huse _)).trans (Plays.switch _)

/-- **A call from outside is played by strokes.** -/
theorem perform_plays (op : OutsideOp) (w : World) : Plays known w (perform op w).2 := by
  have hact : Plays known w (onLoop (loopName op) (act op) w).2 := onLoop_plays _ (act_plays op) w
  exact (hact.trans (Plays.restBoth _ _)).trans (Plays.takeLog _)

end Outside

/-! ## Transitions between two tasks -/

/-- Between two tasks one world comes out of another one. -/
def Between (w v : World) : Prop := w.TimersQuiet → LeadsTo ⟨w, .idle⟩ ⟨v, .idle⟩

namespace Between

variable {u v w : World}

theorem trans (h : Between u v) (h' : Between v w) : Between u w := by
  intro hquiet
  have hfirst := h hquiet
  exact hfirst.trans (h' (hfirst.timersQuiet hquiet))

theorem requested (h : Requested w v) : Between w v := fun _ => .requested h .idle

/-- What is played by strokes comes about by transitions. -/
theorem plays (h : Plays [] w v) : Between w v := by
  intro hquiet
  obtain ⟨strokes, more, hafter⟩ := h [] nofun
  have hleads := Scene.leadsTo_after (s := ⟨⟨w, .idle⟩, []⟩) hquiet strokes
  rwa [hafter] at hleads

theorem pass (w : World) : Between w w.pass := plays (Plays.pass w)

end Between

/-- A moment between two tasks of a run stays one whatever the loops and the callers do next. -/
theorem Reachable.between {es : Chronicle} {v w : World} (h : Reachable es ⟨w, .idle⟩) (hbetween : Between w v) :
    ∃ es', Reachable (es ++ es') ⟨v, .idle⟩ := by
  obtain ⟨es', htransitions⟩ := hbetween h.timersQuiet
  exact ⟨es', h.append htransitions⟩

end FiberLoop
