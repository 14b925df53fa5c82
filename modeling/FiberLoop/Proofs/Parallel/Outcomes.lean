import FiberLoop.Proofs.Parallel.Tandems

/-!
# What becomes of a fiber that waits for two others

The fiber is given one exit, with which it goes on (`Tandem.Resumed`), and then the race or pairing is over for good
(`Tandem.Over`). The exit that ends it comes after the interruption of the other fiber (`Tandem.Runs.stops`). A fiber
that is interrupted while it is parked outside all regions leaves with the interruption, and both others are
interrupted, whatever they do meanwhile (`Tandem.Runs.leaves_of_flagged`).
-/

namespace FiberLoop

open World

namespace Tandem

variable (t : Tandem)

/-- The fiber is about to cancel what it waited for. -/
def Unwinds (s : Scene) : Prop :=
  (∃ home, .task (.unwind t.fiber t.canceler t.run) ∈ (s.moment.world.loopAt home).inbox) ∨
    ∃ left, s.moment.activity = .canceling t.fiber left t.run t.canceler

/-- The fiber cancels what it waited for: both others are interrupted, and it goes on with the interruption. -/
def Cancels (s : Scene) : Prop :=
  (∀ side, (s.play .next).moment.world.flagged (t.side side) = true) ∧
    ∃ left, s.moment.activity = .canceling t.fiber left t.run t.canceler ∧
      (s.play .next).moment.activity = .running t.fiber left ⟨t.run, .cause .interrupted⟩

/-- The fiber leaves with the interruption. -/
structure Leaves (s : Scene) : Prop where
  /-- The fiber is about to cancel what it waited for until it does so. -/
  cancels : ∀ strokes, t.Unwinds (s.after strokes) ∨
    ∃ before after, strokes = before ++ .next :: after ∧ t.Cancels (s.after before)
  /-- The loop on which the fiber lives comes to that. -/
  due : ∀ strokes, .task (.unwind t.fiber t.canceler t.run) ∈ (s.after strokes).moment.world.loop.inbox →
    (s.after strokes).ComesTo fun m => ∃ left, m.activity = .canceling t.fiber left t.run t.canceler

/-- The fiber has been given an exit, with which it goes on. -/
structure Resumed (x : Exit Value Value) (s : Scene) : Prop where
  /-- The task with which the fiber goes on is all that does. -/
  task : s.moment.world.tokens t.fiber = [.resume t.fiber t.run (.ofExit x)]
  taken : ∀ strokes, (∃ home, .task (.resume t.fiber t.run (.ofExit x)) ∈ ((s.after strokes).moment.world.loopAt home).inbox) ∨
    ∃ before stroke after left, strokes = before ++ stroke :: after ∧
      ((s.after before).play stroke).moment.activity = .running t.fiber left ⟨t.run, .ofExit x⟩
  due : ∀ strokes, .task (.resume t.fiber t.run (.ofExit x)) ∈ (s.after strokes).moment.world.loop.inbox →
    (s.after strokes).ComesTo fun m => ∃ left, m.activity = .running t.fiber left ⟨t.run, .ofExit x⟩

/-- Nothing more comes of it: the callback is dead, and an exit that is told is ignored. -/
structure Over (s : Scene) : Prop where
  dead : ∀ strokes x, (s.after strokes).moment.world.settle t.callback x = (s.after strokes).moment.world
  ignores : ∀ strokes side x hook, (s.after strokes).moment.activity = .exiting (t.side side) x hook →
    ((s.after strokes).play .next).moment.world = (s.after strokes).moment.world

/-- One of the two fibers tells an exit which ends the waiting: the other one is interrupted and then the exit
delivered. -/
structure Stops (side : Side) (x : Exit Value Value) (s : Scene) : Prop where
  /-- The other one is interrupted before the exit is delivered. -/
  first : ∃ w : World, w.flagged (t.side side.other) = true ∧ (t.Waits s → w.Parked t.callback t.run t.canceler) ∧
    (s.play .next).moment.world = w.settle t.callback x
  interrupted : (s.play .next).moment.world.flagged (t.side side.other) = true
  spares : ∀ g, g ≠ t.side side.other → (s.play .next).moment.world.flagged g = s.moment.world.flagged g
  resumed : t.Waits s → t.Resumed x (s.play .next)
  /-- A fiber that has left is not resumed, nor is anybody else. -/
  left : t.Left s → ∀ g, g ≠ t.side side.other → ∀ a, (s.play .next).moment.world.view g a = s.moment.world.view g a
  ended : t.Over (s.play .next)

/-- How the fiber waits, from the beginning for ever. -/
structure Endures (s : Scene) : Prop where
  /-- As long as neither of the two others has ended, it waits unless it is interrupted. -/
  waits : ∀ strokes, s.Silent t.fibers strokes → t.Waits (s.after strokes) ∨ t.Left (s.after strokes)
  /-- If it is interrupted while it is parked outside all regions it leaves, whatever the two others do. -/
  interrupted : ∀ strokes stroke, (s.after strokes).moment.world.Parked t.callback t.run t.canceler →
    t.run.masks.isInterruptible = true → ((s.after strokes).play stroke).moment.world.flagged t.fiber = true →
      t.Leaves ((s.after strokes).play stroke)

theorem Over.after {t : Tandem} {s : Scene} (h : t.Over s) (strokes : List Stroke) : t.Over (s.after strokes) where
  dead more := by
    rw [← Scene.after_append]
    exact h.dead (strokes ++ more)
  ignores more := by
    rw [← Scene.after_append]
    exact h.ignores (strokes ++ more)

end Tandem

section Outcomes

variable {t : Tandem} {s : Scene} {stroke : Stroke} {strokes : List Stroke} {run : Run} {canceler : Canceler}
  {f g : FiberId} {w w' : World} {side : Side} {x : Exit Value Value} {hook : ExitHook} {callback : Callback}

/-! ## Interrupts and completions -/

namespace World

theorem flagged_interrupt_self (h : (w.record f).isSome = true) : (w.interrupt f).flagged f = true := by
  obtain ⟨r, hr⟩ := Option.isSome_iff_exists.1 h
  obtain ⟨fiber, hfiber, rfl⟩ := fiber?_of_record hr
  have hraised (change : Fiber → Fiber) (hchange : ∀ r, (change r).interruptRequested = true) :
      (w.modifyFiber f change).flagged f = true := by
    rw [flagged, fiber?_modifyFiber_self, hfiber]
    exact hchange fiber
  unfold World.interrupt
  rw [hfiber]
  dsimp only
  split
  · rename_i hflag
    rw [flagged, hfiber]
    exact hflag
  · split
    · split
      · rw [flagged, fiber?_dispatchTo]
        exact hraised _ fun _ => rfl
      · exact hraised _ fun _ => rfl
    · exact hraised _ fun _ => rfl

theorem flagged_congr (h : w'.record f = w.record f) : w'.flagged f = w.flagged f := by
  have hflag (v : World) : v.flagged f = (v.record f).any (·.interruptRequested) := by
    rw [flagged, record]
    cases v.fiber? f <;> rfl
  rw [hflag, hflag, h]

theorem epoch_congr (h : w'.record f = w.record f) : w'.epoch f = w.epoch f := by
  have hepoch (v : World) : v.epoch f = (v.record f).elim 0 (·.epoch) := by
    rw [epoch, record]
    cases v.fiber? f <;> rfl
  rw [hepoch, hepoch, h]

theorem flagged_interrupt_of_ne (h : g ≠ f) (w : World) : (w.interrupt g).flagged f = w.flagged f :=
  flagged_congr (record_interrupt_of_ne h w)

/-- The exit of a fiber that is parked is queued, and its epoch is over. -/
theorem Parked.settle (h : w.Parked callback run canceler) (htokens : w.tokens callback.fiber = [])
    (x : Exit Value Value) :
    (w.settle callback x).tokens callback.fiber = [.resume callback.fiber run (.ofExit x)] ∧
      callback.epoch < (w.settle callback x).epoch callback.fiber := by
  obtain ⟨r, hr, hepoch, hphase⟩ := h
  rw [(settle_of_suspended hr hepoch hphase x).1]
  have hnil : (w.modifyFiber callback.fiber fun r => { r with phase := .running, epoch := r.epoch + 1 }).tokens
      callback.fiber = [] := htokens
  refine ⟨tokens_dispatchTo_of_nil rfl hnil _, ?_⟩
  have hrecord : (w.modifyFiber callback.fiber fun r => { r with phase := .running, epoch := r.epoch + 1 }).record
      callback.fiber = some { r with phase := .running, epoch := r.epoch + 1 } := record_modifyFiber hr fun _ => rfl
  rw [epoch_of_record ((record_dispatchTo _ _ _ _).trans hrecord), ← hepoch]
  exact Nat.lt_succ_self _

theorem settle_of_past (h : callback.epoch < w.epoch callback.fiber) (x : Exit Value Value) : w.settle callback x = w := by
  cases hr : w.record callback.fiber with
  | none => exact (settle_of_absent hr x).1
  | some r =>
    rw [epoch_of_record hr] at h
    exact (settle_of_record_epoch hr (Nat.ne_of_gt h) x).1

end World

namespace Tandem.Runs

/-! ## Interruption -/

/-- Who cancels a wait has both others interrupted. -/
theorem cancels (h : t.Runs s) {left : Nat} (ha : s.moment.activity = .canceling t.fiber left t.run t.canceler) :
    t.Cancels s := by
  have hrecord := h.isSome_record
  have happart := h.apart
  obtain ⟨⟨w, a⟩, kept⟩ := s
  cases ha
  refine ⟨fun side => ?_, left, rfl, rfl⟩
  show ((w.interrupt t.left).interrupt t.right).flagged (t.side side) = true
  cases side with
  | left =>
    rw [Tandem.side, flagged_interrupt_of_ne (Ne.symm happart)]
    exact flagged_interrupt_self (hrecord .left)
  | right =>
    have hright : (w.interrupt t.left).record t.right = w.record t.right := record_interrupt_of_ne happart w
    exact flagged_interrupt_self (hright ▸ hrecord .right)

theorem cancels_after (h : t.Runs s) (hunwinds : t.Unwinds s) (strokes : List Stroke) : t.Unwinds (s.after strokes) ∨
    ∃ before after, strokes = before ++ .next :: after ∧ t.Cancels (s.after before) := by
  induction strokes generalizing s with
  | nil => exact Or.inl hunwinds
  | cons stroke rest ih =>
    have hlater (hnext : t.Unwinds (s.play stroke)) : t.Unwinds (s.after (stroke :: rest)) ∨
        ∃ before after, stroke :: rest = before ++ .next :: after ∧ t.Cancels (s.after before) := by
      refine (ih (h.play stroke) hnext).imp_right ?_
      rintro ⟨before, after, rfl, hcancels⟩
      exact ⟨stroke :: before, after, rfl, hcancels⟩
    rcases hunwinds with ⟨home, htask⟩ | ⟨left, ha⟩
    · rcases (h.occurs.turn stroke).queued htask (h.occurs.inactive_of_task htask rfl) with hstill | ⟨v, htaken⟩
      · exact hlater (Or.inl ⟨home, hstill⟩)
      · exact hlater (Or.inr ⟨v.budget, congrArg Moment.activity htaken⟩)
    · by_cases hnext : stroke = .next
      · subst hnext
        exact Or.inr ⟨[], rest, rfl, h.cancels ha⟩
      · exact hlater (Or.inr ⟨left, Scene.activity_play ha Activity.noConfusion hnext⟩)

/-- **Who is about to leave does so, whatever the others do meanwhile.** -/
theorem leaves (h : t.Runs s) (hunwinds : t.Unwinds s) : t.Leaves s where
  cancels := h.cancels_after hunwinds
  due strokes htask := by
    obtain ⟨before, after, hinbox⟩ := List.append_of_mem htask
    refine ((h.after strokes).occurs.comesTo hinbox).mono ?_
    rintro m ⟨v, rfl⟩
    exact ⟨v.budget, rfl⟩

/-- **Who is interrupted while it is parked outside all regions leaves with the interruption.** -/
theorem leaves_of_flagged (h : t.Runs s) (hpending : t.Pending s)
    (hparked : s.moment.world.Parked t.callback t.run t.canceler) (hopen : t.run.masks.isInterruptible = true)
    (htells : ∀ side x hook, s.moment.activity = .exiting (t.side side) x hook →
      (s.play .next).moment.world.flagged t.fiber = s.moment.world.flagged t.fiber)
    (hflag : (s.play stroke).moment.world.flagged t.fiber = true) : t.Leaves (s.play stroke) := by
  have hplay := h.play stroke
  have hunflagged {s : Scene} (hs : t.Runs s) (hp : s.moment.world.Parked t.callback t.run t.canceler) :
      s.moment.world.flagged t.fiber = false := by
    obtain ⟨r, hr, -, hphase⟩ := hp
    exact hs.occurs.unflagged_of_asleep ⟨r, hr, rfl, hphase⟩ hopen
  have hstroke : s.ended? stroke ≠ some t.joint := fun hended => by
    obtain ⟨rfl, f, x, hook, hf, ha⟩ := h.tells_of_ended hended
    obtain ⟨side, rfl⟩ := t.mem_fibers.1 hf
    cases hflag.symm.trans ((htells side x hook ha).trans (hunflagged h hparked))
  refine hplay.leaves ?_
  rcases h.occurs.remains_play hpending hparked h.sides_ne_nil hstroke with (hstill | htask) | hcanceling
  · cases hflag.symm.trans (hunflagged hplay hstill)
  · exact Or.inl (loopAt_of_mem_tokens htask)
  · exact Or.inr hcanceling

/-! ## Ends -/

/-- The exits of the two fibers are ignored when the race or pairing has ended. -/
theorem world_play_of_ended (h : t.Runs s) (hclosed : s.moment.world.holder? t.joint = none)
    (ha : s.moment.activity = .exiting (t.side side) x hook) : (s.play .next).moment.world = s.moment.world := by
  have hhook := h.hook_of_exiting ha
  have hsides := h.sides_ne_nil
  obtain ⟨⟨w, a⟩, kept⟩ := s
  cases ha
  cases hjoint : t.joint with
  | race r =>
    rw [hjoint] at hhook hclosed hsides
    subst hhook
    show w.finishRace r side x = w
    cases hrow : w.race? r with
    | none => rw [World.finishRace, hrow]
    | some row =>
      refine finishRace_of_ended hrow ?_ side x
      rwa [World.holder?, hrow] at hclosed
  | pairing p =>
    rw [hjoint] at hhook hclosed hsides
    subst hhook
    show w.finishPairing p side x = w
    cases hrow : w.pairing? p with
    | none => rw [World.finishPairing, hrow]
    | some row =>
      refine finishPairing_of_ended hrow ?_ side x
      rwa [World.holder?, hrow] at hclosed

/-- **When the race or pairing has ended nothing more comes of it.** -/
theorem over_of_closed (h : t.Runs s) (hclosed : s.moment.world.holder? t.joint = none)
    (hpast : t.epoch < s.moment.world.epoch t.fiber) : t.Over s where
  dead := h.occurs.settle_of_past hpast
  ignores strokes _ _ _ ha := (h.after strokes).world_play_of_ended ((h.sameRow_of_ended hclosed strokes).holder?.trans hclosed) ha

/-- The task with which the fiber goes on waits until it is taken. -/
theorem resumed (h : t.Runs s) (htask : s.moment.world.tokens t.fiber = [.resume t.fiber t.run (.ofExit x)]) :
    t.Resumed x s where
  task := htask
  taken strokes := by
    obtain ⟨home, hwaits⟩ := loopAt_of_mem_tokens (htask ▸ List.mem_singleton_self _)
    refine (h.occurs.queued_after hwaits rfl strokes).imp (⟨home, ·⟩) ?_
    rintro ⟨before, stroke, after, hstrokes, -, v, htaken⟩
    exact ⟨before, stroke, after, v.budget, hstrokes, congrArg Moment.activity htaken⟩
  due strokes hwaits := by
    obtain ⟨before, after, hinbox⟩ := List.append_of_mem hwaits
    refine ((h.after strokes).occurs.comesTo hinbox).mono ?_
    rintro m ⟨v, rfl⟩
    exact ⟨v.budget, rfl⟩

/-- The callback is completed in a world in which the fiber that waits is as it was. -/
theorem completes (h : t.Runs s) {w : World} (hrecord : w.record t.fiber = s.moment.world.record t.fiber)
    (htokens : w.tokens t.fiber = s.moment.world.tokens t.fiber) (hholder : w.holder? t.joint = none)
    (hdone : (s.play .next).moment.world = w.settle t.callback x)
    (hwaits : s.moment.world.Parked t.callback t.run t.canceler ∨ t.Left s) :
    (s.moment.world.Parked t.callback t.run t.canceler → t.Resumed x (s.play .next)) ∧
      (t.Left s → (s.play .next).moment.world = w) ∧ t.Over (s.play .next) := by
  have hplay := h.play .next
  have hclosed : (s.play .next).moment.world.holder? t.joint = none := by
    rw [hdone, holder?_congr (congrArg Stores.races (stores_settle ..)) (congrArg Stores.pairings (stores_settle ..))]
    exact hholder
  have hparked (hp : s.moment.world.Parked t.callback t.run t.canceler) : w.Parked t.callback t.run t.canceler := by
    obtain ⟨r, hr, hrest⟩ := hp
    exact ⟨r, hrecord.trans hr, hrest⟩
  have hsettled (hp : s.moment.world.Parked t.callback t.run t.canceler) :=
    (hparked hp).settle (htokens.trans (h.tokens_of_parked hp)) x
  have hpast (hleft : t.Left s) : t.epoch < w.epoch t.fiber := epoch_congr hrecord ▸ hleft.2
  have hsame (hleft : t.Left s) : (s.play .next).moment.world = w :=
    hdone.trans (settle_of_past (hpast hleft : t.callback.epoch < w.epoch t.callback.fiber) x)
  refine ⟨fun hp => hplay.resumed ?_, hsame, hplay.over_of_closed hclosed ?_⟩
  · rw [hdone]
    exact (hsettled hp).1
  · rcases hwaits with hp | hleft
    · rw [hdone]
      exact (hsettled hp).2
    · rw [hsame hleft]
      exact hpast hleft

/-- **The first exit of a race, or the first cause of a pairing, ends it**: the other fiber is interrupted and then the
exit delivered to the fiber that waits. -/
theorem stops (h : t.Runs s) (hpending : t.Pending s)
    (ha : s.moment.activity = .exiting (t.side side) x hook) {w : World} (hends : s.moment.world.Ends t.joint w)
    (hdone : (s.play .next).moment.world = (w.interrupt (t.side side.other)).settle t.callback x) : t.Stops side x s := by
  have hview (g : FiberId) (a : Activity) : w.view g a = s.moment.world.view g a := by
    obtain ⟨races, pairings, rfl⟩ := hends.stores
    rfl
  have hrecord (g : FiberId) : w.record g = s.moment.world.record g := congrArg View.record (hview g .idle)
  have htokens (g : FiberId) : w.tokens g = s.moment.world.tokens g := congrArg View.tokens (hview g .idle)
  have hself : (w.record (t.side side.other)).isSome = true := hrecord _ ▸ h.isSome_record side.other
  have halone := h.alone side.other
  have hwaits : s.moment.world.Parked t.callback t.run t.canceler ∨ t.Left s :=
    (h.waits_of_pending hpending).imp_left fun hw => parked_of_exiting hw ha
  have hholder : (w.interrupt (t.side side.other)).holder? t.joint = none := by
    rw [holder?_congr (congrArg Stores.races (stores_interrupt ..)) (congrArg Stores.pairings (stores_interrupt ..))]
    exact hends.holder
  have hsame : (w.interrupt (t.side side.other)).record t.fiber = s.moment.world.record t.fiber :=
    (record_interrupt_of_ne halone w).trans (hrecord _)
  obtain ⟨hresumed, hleft, hover⟩ := h.completes hsame ((tokens_interrupt_of_ne halone w).trans (htokens _)) hholder
    hdone hwaits
  refine ⟨⟨w.interrupt (t.side side.other), flagged_interrupt_self hself, fun hw => ?_, hdone⟩, ?_, fun g hg => ?_,
    fun hw => hresumed (parked_of_exiting hw ha), fun hl g hg a => ?_, hover⟩
  · obtain ⟨r, hr, hrest⟩ := parked_of_exiting hw ha
    exact ⟨r, hsame.trans hr, hrest⟩
  · rw [hdone, flagged_settle]
    exact flagged_interrupt_self hself
  · rw [hdone, flagged_settle, flagged_interrupt_of_ne (Ne.symm hg)]
    exact flagged_congr (hrecord g)
  · rw [hleft hl, World.view, record_interrupt_of_ne (Ne.symm hg), tokens_interrupt_of_ne (Ne.symm hg)]
    exact hview g a

/-! ## Whole runs -/

/-- Nobody is parked for what is over. -/
theorem not_parked_of_over (h : t.Runs s) (hover : t.Over s) : ¬ s.moment.world.Parked t.callback t.run t.canceler := by
  intro hparked
  have hdead : s.moment.world.settle t.callback .interrupted = s.moment.world := hover.dead [] .interrupted
  have hpast := (hparked.settle (h.tokens_of_parked hparked) .interrupted).2
  obtain ⟨r, hr, hepoch, -⟩ := hparked
  rw [hdead, epoch_of_record hr, hepoch] at hpast
  exact Nat.lt_irrefl _ hpast

theorem pending_of_silent (h : t.Runs s) (hpending : t.Pending s) (hsilent : s.Silent t.fibers strokes) :
    t.Pending (s.after strokes) := (h.sameRow_of_silent hsilent).holder?.trans hpending

section Tells

variable (htells : ∀ s side x hook, t.Runs s → t.Pending s → s.moment.activity = .exiting (t.side side) x hook →
  (t.Pending (s.play .next) ∨ t.Over (s.play .next)) ∧
    (s.play .next).moment.world.flagged t.fiber = s.moment.world.flagged t.fiber)

include htells

/-- A race or pairing goes on until it is over. -/
theorem pending_or_over (h : t.Runs s) (hpending : t.Pending s) (strokes : List Stroke) :
    t.Pending (s.after strokes) ∨ t.Over (s.after strokes) := by
  induction strokes generalizing s with
  | nil => exact Or.inl hpending
  | cons stroke rest ih =>
    by_cases hended : s.ended? stroke = some t.joint
    · obtain ⟨rfl, f, x, hook, hf, ha⟩ := h.tells_of_ended hended
      obtain ⟨side, rfl⟩ := t.mem_fibers.1 hf
      exact (htells s side x hook h hpending ha).1.elim (ih (h.play .next)) fun hover => Or.inr (hover.after rest)
    · have hplay := h.occurs.rows_play h.sides_ne_nil fun he => absurd he hended
      exact ih (h.play stroke) (hplay.holder?.trans hpending)

/-- **The fiber waits until one of the two others ends, and leaves if it is interrupted.** -/
theorem endures (h : t.Runs s) (hpending : t.Pending s) : t.Endures s where
  waits strokes hsilent := (h.after strokes).waits_of_pending (h.pending_of_silent hpending hsilent)
  interrupted strokes stroke hparked hopen hflag := by
    have hafter := h.after strokes
    have hstill := (h.pending_or_over htells hpending strokes).resolve_right fun hover =>
      hafter.not_parked_of_over hover hparked
    exact hafter.leaves_of_flagged hstill hparked hopen
      (fun side x hook ha => (htells _ side x hook hafter hstill ha).2) hflag

end Tells

end Tandem.Runs

end Outcomes

end FiberLoop
