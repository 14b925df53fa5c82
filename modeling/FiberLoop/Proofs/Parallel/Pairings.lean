import FiberLoop.Proofs.Parallel.Outcomes

/-!
# Pairings

The fiber that waits for a pairing goes on with the combination of the values of the two fibers, or with the cause of
the one that ends first with a cause. The first value is kept. When the second one comes the combining function is
called once, with the value of the left fiber first, and nobody is interrupted. When a cause comes the other fiber is
interrupted before the fiber that waits is given the cause.

The main result of this module is `Scene.Occurs.zipped`.
-/

namespace FiberLoop

open World

/-- Only the next serial number and the number of caught throws change. -/
def World.Counts (w w' : World) : Prop :=
  ∃ serial throws, w' = { w with stores := { w.stores with nextSerial := serial }, caughtThrows := throws }

namespace World.Counts

instance : Composes Counts where
  refl w := ⟨_, _, rfl⟩
  trans := by
    rintro u v w ⟨serial, throws, rfl⟩ ⟨serial', throws', rfl⟩
    exact ⟨serial', throws', rfl⟩
  caughtThrow _ := ⟨_, _, rfl⟩

/-- Evaluating an expression changes no more than that. -/
instance (V : Scope) : Observes V (Adhering V Counts) where
  pure h := Adhering.of_confining (Tracks.pure h) Composes.refl
  throw d := Adhering.of_confining (Tracks.throw d) Composes.refl
  bind := Adhering.bind
  read _ h w hw := h w hw w hw
  freshSerial := Adhering.of_confining Tracks.freshSerial fun _ => ⟨_, _, rfl⟩

end World.Counts

namespace Combine

/-- What the combination of two values in a world leads to. -/
def exit (f : Combine) (a b : Value) (w : World) : Exit Value Value :=
  match ((f.apply a b).caught w).1 with
  | .ok v => .value v
  | .error d => .aborted d

/-- The combining function changes nothing else in the world. -/
theorem counts_caught (f : Combine) (a b : Value) (w : World) : w.Counts ((f.apply a b).caught w).2 := by
  have hcombine : Adhering .everything Counts Value (f.apply a b) (Value.In .everything) :=
    Observes.combine (fun _ _ => trivial) (fun _ _ => trivial) fun _ _ => trivial
  exact (hcombine.caught w.confined_everything).1.2

end Combine

theorem Side.pick_other {α : Type} (side : Side) (own other : α) : side.other.pick other own = side.pick own other := by
  cases side <;> rfl

namespace Pairing

variable (row : Pairing) (side : Side) (v : Value)

theorem callback_store : (row.store side v).callback = row.callback := by
  cases side <;> rfl

theorem combine_store : (row.store side v).combine = row.combine := by
  cases side <;> rfl

theorem value?_store : (row.store side v).value? side.other.other = some v := by
  cases side <;> rfl

end Pairing

theorem World.deliverCombined_eq_settle (callback : Callback) (f : Combine) (a b : Value) (w : World) :
    w.deliverCombined callback f a b = ((f.apply a b).caught w).2.settle callback (f.exit a b w) := by
  rw [deliverCombined, Combine.exit]
  cases (f.apply a b).caught w with
  | mk result v => cases result <;> rfl

namespace Tandem

variable (t : Tandem)

/-- One of the two fibers tells the second value: the two are combined. -/
structure Combines (f : Combine) (a b : Value) (s : Scene) : Prop where
  /-- The combining function is called once, and its result is delivered. -/
  called : ∃ w : World, s.moment.world.Ends t.joint w ∧
    (s.play .next).moment.world = ((f.apply a b).caught w).2.settle t.callback (f.exit a b w) ∧
    (t.Waits s → t.Resumed (f.exit a b w) (s.play .next))
  /-- Nobody is interrupted. -/
  spares : ∀ g, (s.play .next).moment.world.flagged g = s.moment.world.flagged g
  /-- A fiber that has left is not resumed, nor is anybody else. -/
  left : t.Left s → ∀ g a, (s.play .next).moment.world.view g a = s.moment.world.view g a
  ended : t.Over (s.play .next)

/-- One of the two fibers tells the first value: it is kept for the second one. -/
structure Keeps (f : Combine) (side : Side) (v : Value) (s : Scene) : Prop where
  /-- Nothing else happens. -/
  stored : ∃ pairings, (s.play .next).moment.world =
    { s.moment.world with stores := { s.moment.world.stores with pairings := pairings } }
  /-- That fiber tells nothing more. -/
  once : ∀ strokes y hook, ((s.play .next).after strokes).moment.activity ≠ .exiting (t.side side) y hook
  waits : ∀ strokes, (s.play .next).Silent t.fibers strokes →
    t.Waits ((s.play .next).after strokes) ∨ t.Left ((s.play .next).after strokes)
  combined : ∀ strokes v' hook, (s.play .next).Silent t.fibers strokes →
    ((s.play .next).after strokes).moment.activity = .exiting (t.side side.other) (.value v') hook →
      t.Combines f (side.pick v v').1 (side.pick v v').2 ((s.play .next).after strokes)
  stopped : ∀ strokes c hook, (s.play .next).Silent t.fibers strokes →
    ((s.play .next).after strokes).moment.activity = .exiting (t.side side.other) (.cause c) hook →
      t.Stops side.other (.cause c) ((s.play .next).after strokes)

/-- How a pairing goes, from its beginning for ever. -/
structure Pairs (f : Combine) (s : Scene) : Prop extends t.Endures s where
  /-- The first value is kept. -/
  kept : ∀ strokes side v hook, s.Silent t.fibers strokes →
    (s.after strokes).moment.activity = .exiting (t.side side) (.value v) hook → t.Keeps f side v (s.after strokes)
  /-- The first cause ends the pairing. -/
  stopped : ∀ strokes side c hook, s.Silent t.fibers strokes →
    (s.after strokes).moment.activity = .exiting (t.side side) (.cause c) hook → t.Stops side (.cause c) (s.after strokes)

end Tandem

section Pairings

variable {t : Tandem} {s : Scene} {strokes : List Stroke} {side : Side} {x : Exit Value Value} {hook : ExitHook}
  {p : PairingId} {row : Pairing} {f : FiberId} {left epoch : Nat} {run : Run} {l l' : Effect} {g : Combine}
  {v v' : Value} {c : Cause Value}

namespace Tandem.Runs

/-- The exit of one of the two fibers is told to the pairing. -/
theorem finishes_pairing (h : t.Runs s) (hjoint : t.joint = .pairing p)
    (ha : s.moment.activity = .exiting (t.side side) x hook) :
    (s.play .next).moment.world = s.moment.world.finishPairing p side x := by
  have hhook := h.hook_of_exiting ha
  rw [hjoint] at hhook
  obtain ⟨⟨w, a⟩, kept⟩ := s
  cases ha
  subst hhook
  rfl

theorem fibers_pairing (h : t.Runs s) (hjoint : t.joint = .pairing p) (hrow : s.moment.world.pairing? p = some row) :
    row.fibers = t.fibers := by
  have hsides := h.sides
  rwa [hjoint, World.sides, hrow] at hsides

theorem pending_pairing (hjoint : t.joint = .pairing p) (hrow : s.moment.world.pairing? p = some row)
    (hcallback : row.callback = some t.callback) : t.Pending s := by
  rw [Pending, hjoint, World.holder?, hrow]
  exact hcallback

theorem row_of_pending (hjoint : t.joint = .pairing p) (hpending : t.Pending s) :
    ∃ row, s.moment.world.pairing? p = some row ∧ row.callback = some t.callback := by
  rw [Pending, hjoint] at hpending
  exact Option.bind_eq_some_iff.1 hpending

/-- A pairing that keeps a value has not ended. -/
theorem pending_of_store (hjoint : t.joint = .pairing p) (hpending : t.Pending s)
    (hdone : (s.play .next).moment.world = s.moment.world.modifyPairing p fun row => row.store side v) :
    t.Pending (s.play .next) := by
  rw [Pending, hjoint] at hpending ⊢
  rw [hdone, holder?_store, hpending]

/-- A cause ends the pairing. -/
theorem stops_pairing (h : t.Runs s) (hjoint : t.joint = .pairing p) (hrow : s.moment.world.pairing? p = some row)
    (hcallback : row.callback = some t.callback) (ha : s.moment.activity = .exiting (t.side side) (.cause c) hook) :
    t.Stops side (.cause c) s := by
  refine h.stops (pending_pairing hjoint hrow hcallback) ha (hjoint ▸ ends_modifyPairing s.moment.world p) ?_
  rw [h.finishes_pairing hjoint ha, finishPairing_of_cause hrow hcallback, h.fibers_pairing hjoint hrow]
  cases side <;> rfl

/-- The second value ends the pairing. -/
theorem combines_pairing (h : t.Runs s) (hjoint : t.joint = .pairing p) (hrow : s.moment.world.pairing? p = some row)
    (hcallback : row.callback = some t.callback) (hother : row.value? side.other = some v')
    (ha : s.moment.activity = .exiting (t.side side) (.value v) hook) :
    t.Combines row.combine (side.pick v v').1 (side.pick v v').2 s := by
  generalize hargs : side.pick v v' = args
  have hends : s.moment.world.Ends t.joint (s.moment.world.modifyPairing p fun row => { row with callback := none }) :=
    hjoint ▸ ends_modifyPairing s.moment.world p
  have hdone := h.finishes_pairing hjoint ha
  rw [finishPairing_of_second hrow hcallback side hother v, deliverCombined_eq_settle, hargs] at hdone
  generalize s.moment.world.modifyPairing p (fun row => { row with callback := none }) = closed at hends hdone
  obtain ⟨races, pairings, hclosed⟩ := hends.stores
  obtain ⟨serial, throws, hcounts⟩ := row.combine.counts_caught args.1 args.2 closed
  generalize hu : ((row.combine.apply args.1 args.2).caught closed).2 = u at hcounts hdone
  have hview (g : FiberId) (a : Activity) : u.view g a = s.moment.world.view g a := by
    rw [hcounts, hclosed]
    rfl
  have hrecord (g : FiberId) : u.record g = s.moment.world.record g := congrArg View.record (hview g .idle)
  have hholder : u.holder? t.joint = none := by
    rw [← hends.holder]
    refine holder?_congr ?_ ?_ t.joint
    · rw [hcounts]
    · rw [hcounts]
  have hwaits : s.moment.world.Parked t.callback t.run t.canceler ∨ t.Left s :=
    (h.waits_of_pending (pending_pairing hjoint hrow hcallback)).imp_left fun hw => parked_of_exiting hw ha
  obtain ⟨hresumed, hleft, hover⟩ := h.completes (hrecord _) (congrArg View.tokens (hview _ .idle)) hholder hdone hwaits
  refine ⟨⟨closed, hends, hu.symm ▸ hdone, fun hw => hresumed (parked_of_exiting hw ha)⟩, fun g => ?_, fun hl g a => ?_, hover⟩
  · rw [hdone, flagged_settle]
    exact flagged_congr (hrecord g)
  · rw [hleft hl]
    exact hview g a

/-- The first value is kept. -/
theorem keeps_pairing (h : t.Runs s) (hjoint : t.joint = .pairing p) (hrow : s.moment.world.pairing? p = some row)
    (hcallback : row.callback = some t.callback) (hother : row.value? side.other = none)
    (ha : s.moment.activity = .exiting (t.side side) (.value v) hook) : t.Keeps row.combine side v s := by
  have hdone := h.finishes_pairing hjoint ha
  rw [finishPairing_of_first hrow hcallback side hother v] at hdone
  have hkept : (s.play .next).moment.world.pairing? p = some (row.store side v) := by
    rw [hdone, pairing?_modifyPairing, if_pos rfl, hrow, Option.map_some]
  have hcallback' : (row.store side v).callback = some t.callback := (row.callback_store side v).trans hcallback
  have hafter (strokes : List Stroke) := (h.play .next).after strokes
  -- the row stays as it is until the other one of the two tells its exit
  have hstill {strokes : List Stroke} (hsilent : (s.play .next).Silent t.fibers strokes) :
      ((s.play .next).after strokes).moment.world.pairing? p = some (row.store side v) := by
    have hsame := (h.play .next).sameRow_of_silent hsilent
    rw [hjoint] at hsame
    exact Eq.trans hsame hkept
  refine ⟨⟨_, hdone⟩, h.occurs.tells_once ha, fun strokes hsilent => ?_, fun strokes v' hook hsilent ha' => ?_,
    fun strokes c hook hsilent ha' => ?_⟩
  · exact (hafter strokes).waits_of_pending (pending_pairing hjoint (hstill hsilent) hcallback')
  · have hcombines := (hafter strokes).combines_pairing hjoint (hstill hsilent) hcallback' (row.value?_store side v) ha'
    rwa [row.combine_store side v, Side.pick_other] at hcombines
  · exact (hafter strokes).stops_pairing hjoint (hstill hsilent) hcallback' ha'

/-- When one of the two tells its exit the pairing goes on or is over, and the fiber that waits is not interrupted. -/
theorem tells_pairing (h : t.Runs s) (hjoint : t.joint = .pairing p) (hpending : t.Pending s)
    (ha : s.moment.activity = .exiting (t.side side) x hook) : (t.Pending (s.play .next) ∨ t.Over (s.play .next)) ∧
      (s.play .next).moment.world.flagged t.fiber = s.moment.world.flagged t.fiber := by
  obtain ⟨row, hrow, hcallback⟩ := row_of_pending hjoint hpending
  cases x with
  | cause c =>
    have hstops := h.stops_pairing hjoint hrow hcallback ha
    exact ⟨Or.inr hstops.ended, hstops.spares _ (Ne.symm (h.alone side.other))⟩
  | value v =>
    cases hother : row.value? side.other with
    | some v' =>
      have hcombines := h.combines_pairing hjoint hrow hcallback hother ha
      exact ⟨Or.inr hcombines.ended, hcombines.spares _⟩
    | none =>
      have hdone := h.finishes_pairing hjoint ha
      rw [finishPairing_of_first hrow hcallback side hother v] at hdone
      exact ⟨Or.inl (pending_of_store hjoint hpending hdone), by rw [hdone]; rfl⟩

theorem pairs_of_row (h : t.Runs s) (hjoint : t.joint = .pairing p)
    (hrow : s.moment.world.pairing? p = some { callback := some t.callback, fibers := t.fibers, combine := g }) :
    t.Pairs g s := by
  have hpending : t.Pending s := pending_pairing hjoint hrow rfl
  have hstill {strokes : List Stroke} (hsilent : s.Silent t.fibers strokes) :
      (s.after strokes).moment.world.pairing? p =
        some { callback := some t.callback, fibers := t.fibers, combine := g } := by
    have hsame := h.sameRow_of_silent hsilent
    rw [hjoint] at hsame
    exact Eq.trans hsame hrow
  refine ⟨h.endures (fun s side x hook hs hp ha => hs.tells_pairing hjoint hp ha) hpending,
    fun strokes side v hook hsilent ha => ?_, fun strokes side c hook hsilent ha => ?_⟩
  · exact (h.after strokes).keeps_pairing hjoint (hstill hsilent) rfl (by cases side <;> rfl) ha
  · exact (h.after strokes).stops_pairing hjoint (hstill hsilent) rfl ha

end Tandem.Runs

/-- **A pairing combines the values of the two fibers, or ends with the first cause**, in every run. -/
theorem Scene.Occurs.zipped (h : s.Occurs) (ha : s.moment.activity = .registering f left run (.parZip l l' g) epoch) :
    (s.tandem (.pairing ⟨s.moment.world.stores.pairings.size⟩) f run epoch).Begins l l' s ∧
      (s.tandem (.pairing ⟨s.moment.world.stores.pairings.size⟩) f run epoch).Pairs g (s.play .next) := by
  have hstarts := starts_startPairing l l' g ⟨f, epoch⟩ s.moment.world
  have hnext : (s.play .next).moment = ⟨(s.moment.world.startPairing l l' g ⟨f, epoch⟩).2, .returning f left run
      (s.tandem (.pairing ⟨s.moment.world.stores.pairings.size⟩) f run epoch).canceler⟩ := by
    have hfibers := startPairing_fst l l' g ⟨f, epoch⟩ s.moment.world
    obtain ⟨⟨w, a⟩, kept⟩ := s
    cases ha
    show Moment.mk _ (.returning f left run (.interrupt (w.startPairing l l' g ⟨f, epoch⟩).1)) = _
    rw [hfibers]
    rfl
  obtain ⟨hbegins, hruns⟩ := h.begins ha hstarts hnext
  refine ⟨hbegins, hruns.pairs_of_row rfl ?_⟩
  rw [congrArg Moment.world hnext, pairing?_startPairing, if_pos rfl]
  rfl

/-- A fiber is about to wait for a pairing of an interruption and of an effect that never ends. -/
def Scene.pairing : List Stroke :=
  .demand (.scenario (.run "a" (.parZipWith .interrupted .never "x" "y" (.var "x")) false)) :: List.replicate 5 .next

theorem Scene.zipped_of_pairing :
    ((initial {} []).after pairing).moment.activity = .registering ⟨0⟩ 1020 {}
        (.parZip (.caused .interrupted) (.async .never) (.eval "x" "y" (.var "x") .empty)) 1 ∧
      (((initial {} []).after pairing).tandem (.pairing ⟨0⟩) ⟨0⟩ {} 1).Begins (.caused .interrupted) (.async .never)
        ((initial {} []).after pairing) ∧
      (((initial {} []).after pairing).tandem (.pairing ⟨0⟩) ⟨0⟩ {} 1).Pairs (.eval "x" "y" (.var "x") .empty)
        (((initial {} []).after pairing).play .next) := by
  have ha : ((initial {} []).after pairing).moment.activity = .registering ⟨0⟩ 1020 {}
      (.parZip (.caused .interrupted) (.async .never) (.eval "x" "y" (.var "x") .empty)) 1 := rfl
  exact ⟨ha, Occurs.zipped ((Occurs.initial {} []).after pairing) ha⟩

end Pairings

end FiberLoop
