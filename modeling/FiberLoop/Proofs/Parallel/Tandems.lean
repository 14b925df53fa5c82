import FiberLoop.Proofs.Deferreds.Delivery
import FiberLoop.Proofs.Parallel.Upkeep

/-!
# A fiber that waits for two others

A `Tandem` is a fiber that waits for a race or a pairing of two other fibers. It begins with the registration of the
fiber (`Scene.Occurs.begins`) and `Runs` for ever. As long as neither of the two has told its exit nobody touches the
row (`Tandem.Runs.sameRow_of_silent`), and until the race or pairing has ended the fiber waits, unless it is interrupted
(`Tandem.Runs.waits_of_pending`).
-/

namespace FiberLoop

open World

/-- A fiber that waits for two others, in a race or a pairing. -/
structure Tandem where
  joint : Joint
  /-- The fiber that waits, the run with which it goes on, and the epoch of its callback. -/
  fiber : FiberId
  run : Run
  epoch : Nat
  left : FiberId
  right : FiberId

/-- Where a fiber is that waits in an epoch with a run and a canceler, or has left that epoch. -/
inductive Place.Awaits (epoch : Nat) (run : Run) (canceler : Canceler) (p : Place) : Prop where
  | returned {early : Option (Exit Value Value)} (h : p.standing = .returned run early canceler) (hepoch : p.epoch = epoch)
  | parked (h : p.standing = .parked run canceler) (hepoch : p.epoch = epoch)
  | past (h : epoch < p.epoch)

namespace Scene

/-- One of some fibers is about to tell its exit. -/
def Tells (fibers : List FiberId) (s : Scene) : Prop := ∃ f x hook, f ∈ fibers ∧ s.moment.activity = .exiting f x hook

/-- None of some fibers tells its exit while some strokes are played. -/
def Silent (fibers : List FiberId) : Scene → List Stroke → Prop
  | _, [] => True
  | s, stroke :: rest => (stroke = .next → ¬ s.Tells fibers) ∧ (s.play stroke).Silent fibers rest

end Scene

namespace Tandem

variable (t : Tandem)

def callback : Callback := ⟨t.fiber, t.epoch⟩

def side : Side → FiberId
  | .left => t.left
  | .right => t.right

def fibers : List FiberId := [t.left, t.right]

def canceler : Canceler := .interrupt t.fibers

/-- The race or pairing has not ended. -/
def Pending (s : Scene) : Prop := s.moment.world.holder? t.joint = some t.callback

/-- The fiber waits: it is at the end of its registration, or parked. -/
def Waits (s : Scene) : Prop :=
  (∃ left, s.moment.activity = .returning t.fiber left t.run t.canceler) ∨ s.moment.world.Parked t.callback t.run t.canceler

/-- The fiber was interrupted and has left. -/
def Left (s : Scene) : Prop := s.moment.world.flagged t.fiber = true ∧ t.epoch < s.moment.world.epoch t.fiber

/-- The registration of the fiber starts two others, which run the two effects. Nobody else notices. -/
structure Begins (left right : Effect) (s : Scene) : Prop where
  returning : ∃ budget, (s.play .next).moment.activity = .returning t.fiber budget t.run t.canceler
  new : ∀ side, s.moment.world.fiber? (t.side side) = none
  left : (s.play .next).moment.world.fiber? t.left =
    some { home := s.moment.world.here, phase := .created left, hook := some (t.joint.hook .left), notice := none }
  right : (s.play .next).moment.world.fiber? t.right =
    some { home := s.moment.world.here, phase := .created right, hook := some (t.joint.hook .right), notice := none }
  queued : (s.play .next).moment.world.loop.inbox =
    s.moment.world.loop.inbox ++ [.task (.start t.left), .task (.start t.right)]
  others : ∀ g, (∀ side, g ≠ t.side side) → (s.play .next).moment.world.fiber? g = s.moment.world.fiber? g

/-- What holds of a fiber that waits for two others from the beginning for ever. -/
structure Runs (s : Scene) : Prop where
  occurs : s.Occurs
  sides : s.moment.world.sides t.joint = t.fibers
  place : ∃ p, Fits t.fiber (s.moment.view t.fiber) p ∧ p.Awaits t.epoch t.run t.canceler
  hooks : ∀ side, ∃ p, Fits (t.side side) (s.moment.view (t.side side)) p ∧ p.hook = t.joint.hook side
  apart : t.left ≠ t.right
  alone : ∀ side, t.side side ≠ t.fiber

theorem mem_fibers {f : FiberId} : f ∈ t.fibers ↔ ∃ side, f = t.side side := by
  refine List.mem_pair.trans ⟨?_, ?_⟩
  · rintro (rfl | rfl)
    · exact ⟨.left, rfl⟩
    · exact ⟨.right, rfl⟩
  · rintro ⟨side, rfl⟩
    cases side with
    | left => exact Or.inl rfl
    | right => exact Or.inr rfl

end Tandem

section Tandems

variable {t : Tandem} {s : Scene} {stroke : Stroke} {strokes : List Stroke} {p q : Place} {e : Event} {es : List Event}
  {epoch : Nat} {run : Run} {canceler : Canceler} {f : FiberId} {w w' : World} {side : Side} {x : Exit Value Value}
  {hook : ExitHook}

/-! ## Courses -/

theorem Move.awaits (hmove : Move p e q) (h : p.Awaits epoch run canceler) : q.Awaits epoch run canceler := by
  cases h with
  | past h => exact .past (Nat.lt_of_lt_of_le h (Moves.one hmove).epoch_le)
  | returned h hepoch =>
    cases hmove with
    | keepReturned h' x =>
      cases h.symm.trans h'
      exact .returned rfl hepoch
    | park h' hopen =>
      cases h.symm.trans h'
      exact .parked rfl hepoch
    | request h' => exact .returned h hepoch
    | early | interruptReturned => exact .past (hepoch ▸ Nat.lt_succ_self _)
    | begin h' | step h' | register h' | «return» h' | keepRegistering h' | throw h' | answer h' | interruptParked h'
    | cancel h' | «continue» h' | exit h' | tell h' => cases h.symm.trans h'
  | parked h hepoch =>
    cases hmove with
    | request h' => exact .parked h hepoch
    | answer | interruptParked => exact .past (hepoch ▸ Nat.lt_succ_self _)
    | begin h' | step h' | register h' | «return» h' | keepRegistering h' | keepReturned h' | park h' | throw h' | early h'
    | interruptReturned h' | cancel h' | «continue» h' | exit h' | tell h' => cases h.symm.trans h'

theorem Moves.awaits (hmoves : Moves p es q) (h : p.Awaits epoch run canceler) : q.Awaits epoch run canceler := by
  induction hmoves with
  | refl p => exact h
  | step first _ ih => exact ih (first.awaits h)

theorem Moves.hook_eq (hmoves : Moves p es q) : q.hook = p.hook := by
  induction hmoves with
  | refl p => rfl
  | step first _ ih => exact ih.trans first.hook

/-- A fiber that has told its exit has done so for good. -/
theorem Moves.tellings_ne_nil (hmoves : Moves p es q) (h : p.tellings ≠ []) : q.tellings ≠ [] := by
  induction hmoves with
  | refl p => exact h
  | step first _ ih =>
    refine ih fun hnil => h ?_
    rw [first.tellings] at hnil
    exact (List.append_eq_nil_iff.1 hnil).1

/-- Whatever is played, the fiber makes some moves. -/
theorem Scene.Occurs.moves_after (h : s.Occurs) (hp : Fits f (s.moment.view f) p) (strokes : List Stroke) :
    ∃ es q, Moves p es q ∧ Fits f ((s.after strokes).moment.view f) q := by
  obtain ⟨es, htransitions⟩ := Scene.leadsTo_after h.joined.quiet strokes
  obtain ⟨q, hmoves, hq⟩ := htransitions.fits hp
  exact ⟨_, q, hmoves, hq⟩

/-- A fiber that has not told its exit has a place with its hook. -/
theorem Scene.Occurs.fits_of_fiber? {r : Fiber} (h : s.Occurs) (hr : s.moment.world.fiber? f = some r)
    (hhook : r.hook = some hook) : ∃ p, Fits f (s.moment.view f) p ∧ p.hook = hook := by
  have hcore : s.moment.world.record f = some r.core := congrArg (Option.map Fiber.core) hr
  rcases (h.joined.people f).cases with habsent | ⟨p, hp⟩
  · cases hcore.symm.trans habsent.record
  · obtain ⟨home, hrecord⟩ := hp.record
    refine ⟨p, hp, ?_⟩
    have hsame : (p.record home).hook = some hook := by
      rw [← Option.some.inj (hcore.symm.trans hrecord)]
      exact hhook
    rw [Place.record] at hsame
    split at hsame
    · cases hsame
    · exact Option.some.inj hsame

/-- Who has told its exit does nothing any more. -/
theorem Fits.inactive_of_told {m : Moment} (hp : Fits f (m.view f) p) (htold : p.tellings ≠ []) :
    m.activity.fiber? ≠ some f := by
  intro hactive
  have hheld := hp.held_of_activity rfl hactive
  unfold Place.tellings at htold
  generalize p.standing = standing at htold hheld
  generalize m.world.tokens f = tokens at hheld
  generalize m.activity = activity at hheld hactive
  cases hheld with
  | done => cases hactive
  | _ => exact htold rfl

/-- Who is about to tell its exit has told it then. -/
theorem Scene.Occurs.told (h : s.Occurs) (ha : s.moment.activity = .exiting f x hook) :
    ∃ q, Fits f ((s.play .next).moment.view f) q ∧ q.tellings ≠ [] := by
  obtain ⟨p, hp⟩ := h.fits_of_activity (congrArg Activity.fiber? ha)
  obtain ⟨es, q, hmoves, hq⟩ := h.moves_after hp [.next]
  refine ⟨q, hq, ?_⟩
  have hidle : (s.play .next).moment.activity = .idle := by
    obtain ⟨⟨w, a⟩, kept⟩ := s
    cases ha
    rfl
  have hexit : q.standing.exit? = some x := hmoves.exit? ((hp.held_of_activity ha rfl).of_exiting.1 ▸ rfl)
  have hheld : Held f q.epoch q.hook q.standing ((s.play .next).moment.world.tokens f)
      ((s.play .next).moment.activity.of f) := hq.held
  rw [hidle] at hheld
  unfold Place.tellings
  generalize q.standing = standing at hexit hheld
  generalize (s.play .next).moment.world.tokens f = tokens at hheld
  cases hheld with
  | done y => exact List.cons_ne_nil _ _
  | _ => cases hexit

/-- Nobody tells its exit twice. -/
theorem Scene.Occurs.tells_once (h : s.Occurs) (ha : s.moment.activity = .exiting f x hook) (strokes : List Stroke)
    (y : Exit Value Value) (hook' : ExitHook) :
    ((s.play .next).after strokes).moment.activity ≠ .exiting f y hook' := by
  intro hb
  obtain ⟨q, hq, htold⟩ := h.told ha
  obtain ⟨es', q', hmoves', hq'⟩ := Scene.Occurs.moves_after (h.after [.next]) hq strokes
  exact hq'.inactive_of_told (hmoves'.tellings_ne_nil htold) (congrArg Activity.fiber? hb)

namespace Tandem.Runs

/-! ## Runs go on -/

theorem sides_ne_nil (h : t.Runs s) : s.moment.world.sides t.joint ≠ [] := by
  rw [h.sides]
  exact List.cons_ne_nil _ _

theorem play (h : t.Runs s) (stroke : Stroke) : t.Runs (s.play stroke) where
  occurs := h.occurs.after [stroke]
  sides := (h.occurs.sides_play h.sides_ne_nil stroke).trans h.sides
  place := by
    obtain ⟨p, hp, hawaits⟩ := h.place
    obtain ⟨es, q, hmoves, hq⟩ := h.occurs.moves_after hp [stroke]
    exact ⟨q, hq, hmoves.awaits hawaits⟩
  hooks side := by
    obtain ⟨p, hp, hhook⟩ := h.hooks side
    obtain ⟨es, q, hmoves, hq⟩ := h.occurs.moves_after hp [stroke]
    exact ⟨q, hq, hmoves.hook_eq.trans hhook⟩
  apart := h.apart
  alone := h.alone

theorem after (h : t.Runs s) (strokes : List Stroke) : t.Runs (s.after strokes) := by
  induction strokes generalizing s with
  | nil => exact h
  | cons stroke rest ih => exact ih (h.play stroke)

/-- The exit of one of the two fibers is told to the race or pairing. -/
theorem hook_of_exiting (h : t.Runs s) (ha : s.moment.activity = .exiting (t.side side) x hook) :
    hook = t.joint.hook side := by
  obtain ⟨p, hp, hhook⟩ := h.hooks side
  exact (hp.held_of_activity ha rfl).of_exiting.2.2.trans hhook

/-- Only the two fibers end the race or pairing. -/
theorem tells_of_ended (h : t.Runs s) (hended : s.ended? stroke = some t.joint) : stroke = .next ∧ s.Tells t.fibers := by
  cases stroke with
  | next =>
    refine ⟨rfl, ?_⟩
    cases ha : s.moment.activity with
    | exiting f x hook =>
      have hjoint : hook.joint? = some t.joint := by
        have hactivity : s.moment.activity.ended? = some t.joint := hended
        rwa [ha] at hactivity
      obtain ⟨side, rfl⟩ := ExitHook.joint?_eq_some_iff.1 hjoint
      have hside := h.occurs.joined.sides f t.joint side (Or.inr ⟨x, ha⟩)
      rw [h.sides] at hside
      exact ⟨f, x, _, List.mem_of_getElem? hside, ha⟩
    | _ =>
      have hactivity : s.moment.activity.ended? = some t.joint := hended
      rw [ha] at hactivity
      cases hactivity
  | _ => cases hended

/-- As long as neither of the two tells its exit, the row stays as it is. -/
theorem sameRow_of_silent (h : t.Runs s) (hsilent : s.Silent t.fibers strokes) :
    s.moment.world.SameRow t.joint (s.after strokes).moment.world := by
  induction strokes generalizing s with
  | nil => exact .refl _ _
  | cons stroke rest ih =>
    have hplay : s.moment.world.SameRow t.joint (s.play stroke).moment.world :=
      h.occurs.rows_play h.sides_ne_nil fun hended =>
        absurd (h.tells_of_ended hended).2 (hsilent.1 (h.tells_of_ended hended).1)
    exact hplay.trans (ih (h.play stroke) hsilent.2)

/-- The row stays as it is when the race or pairing has ended. -/
theorem sameRow_of_ended (h : t.Runs s) (hclosed : s.moment.world.holder? t.joint = none) (strokes : List Stroke) :
    s.moment.world.SameRow t.joint (s.after strokes).moment.world := by
  induction strokes generalizing s with
  | nil => exact .refl _ _
  | cons stroke rest ih =>
    have hplay : s.moment.world.SameRow t.joint (s.play stroke).moment.world :=
      h.occurs.rows_play h.sides_ne_nil fun _ => hclosed
    exact hplay.trans (ih (h.play stroke) (hplay.holder?.trans hclosed))

/-! ## The fiber that waits -/

/-- **Until the race or pairing has ended the fiber waits, unless it was interrupted.** -/
theorem waits_of_pending (h : t.Runs s) (hpending : t.Pending s) : t.Waits s ∨ t.Left s := by
  obtain ⟨row, hrow, hholds⟩ := h.occurs.joined.holds t.joint t.callback hpending
  have hrow : s.moment.world.fiber? t.fiber = some row := hrow
  obtain ⟨p, hp, hawaits⟩ := h.place
  obtain ⟨home, hrecord⟩ := hp.record
  have hcore : s.moment.world.record t.fiber = some row.core := congrArg _ hrow
  have hsame : row.core = p.record home := Option.some.inj (hcore.symm.trans hrecord)
  have hepoch : row.epoch = p.epoch := congrArg Fiber.epoch hsame
  have hphase : row.phase = p.standing.phase := congrArg Fiber.phase hsame
  have hheldp : Held t.fiber p.epoch p.hook p.standing (s.moment.world.tokens t.fiber) (s.moment.activity.of t.fiber) := hp.held
  cases hawaits with
  | @returned early hstanding hp' =>
    rw [hstanding] at hheldp hphase
    refine Or.inl (Or.inl ?_)
    generalize hof : s.moment.activity.of t.fiber = a at hheldp
    generalize s.moment.world.tokens t.fiber = tokens at hheldp
    cases hheldp with
    | returned _ _ _ left => exact ⟨left, Activity.eq_of_of hof Activity.noConfusion⟩
  | parked hstanding hp' =>
    exact Or.inl (Or.inr ⟨_, hcore, hepoch.trans hp', hphase.trans (congrArg Standing.phase hstanding)⟩)
  | past hlt =>
    have hleft := hholds.resolve_left fun hwaits => Nat.ne_of_gt hlt (hepoch.symm.trans hwaits.1)
    refine Or.inr ⟨?_, ?_⟩
    · rw [flagged, hrow]
      exact hleft.2
    · rw [epoch_of_fiber? hrow]
      exact hleft.1

/-- Nobody is in the middle of a registration while an exit is told. -/
theorem parked_of_exiting (hwaits : t.Waits s) (ha : s.moment.activity = .exiting f x hook) :
    s.moment.world.Parked t.callback t.run t.canceler :=
  hwaits.resolve_left fun ⟨_, hreturning⟩ => nomatch hreturning.symm.trans ha

theorem tokens_of_parked (h : t.Runs s) (hparked : s.moment.world.Parked t.callback t.run t.canceler) :
    s.moment.world.tokens t.fiber = [] := by
  obtain ⟨p, hp, -⟩ := h.place
  obtain ⟨r, hr, -, hphase⟩ := hparked
  have hasleep : s.moment.world.Asleep t.fiber r.home t.run t.canceler := ⟨r, hr, rfl, hphase⟩
  have hheld : Held t.fiber p.epoch p.hook p.standing (s.moment.world.tokens t.fiber) (s.moment.activity.of t.fiber) := hp.held
  rw [hasleep.standing hp] at hheld
  exact hheld.of_parked.1

theorem isSome_record (h : t.Runs s) (side : Side) : (s.moment.world.record (t.side side)).isSome = true := by
  obtain ⟨p, hp, -⟩ := h.hooks side
  obtain ⟨home, hrecord⟩ := hp.record
  exact Option.isSome_iff_exists.2 ⟨_, hrecord⟩

end Tandem.Runs

/-! ## Beginnings -/

/-- The tandem that a registration begins. -/
def Scene.tandem (s : Scene) (j : Joint) (f : FiberId) (run : Run) (epoch : Nat) : Tandem where
  joint := j
  fiber := f
  run := run
  epoch := epoch
  left := ⟨s.moment.world.fibers.size⟩
  right := ⟨s.moment.world.fibers.size + 1⟩

theorem World.index_lt_of_record {r : Fiber} (h : w.record f = some r) : f.index < w.fibers.size := by
  obtain ⟨fiber, hfiber, -⟩ := fiber?_of_record h
  have hget : w.fibers.get? f.index = some fiber := hfiber
  exact (Table.isSome_get?_iff w.fibers f.index).1 (by rw [hget]; rfl)

theorem World.fiber?_eq_none_of_le (h : w.fibers.size ≤ f.index) : w.fiber? f = none := by
  rw [fiber?, ← Option.not_isSome_iff_eq_none, Table.isSome_get?_iff]
  exact Nat.not_lt_of_le h

section Beginnings

variable {j : Joint} {left : Nat} {r : Registration} {l l' : Effect}

/-- A registration that starts a race or a pairing begins a tandem. -/
theorem Scene.Occurs.begins (h : s.Occurs) (ha : s.moment.activity = .registering f left run r epoch)
    (hstarts : s.moment.world.Starts j ⟨f, epoch⟩ l l' w')
    (hnext : (s.play .next).moment = ⟨w', .returning f left run (s.tandem j f run epoch).canceler⟩) :
    (s.tandem j f run epoch).Begins l l' s ∧ (s.tandem j f run epoch).Runs (s.play .next) := by
  have hpeople := h.joined.people
  have hplay : (s.play .next).Occurs := h.after [.next]
  have hworld : (s.play .next).moment.world = w' := congrArg Moment.world hnext
  have hactivity : (s.play .next).moment.activity = .returning f left run (s.tandem j f run epoch).canceler :=
    congrArg Moment.activity hnext
  obtain ⟨q, hq⟩ := hplay.fits_of_activity (congrArg Activity.fiber? hactivity)
  obtain ⟨early, hstanding⟩ := (hq.held_of_activity hactivity rfl).of_returning.1
  obtain ⟨home', hrecord'⟩ := hq.record
  obtain ⟨⟨w, a⟩, kept⟩ := s
  cases ha
  obtain ⟨p, hp⟩ := hpeople.fits rfl
  obtain ⟨home, hrecord⟩ := hp.record
  obtain ⟨-, -, rfl⟩ := hp.held.of_registering
  have hlt : f.index < w.fibers.size := index_lt_of_record hrecord
  have hleft : f ≠ ⟨w.fibers.size⟩ := fun hf => Nat.ne_of_lt hlt (congrArg FiberId.index hf)
  have hright : f ≠ ⟨w.fibers.size + 1⟩ := fun hf => Nat.ne_of_lt (Nat.lt_succ_of_lt hlt) (congrArg FiberId.index hf)
  have hapart : (⟨w.fibers.size⟩ : FiberId) ≠ ⟨w.fibers.size + 1⟩ := fun he =>
    Nat.ne_of_lt (Nat.lt_succ_self _) (congrArg FiberId.index he)
  have hnew (g : FiberId) := (congrArg (·.fiber? g) hworld).trans (hstarts.fiber? g)
  have hnewLeft := (hnew ⟨w.fibers.size⟩).trans ((if_neg hapart).trans (if_pos rfl))
  have hnewRight := (hnew ⟨w.fibers.size + 1⟩).trans (if_pos rfl)
  have hself := (hnew f).trans ((if_neg hright).trans (if_neg hleft))
  refine ⟨⟨⟨left, hactivity⟩, fun side => ?_, hnewLeft, hnewRight, ?_, fun g hg => ?_⟩,
    ⟨hplay, ?_, ?_, fun side => ?_, hapart, fun side => ?_⟩⟩
  · cases side with
    | left => exact fiber?_eq_none_of_le (Nat.le_refl _)
    | right => exact fiber?_eq_none_of_le (Nat.le_succ _)
  · exact (congrArg (·.loop.inbox) hworld).trans hstarts.inbox
  · exact (hnew g).trans ((if_neg (hg .right)).trans (if_neg (hg .left)))
  · exact (congrArg (World.sides j) hworld).trans hstarts.sides
  · refine ⟨q, hq, .returned hstanding ?_⟩
    have hsame : w.record f = some (q.record home') := (congrArg (Option.map Fiber.core) hself).symm.trans hrecord'
    exact congrArg Fiber.epoch (Option.some.inj (hsame.symm.trans hrecord))
  · cases side with
    | left => exact hplay.fits_of_fiber? hnewLeft rfl
    | right => exact hplay.fits_of_fiber? hnewRight rfl
  · cases side with
    | left => exact Ne.symm hleft
    | right => exact Ne.symm hright

end Beginnings

end Tandems

end FiberLoop
