import FiberLoop.Proofs.Parallel.Joining
import FiberLoop.Proofs.Parallel.Rows

/-!
# Races and pairings stay in order

Also the start of a race or a pairing and its end keep races and pairings in order. When one is started its callback
is held by nobody else yet. When one has ended its callback is reserved no longer, and it is completed at once.

The main results of this module are `Scene.Occurs.joined`, that races and pairings are in order at every moment of every
run, and `Scene.Occurs.rows_play`, that only its own fibers touch the row of a race or a pairing.
-/

namespace FiberLoop

/-- What is ended or told about next, if anything is. -/
def Activity.ended? : Activity → Option Joint
  | .exiting _ _ hook => hook.joint?
  | _ => none

/-- What does not belong to one race or pairing is the same in a later world. That one keeps its fibers. -/
structure World.Preserves (ended : Option Joint) (w w' : World) : Prop where
  rows : ∀ j, w.sides j ≠ [] → (ended = some j → w.holder? j = none) → w.SameRow j w'
  sides : ∀ j, w.sides j ≠ [] → w'.sides j = w.sides j
  parked : ∀ callback run canceler, w.Parked callback run canceler → w'.Parked callback run canceler

theorem World.Preserves.refl (ended : Option Joint) (w : World) : w.Preserves ended w :=
  ⟨fun j _ _ => .refl j w, fun _ _ => rfl, fun _ _ _ => id⟩

/-- Only the row of a race or pairing changes that holds a callback. -/
theorem World.Preserves.of_stores {j : Joint} {callback : Callback} {w w' : World} {stores : Stores}
    (h : w' = { w with stores := stores }) (hj : w.holder? j = some callback) (hrows : ∀ i, i ≠ j → w.SameRow i w')
    (hsides : w'.sides j = w.sides j) : w.Preserves (some j) w' where
  rows i _ hi := hrows i fun he => by
    subst he
    cases (hi rfl).symm.trans hj
  sides i _ := by
    by_cases hi : i = j
    · exact hi ▸ hsides
    · exact (hrows i hi).sides
  parked callback run canceler hparked := by
    rw [h]
    exact hparked

namespace Moment.Joined

variable {reserved : Callback → Prop} {before w w' : World} {a : Activity} {m : Moment} {f : FiberId} {left : Nat}
  {run : Run} {r : Registration} {epoch : Nat} {j : Joint} {l r' : Effect} {canceler : Canceler}

/-! ## Starts -/

/-- A race or a pairing is started for the fiber that waits. -/
theorem start (h : Moment.Joined reserved before ⟨w, .registering f left run r epoch⟩) (hr : r.isJoint = true)
    (hstarts : w.Starts j ⟨f, epoch⟩ l r' w') (hpeople : Moment.Peopled ⟨w', .returning f left run canceler⟩)
    (hquiet : w'.TimersQuiet) : Moment.Joined reserved w' ⟨w', .returning f left run canceler⟩ := by
  have hunheld := h.unheld f left run r epoch rfl
  have hheld {i : Joint} {callback : Callback} (hi : w'.holder? i = some callback) :
      i = j ∧ callback = ⟨f, epoch⟩ ∨ i ≠ j ∧ w.holder? i = some callback := by
    by_cases hij : i = j
    · subst hij
      exact Or.inl ⟨rfl, Option.some.inj (hi.symm.trans hstarts.holder)⟩
    · exact Or.inr ⟨hij, (hstarts.rows i hij).holder?.symm.trans hi⟩
  refine ⟨hpeople, hquiet, hstarts.confined h.confined, fun callback hreserves => ?_, fun i callback hi => ?_,
    nofun, nofun, fun i k callback hi hk => ?_, fun g i side hg => ?_, rfl, rfl, fun _ _ _ _ _ hp => Or.inl (Or.inl hp)⟩
  · cases hreserves with
    | held hi =>
      obtain ⟨-, rfl⟩ | ⟨-, hi⟩ := hheld hi
      · exact h.reserves _ (.joining rfl hr)
      · exact h.reserves _ (.held hi)
    | joining hm => cases hm
    | future hlt => exact h.reserves _ (.future (Nat.lt_of_le_of_lt (hstarts.epoch_le _) hlt))
  · obtain ⟨-, rfl⟩ | ⟨-, hi⟩ := hheld hi
    · exact hstarts.holds (h.joining f left run r epoch rfl hr)
    · exact hstarts.holds (h.holds i callback hi)
  · rcases hheld hi with ⟨rfl, rfl⟩ | ⟨-, hi⟩
    · exact (hheld hk).elim (fun hk => hk.1.symm) fun hk => absurd hk.2 (hunheld k)
    · rcases hheld hk with ⟨-, rfl⟩ | ⟨-, hk⟩
      · exact absurd hi (hunheld i)
      · exact h.single i k callback hi hk
  · have hhook := Moment.hooked_of_activity hg nofun
    rw [hstarts.hook?] at hhook
    split at hhook
    · rename_i hnew
      obtain ⟨rfl, rfl⟩ := Joint.hook_inj (Option.some.inj hhook)
      rw [hstarts.sides, hnew]
      rfl
    · split at hhook
      · rename_i hnew
        obtain ⟨rfl, rfl⟩ := Joint.hook_inj (Option.some.inj hhook)
        rw [hstarts.sides, hnew]
        rfl
      · have hold := h.sides g i side (Or.inl hhook)
        have hi : i ≠ j := fun hi => by
          rw [hi, hstarts.fresh] at hold
          cases hold
        rwa [(hstarts.rows i hi).sides]

/-- The closure of a registration starts a race or a pairing. -/
theorem beginRegistration_of_joint (h : Moment.Joined reserved before ⟨w, .registering f left run r epoch⟩)
    (hr : r.isJoint = true) :
    (w.beginRegistration f left run r epoch).Joined reserved (w.beginRegistration f left run r epoch).world ∧
      w.Preserves none (w.beginRegistration f left run r epoch).world := by
  have hleads := LeadsTo.beginRegistration w f left run r epoch
  have hpeople := h.people.leads hleads
  have hquiet := hleads.timersQuiet h.quiet
  obtain ⟨j, l, r', w', hstarts, hrun⟩ := World.run_of_isJoint hr ⟨f, epoch⟩ w
  unfold World.beginRegistration at hpeople hquiet ⊢
  rw [hrun] at hpeople hquiet ⊢
  have hrows (i : Joint) (hi : w.sides i ≠ []) : w.SameRow i w' := hstarts.rows i fun he => hi (he ▸ hstarts.fresh)
  exact ⟨h.start hr hstarts hpeople hquiet, fun i hi _ => hrows i hi, fun i hi => (hrows i hi).sides,
    fun _ _ _ => hstarts.parked⟩

/-! ## Ends -/

/-- Rows change in which no callback appears and no fiber is exchanged. -/
theorem change (h : Moment.Joined reserved before ⟨w, a⟩) {races : Table Race} {pairings : Table Pairing}
    (hw' : w' = { w with stores := { w.stores with races := races, pairings := pairings } })
    (hholder : ∀ i, w'.holder? i = w.holder? i ∨ w'.holder? i = none) (hsides : ∀ i, w'.sides i = w.sides i) :
    Moment.Joined reserved w' ⟨w', a⟩ := by
  have hheld {i : Joint} {callback : Callback} (hi : w'.holder? i = some callback) : w.holder? i = some callback := by
    rcases hholder i with hsame | hnone
    · exact hsame.symm.trans hi
    · cases hnone.symm.trans hi
  have hfibers (f : FiberId) : w'.fiber? f = w.fiber? f := by
    rw [hw']
    rfl
  have hholds {callback : Callback} (hc : w.Holds callback) : w'.Holds callback :=
    hc.of_record (congrArg (Option.map Fiber.core) (hfibers _))
  have hquiet : w'.TimersQuiet := by
    rw [hw']
    exact ⟨h.quiet.loop, h.quiet.aside⟩
  refine ⟨h.people.requested ?_, hquiet, ?_, fun callback hreserves => ?_,
    fun i callback hi => hholds (h.holds i _ (hheld hi)),
    fun f left run r epoch hm hr => hholds (h.joining f left run r epoch hm hr),
    fun f left run r epoch hm i hi => h.unheld f left run r epoch hm i (hheld hi),
    fun i k callback hi hk => h.single i k callback (hheld hi) (hheld hk), fun f i side hf => ?_, rfl, rfl,
    fun _ _ _ _ _ hparked => Or.inl (Or.inl hparked)⟩
  · rw [hw']
    exact .stores w _
  · rw [hw']
    exact h.confined.withStores ⟨h.confined.stores.cells, h.confined.stores.deferreds, h.confined.stores.queues,
      fun _ _ _ => False.elim, fun _ _ _ => False.elim, fun _ _ => trivial⟩
  · cases hreserves with
    | held hi => exact h.reserves _ (.held (hheld hi))
    | joining hm hr => exact h.reserves _ (.joining hm hr)
    | future hlt =>
      refine h.reserves _ (.future ?_)
      rwa [World.epoch, hfibers] at hlt
  · rw [hsides]
    refine h.sides f i side (hf.imp_left fun hhook => ?_)
    rwa [World.hook?, hfibers] at hhook

section Exiting

variable {x : Exit Value Value} {hook : ExitHook} {callback : Callback}

/-- A callback that a race or a pairing has given up is reserved no longer. -/
theorem not_reserves_of_ends (h : Moment.Joined reserved before ⟨w, .exiting f x hook⟩)
    (hj : w.holder? j = some callback) (hends : w.Ends j w') : ¬ Moment.Reserves ⟨w', .exiting f x hook⟩ callback := by
  intro hreserves
  cases hreserves with
  | @held i callback hi =>
    have hi : w'.holder? i = some callback := hi
    by_cases hij : i = j
    · subst hij
      cases hends.holder.symm.trans hi
    · exact hij (h.single i j callback ((hends.rows i hij).holder?.symm.trans hi) hj)
  | joining hm => cases hm
  | future hlt =>
    obtain ⟨row, hrow, hholds⟩ := h.holds j callback hj
    obtain ⟨races, pairings, rfl⟩ := hends.stores
    have hepoch : w.epoch callback.fiber = row.epoch := World.epoch_of_fiber? hrow
    exact absurd hholds.le (Nat.not_le_of_lt (hepoch ▸ hlt))

/-- A race or a pairing gives its callback up, and something is done by somebody who knows that one. -/
theorem close (h : Moment.Joined reserved before ⟨w, .exiting f x hook⟩) (hj : w.holder? j = some callback)
    (hends : w.Ends j w') {act : Act Unit}
    (hact : ∀ known : Callback → Prop, ¬ known callback → Attending known Unit act fun _ => True)
    (hpeople : Moment.Peopled ⟨act.attempt w', .idle⟩) :
    ∃ known before, Moment.Joined known before ⟨act.attempt w', .idle⟩ ∧ w.Preserves (some j) before := by
  obtain ⟨races, pairings, hw'⟩ := id hends.stores
  have hchanged : Moment.Joined reserved w' ⟨w', .exiting f x hook⟩ := by
    refine h.change hw' (fun i => ?_) fun i => ?_
    · by_cases hij : i = j
      · exact Or.inr (hij ▸ hends.holder)
      · exact Or.inl (hends.rows i hij).holder?
    · by_cases hij : i = j
      · exact hij ▸ hends.sides
      · exact (hends.rows i hij).sides
  have hknown := h.not_reserves_of_ends hj hends
  exact ⟨_, w', (hchanged.rescope.attempt (hact _ hknown)).told hpeople,
    .of_stores hw' hj hends.rows hends.sides⟩

/-- A fiber of a race tells its exit. -/
theorem finishRace {r : RaceId} {side : Side} (h : Moment.Joined reserved w ⟨w, .exiting f x (.race r side)⟩) :
    ∃ known before, Moment.Joined known before ⟨w.finishRace r side x, .idle⟩ ∧
      w.Preserves (some (.race r)) before := by
  have hpeople : Moment.Peopled ⟨w.finishRace r side x, .idle⟩ := h.people.leads (LeadsTo.next h.quiet)
  have hsame (he : w.finishRace r side x = w) : ∃ known before,
      Moment.Joined known before ⟨w.finishRace r side x, .idle⟩ ∧ w.Preserves (some (.race r)) before := by
    rw [he] at hpeople ⊢
    exact ⟨_, w, h.told hpeople, .refl _ w⟩
  cases hrow : w.race? r with
  | none => exact hsame (by rw [World.finishRace, hrow])
  | some row =>
    cases hcallback : row.callback with
    | none => exact hsame (World.finishRace_of_ended hrow hcallback side x)
    | some callback =>
      have hj : w.holder? (.race r) = some callback := by rw [World.holder?, hrow, Option.bind_some, hcallback]
      have hdone : w.finishRace r side x = (do
          Act.update (World.interruptAll (row.fibers.eraseIdx side.index))
          Act.update (World.settle callback x)).attempt (w.modifyRace r fun row => { row with callback := none }) :=
        World.finishRace_of_open hrow hcallback side x
      rw [hdone] at hpeople ⊢
      exact h.close hj (World.ends_modifyRace w r)
        (fun known hknown => Tracks.bind (Tracks.interruptAll _) fun _ _ => Tracks.settle hknown fun _ _ => trivial) hpeople

/-- A fiber of a pairing tells its exit. -/
theorem finishPairing {p : PairingId} {side : Side} (h : Moment.Joined reserved w ⟨w, .exiting f x (.parZip p side)⟩) :
    ∃ known before, Moment.Joined known before ⟨w.finishPairing p side x, .idle⟩ ∧
      w.Preserves (some (.pairing p)) before := by
  have hpeople : Moment.Peopled ⟨w.finishPairing p side x, .idle⟩ := h.people.leads (LeadsTo.next h.quiet)
  have hsame (he : w.finishPairing p side x = w) : ∃ known before,
      Moment.Joined known before ⟨w.finishPairing p side x, .idle⟩ ∧ w.Preserves (some (.pairing p)) before := by
    rw [he] at hpeople ⊢
    exact ⟨_, w, h.told hpeople, .refl _ w⟩
  cases hrow : w.pairing? p with
  | none => exact hsame (by rw [World.finishPairing, hrow])
  | some row =>
    cases hcallback : row.callback with
    | none => exact hsame (World.finishPairing_of_ended hrow hcallback side x)
    | some callback =>
      have hj : w.holder? (.pairing p) = some callback := by rw [World.holder?, hrow, Option.bind_some, hcallback]
      have hends (act : Act Unit) (hdone : w.finishPairing p side x =
            act.attempt (w.modifyPairing p fun row => { row with callback := none }))
          (hact : ∀ known : Callback → Prop, ¬ known callback → Attending known Unit act fun _ => True) :
          ∃ known before, Moment.Joined known before ⟨w.finishPairing p side x, .idle⟩ ∧
            w.Preserves (some (.pairing p)) before := by
        rw [hdone] at hpeople ⊢
        exact h.close hj (World.ends_modifyPairing w p) hact hpeople
      cases x with
      | cause c =>
        exact hends (do
            Act.update (World.interruptAll (row.fibers[side.other.index]?).toList)
            Act.update (World.settle callback (.cause c)))
          (World.finishPairing_of_cause hrow hcallback side c) fun known hknown => Tracks.bind
            (Tracks.interruptAll _) fun _ _ => Tracks.settle hknown fun _ _ => trivial
      | value v =>
        cases hother : row.value? side.other with
        | none =>
          have hstored := World.finishPairing_of_first hrow hcallback side hother v
          rw [hstored] at hpeople ⊢
          have hfibers (row : Pairing) : (row.store side v).fibers = row.fibers := by cases side <;> rfl
          refine ⟨_, _, (h.change rfl (fun i => Or.inl ?_) fun i => ?_).told hpeople,
            .of_stores rfl hj (fun i hi => World.sameRow_modifyPairing hi w _) (World.sides_modifyPairing w p hfibers)⟩
          · by_cases hi : i = .pairing p
            · exact hi ▸ World.holder?_store w p side v
            · exact (World.sameRow_modifyPairing hi w _).holder?
          · by_cases hi : i = .pairing p
            · exact hi ▸ World.sides_modifyPairing w p hfibers
            · exact (World.sameRow_modifyPairing hi w _).sides
        | some v' =>
          exact hends (Act.update (World.deliverCombined callback row.combine (side.pick v v').1 (side.pick v v').2))
            (World.finishPairing_of_second hrow hcallback side hother v) fun known hknown => Tracks.deliverCombined hknown
              (fun _ _ => trivial) (fun _ _ => trivial) fun _ _ => trivial

end Exiting

/-! ## Moments -/

/-- Races and pairings are in order at the next moment. -/
theorem next (h : m.Joined m.Reserves m.world) :
    ∃ known before, m.next.Joined known before ∧ m.world.Preserves m.activity.ended? before := by
  by_cases hjoint : m.activity.joint = true
  · obtain ⟨w, a⟩ := m
    cases a with
    | registering f left run r epoch =>
      obtain ⟨hjoined, hpreserves⟩ := h.beginRegistration_of_joint hjoint
      exact ⟨_, _, hjoined, hpreserves⟩
    | exiting f x hook =>
      cases hook with
      | race r side => exact h.finishRace
      | parZip p side => exact h.finishPairing
      | _ => cases hjoint
    | _ => cases hjoint
  · exact ⟨_, _, h.next_of_other (Bool.eq_false_iff.2 hjoint), .refl _ _⟩

end Moment.Joined

namespace Scene

variable {s : Scene} {stroke : Stroke} {j : Joint}

/-- What is ended or told about by a stroke. -/
def ended? (s : Scene) : Stroke → Option Joint
  | .next => s.moment.activity.ended?
  | _ => none

theorem joined_play (h : s.moment.Joined s.moment.Reserves s.moment.world) (stroke : Stroke) : ∃ known before,
    (s.play stroke).moment.Joined known before ∧ s.moment.world.Preserves (s.ended? stroke) before := by
  by_cases hnext : stroke = .next
  · subst hnext
    exact h.next
  · exact ⟨_, _, joined_play_of_other h fun he => absurd he hnext, .refl _ _⟩

theorem joined_after (h : s.moment.Joined s.moment.Reserves s.moment.world) (strokes : List Stroke) :
    (s.after strokes).moment.Joined (s.after strokes).moment.Reserves (s.after strokes).moment.world := by
  induction strokes generalizing s with
  | nil => exact h
  | cons stroke rest ih =>
    obtain ⟨known, before, hjoined, -⟩ := joined_play h stroke
    exact ih hjoined.rescope.rebase

/-- There are no races and no pairings when a session starts. -/
theorem joined_initial (config : Config) (definitions : List (Name × Definition)) :
    (initial config definitions).moment.Joined (initial config definitions).moment.Reserves
      (initial config definitions).moment.world := by
  have hholder (j : Joint) (callback : Callback) : (initial config definitions).moment.world.holder? j ≠ some callback := by
    cases j <;> nofun
  exact {
    people := fun f => ⟨_, (Reachable.initial config definitions).accounted f⟩
    quiet := (Reachable.initial config definitions).timersQuiet
    confined := {
      loop := ⟨nofun, nofun⟩
      aside := ⟨nofun, nofun⟩
      fibers := fun _ _ hr => nomatch hr
      notices := fun _ _ hnotice => nomatch hnotice
      hidden := fun _ hf => absurd trivial hf
      stale := fun _ _ _ _ hf => absurd trivial hf
      stores := ⟨nofun, nofun, nofun, nofun, nofun, fun _ _ => trivial⟩
      session := ⟨nofun, nofun, nofun⟩ }
    reserves := fun _ => id
    holds := fun j callback hj => absurd hj (hholder j callback)
    joining := nofun
    unheld := nofun
    single := fun i _ callback hi => absurd hi (hholder i callback)
    sides := fun _ _ _ hf => hf.elim nofun nofun
    races := rfl
    pairings := rfl
    parked := fun j callback _ _ hj => absurd hj (hholder j callback) }

/-- **Races and pairings are in order at every moment of every run.** -/
theorem Occurs.joined (h : s.Occurs) : s.moment.Joined s.moment.Reserves s.moment.world := by
  obtain ⟨config, definitions, strokes, rfl⟩ := h
  exact joined_after (joined_initial config definitions) strokes

/-- **Nobody touches the row of a race or a pairing, unless its own fibers tell their exits before it has ended.** -/
theorem Occurs.rows_play (h : s.Occurs) (hj : s.moment.world.sides j ≠ [])
    (hstroke : s.ended? stroke = some j → s.moment.world.holder? j = none) :
    s.moment.world.SameRow j (s.play stroke).moment.world := by
  obtain ⟨known, before, hjoined, hpreserves⟩ := joined_play h.joined stroke
  exact (hpreserves.rows j hj hstroke).trans (.of_tables hjoined.races hjoined.pairings j)

theorem Occurs.sides_play (h : s.Occurs) (hj : s.moment.world.sides j ≠ []) (stroke : Stroke) :
    (s.play stroke).moment.world.sides j = s.moment.world.sides j := by
  obtain ⟨known, before, hjoined, hpreserves⟩ := joined_play h.joined stroke
  exact (World.sides_congr hjoined.races hjoined.pairings j).trans (hpreserves.sides j hj)

/-- **Who is parked for a race or a pairing stays parked, unless it is interrupted or a fiber of the race or pairing
tells its exit.** -/
theorem Occurs.remains_play {callback : Callback} {run : Run} {canceler : Canceler} (h : s.Occurs)
    (hj : s.moment.world.holder? j = some callback) (hparked : s.moment.world.Parked callback run canceler)
    (hsides : s.moment.world.sides j ≠ []) (hstroke : s.ended? stroke ≠ some j) :
    (s.play stroke).moment.Remains callback run canceler := by
  obtain ⟨known, before, hjoined, hpreserves⟩ := joined_play h.joined stroke
  refine hjoined.parked j callback run canceler ?_ (hpreserves.parked callback run canceler hparked)
  rw [(hpreserves.rows j hsides fun he => absurd he hstroke).holder?]
  exact hj

end Scene

end FiberLoop
