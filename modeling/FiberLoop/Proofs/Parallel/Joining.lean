import FiberLoop.Proofs.Deferreds.Tidying
import FiberLoop.Proofs.Parallel.Joints

/-!
# Races and pairings in every run

At every moment of a run the callback of a race or a pairing is known to nobody else, its fiber waits with it unless
it was interrupted, and only the two fibers of the race or pairing may end it. Whatever happens besides the start and
the end of one leaves all of them as they are.

The main result of this module is `Scene.joined_play_of_other`: every stroke but these two keeps this up and changes
no row.
-/

namespace FiberLoop

open World

/-- Whether a race or a pairing is started or ended next. -/
def Activity.joint : Activity → Bool
  | .registering _ _ _ r _ => r.isJoint
  | .exiting _ _ hook => hook.joint?.isSome
  | _ => false

/-- The callbacks that only races and pairings may know: those that they hold, that of a fiber which is about to start
one, and those of registrations to come. -/
inductive Moment.Reserves (m : Moment) : Callback → Prop where
  | held {j : Joint} {callback : Callback} (h : m.world.holder? j = some callback) : Reserves m callback
  | joining {f : FiberId} {left : Nat} {run : Run} {r : Registration} {epoch : Nat}
    (h : m.activity = .registering f left run r epoch) (hr : r.isJoint = true) : Reserves m ⟨f, epoch⟩
  | future {callback : Callback} (h : m.world.epoch callback.fiber < callback.epoch) : Reserves m callback

/-- What becomes of the exit of a fiber that has not told it yet. -/
def Moment.Hooked (f : FiberId) (hook : ExitHook) (m : Moment) : Prop :=
  m.world.hook? f = some hook ∨ ∃ x, m.activity = .exiting f x hook

/-- A fiber that was parked with a callback still is, or it was interrupted: it is about to cancel what it waited for,
or in the middle of that. -/
def Moment.Remains (callback : Callback) (run : Run) (canceler : Canceler) (m : Moment) : Prop :=
  m.world.Remains callback run canceler ∨ ∃ left, m.activity = .canceling callback.fiber left run canceler

/-- Races and pairings are in order, and the reserved callbacks are held by nobody else. The rows are those of a world
before. -/
structure Moment.Joined (reserved : Callback → Prop) (before : World) (m : Moment) : Prop where
  people : m.Peopled
  quiet : m.world.TimersQuiet
  confined : m.world.Confined (.reserving reserved)
  reserves : ∀ callback, m.Reserves callback → reserved callback
  /-- Who waits for a race or a pairing goes on waiting until it has ended, or is interrupted. -/
  holds : ∀ j callback, m.world.holder? j = some callback → m.world.Holds callback
  /-- Who is about to start one has been given no result. -/
  joining : ∀ f left run r epoch, m.activity = .registering f left run r epoch → r.isJoint = true →
    m.world.Holds ⟨f, epoch⟩
  /-- The callback of a registration that has just begun is held by nobody. -/
  unheld : ∀ f left run r epoch, m.activity = .registering f left run r epoch → ∀ j, m.world.holder? j ≠ some ⟨f, epoch⟩
  single : ∀ i j callback, m.world.holder? i = some callback → m.world.holder? j = some callback → i = j
  /-- Only its two fibers may end a race or a pairing. -/
  sides : ∀ f j side, m.Hooked f (j.hook side) → (m.world.sides j)[side.index]? = some f
  races : m.world.stores.races = before.stores.races
  pairings : m.world.stores.pairings = before.stores.pairings
  /-- Who was parked for a race or a pairing has been given no result. -/
  parked : ∀ j callback run canceler, before.holder? j = some callback → before.Parked callback run canceler →
    m.Remains callback run canceler

section Joining

variable {reserved : Callback → Prop} {before : World} {m m' : Moment} {w w' : World} {a a' : Activity} {f : FiberId}
  {left : Nat} {run : Run} {s : Stand} {r : Registration} {epoch : Nat} {canceler : Canceler} {x : Exit Value Value}
  {hook : ExitHook} {phase : Phase}

/-- A fiber in a phase in which it does not wait was interrupted in the wait that it has left. -/
theorem Fiber.Holds.past_of_phase {row : Fiber} (h : row.Holds epoch) (hrow : w.fiber? f = some row)
    (hphase : w.phase? f = some phase) (hwaits : phase.waits = false) :
    epoch < row.epoch ∧ row.interruptRequested = true := by
  refine h.past fun _ => ?_
  rw [phase?, hrow] at hphase
  cases hphase
  exact hwaits

theorem Moment.hooked_of_activity {g : FiberId} (h : Moment.Hooked g hook ⟨w, a⟩)
    (ha : ∀ f x hook, a ≠ .exiting f x hook) : w.hook? g = some hook :=
  h.resolve_right fun ⟨x, hx⟩ => ha g x hook hx

theorem Moment.remains_of_activity {callback : Callback} (h : Moment.Remains callback run canceler ⟨w, a⟩)
    (ha : ∀ f left run canceler, a ≠ .canceling f left run canceler) : w.Remains callback run canceler :=
  h.resolve_right fun ⟨left, hc⟩ => ha callback.fiber left run canceler hc

/-- Between two tasks hooks are in the records only. -/
theorem Moment.hooked_of_idle {g : FiberId} (h : Moment.Hooked g hook ⟨w, .idle⟩) : w.hook? g = some hook :=
  hooked_of_activity h fun _ _ _ => Activity.noConfusion

/-- Between two tasks no canceler runs. -/
theorem Moment.remains_of_idle {callback : Callback} (h : Moment.Remains callback run canceler ⟨w, .idle⟩) :
    w.Remains callback run canceler := remains_of_activity h fun _ _ _ _ => Activity.noConfusion

namespace Moment.Joined

/-! ## What keeps a moment in order -/

theorem rebase (h : m.Joined reserved before) : m.Joined reserved m.world :=
  { h with races := rfl, pairings := rfl, parked := fun _ _ _ _ _ hparked => Or.inl (Or.inl hparked) }

/-- No row changes, and who waits goes on waiting. -/
theorem shift (h : m.Joined reserved before) (hpeople : m'.Peopled) (hquiet : m'.world.TimersQuiet)
    (hconfined : m'.world.Confined (.reserving reserved)) (hraces : m'.world.stores.races = m.world.stores.races)
    (hpairings : m'.world.stores.pairings = m.world.stores.pairings)
    (hholds : ∀ j callback, m.world.holder? j = some callback → m.world.Holds callback → m'.world.Holds callback)
    (hhook : ∀ f hook, m'.Hooked f hook → m.Hooked f hook ∨ hook.joint? = none)
    (hepoch : ∀ f, m.world.epoch f ≤ m'.world.epoch f)
    (hregistering : ∀ f left run r epoch, m'.activity = .registering f left run r epoch →
      (m.activity = .registering f left run r epoch ∨ m.world.epoch f < epoch) ∧
        (r.isJoint = true → m'.world.Holds ⟨f, epoch⟩))
    (hremains : ∀ callback run canceler, reserved callback → before.Parked callback run canceler →
      m.Remains callback run canceler → m'.Remains callback run canceler) : m'.Joined reserved before := by
  have hholder := holder?_congr hraces hpairings
  refine ⟨hpeople, hquiet, hconfined, fun callback hreserves => ?_, fun j callback hj => ?_,
    fun f left run r epoch hm hr => (hregistering f left run r epoch hm).2 hr, fun f left run r epoch hm j hj => ?_,
    fun i j callback hi hj => ?_, fun f j side hf => ?_, hraces.trans h.races, hpairings.trans h.pairings,
    fun j callback run canceler hj hparked => ?_⟩
  · cases hreserves with
    | held hj => exact h.reserves _ (.held ((hholder _).symm.trans hj))
    | joining hm hr =>
      rcases (hregistering _ _ _ _ _ hm).1 with hm | hlt
      · exact h.reserves _ (.joining hm hr)
      · exact h.reserves _ (.future hlt)
    | future hlt => exact h.reserves _ (.future (Nat.lt_of_le_of_lt (hepoch _) hlt))
  · rw [hholder] at hj
    exact hholds j callback hj (h.holds j callback hj)
  · rw [hholder] at hj
    rcases (hregistering _ _ _ _ _ hm).1 with hm | hlt
    · exact h.unheld _ _ _ _ _ hm j hj
    · obtain ⟨row, hrow, hrowholds⟩ := h.holds j _ hj
      rw [epoch_of_fiber? hrow] at hlt
      exact Nat.lt_irrefl _ (Nat.lt_of_le_of_lt hrowholds.le hlt)
  · exact h.single i j callback ((hholder i).symm.trans hi) ((hholder j).symm.trans hj)
  · rw [sides_congr hraces hpairings]
    refine h.sides f j side ((hhook f _ hf).resolve_right fun hnone => ?_)
    rw [ExitHook.joint?_eq_some_iff.2 ⟨side, rfl⟩] at hnone
    cases hnone
  · have hheld : m.world.holder? j = some callback := (holder?_congr h.races h.pairings j).trans hj
    exact hremains callback run canceler (h.reserves _ (.held hheld)) hparked (h.parked j callback run canceler hj hparked)

/-- Something is done by somebody who knows no reserved callback. -/
theorem attends (h : Moment.Joined reserved before ⟨w, a⟩) (hconfined : w'.Confined (.reserving reserved))
    (hattends : w.Attends reserved w') : Moment.Joined reserved before ⟨w', a⟩ := by
  obtain ⟨es, hrequests⟩ := hattends.requested
  refine h.shift (h.people.requested ⟨es, hrequests⟩) (h.quiet.requests hrequests) hconfined hattends.races
    hattends.pairings (fun j callback hj => hattends.holds (h.reserves _ (.held hj))) (fun f hook hf => ?_)
    (epoch_le_of_requested ⟨es, hrequests⟩) (fun f left run r epoch hm =>
      ⟨Or.inl hm, fun hr => hattends.holds (h.reserves _ (.joining hm hr)) (h.joining f left run r epoch hm hr)⟩)
    fun callback run canceler hreserved _ hremains => hremains.imp_left (hattends.remains hreserved)
  rcases hf with hf | hf
  · exact (hattends.hook hf).imp_left Or.inl
  · exact Or.inl (Or.inr hf)

theorem caught (h : Moment.Joined reserved before ⟨w, a⟩) {α : Type} {act : Act α} {Q : α → Prop}
    (hact : Attending reserved α act Q) :
    Moment.Joined reserved before ⟨(act.caught w).2, a⟩ ∧ ∀ x, (act.caught w).1 = .ok x → Q x := by
  obtain ⟨⟨hconfined, hattends⟩, hresult⟩ := hact.caught h.confined
  exact ⟨h.attends hconfined hattends, hresult⟩

theorem attempt (h : Moment.Joined reserved before ⟨w, a⟩) {α : Type} {act : Act α} {Q : α → Prop}
    (hact : Attending reserved α act Q) : Moment.Joined reserved before ⟨act.attempt w, a⟩ := (h.caught hact).1

/-- A fiber goes on in the same world. -/
theorem become (h : Moment.Joined reserved before ⟨w, a⟩) (hpeople : Moment.Peopled ⟨w, a'⟩)
    (hexit : ∀ f x hook, a' ≠ .exiting f x hook) (hregistering : ∀ f left run r epoch, a' ≠ .registering f left run r epoch)
    (hcanceling : ∀ callback left run canceler, a = .canceling callback.fiber left run canceler →
      ¬ before.Parked callback run canceler) :
    Moment.Joined reserved before ⟨w, a'⟩ :=
  h.shift hpeople h.quiet h.confined rfl rfl (fun _ _ _ => id)
    (fun _ _ hf => Or.inl (Or.inl (Moment.hooked_of_activity hf hexit))) (fun _ => Nat.le_refl _)
    (fun f left run r epoch hm => absurd hm (hregistering f left run r epoch))
    fun callback run canceler _ hparked hremains => Or.inl (hremains.resolve_right fun ⟨left, ha⟩ =>
      hcanceling callback left run canceler ha hparked)

/-- A fiber that has told its exit is done. -/
theorem told (h : Moment.Joined reserved before ⟨w, .exiting f x hook⟩) (hpeople : Moment.Peopled ⟨w, .idle⟩) :
    Moment.Joined reserved before ⟨w, .idle⟩ :=
  h.become hpeople (fun _ _ _ => Activity.noConfusion) (fun _ _ _ _ _ => Activity.noConfusion)
    fun _ _ _ _ => Activity.noConfusion

/-- The record of a fiber changes, and nothing is queued. -/
theorem modify (h : Moment.Joined reserved before ⟨w, a⟩) {change : Fiber → Fiber}
    (hpeople : Moment.Peopled ⟨w.modifyFiber f change, a'⟩) (hnotice : ∀ r : Fiber, (change r).notice = r.notice)
    (hepoch : ∀ r : Fiber, r.epoch ≤ (change r).epoch)
    (hholds : ∀ row j epoch, w.fiber? f = some row → w.holder? j = some ⟨f, epoch⟩ → row.Holds epoch →
      (change row).Holds epoch)
    (hhook : ∀ g hook, Moment.Hooked g hook ⟨w.modifyFiber f change, a'⟩ → Moment.Hooked g hook ⟨w, a⟩)
    (hregistering : ∀ g left run r epoch, a' = .registering g left run r epoch →
      w.epoch g < epoch ∧ (w.modifyFiber f change).Holds ⟨g, epoch⟩)
    (hawake : ∀ run canceler, w.phase? f ≠ some (.suspended run canceler))
    (hcanceling : ∀ g left run canceler, a ≠ .canceling g left run canceler) :
    Moment.Joined reserved before ⟨w.modifyFiber f change, a'⟩ := by
  refine h.shift hpeople (h.quiet.modifyFiber f change)
    (h.confined.modifyPhase f change (fun _ _ _ _ _ => trivial) hnotice hepoch) rfl rfl
    (fun j callback hj hc => hc.modifyFiber f fun row hrow hf => ?_) (fun g hook hg => Or.inl (hhook g hook hg))
    (epoch_le_modifyFiber f hepoch w) (fun g left run r epoch hm =>
      ⟨Or.inr (hregistering g left run r epoch hm).1, fun _ => (hregistering g left run r epoch hm).2⟩)
    fun callback run canceler _ _ hremains => Or.inl
      ((Moment.remains_of_activity hremains hcanceling).modifyFiber change hawake)
  subst hf
  exact hholds row j _ hrow hj

/-- A change of a fiber that does not wait, in the same epoch or a later one. -/
theorem modify_of_phase (h : Moment.Joined reserved before ⟨w, a⟩) {change : Fiber → Fiber}
    (hpeople : Moment.Peopled ⟨w.modifyFiber f change, a'⟩) (hnotice : ∀ r : Fiber, (change r).notice = r.notice)
    (hepoch : ∀ r : Fiber, r.epoch ≤ (change r).epoch)
    (hflag : ∀ r : Fiber, (change r).interruptRequested = r.interruptRequested)
    (hphase : w.phase? f = some phase) (hwaits : phase.waits = false)
    (hhook : ∀ g hook, Moment.Hooked g hook ⟨w.modifyFiber f change, a'⟩ → Moment.Hooked g hook ⟨w, a⟩)
    (hregistering : ∀ g left run r epoch, a' = .registering g left run r epoch →
      w.epoch g < epoch ∧ (w.modifyFiber f change).Holds ⟨g, epoch⟩)
    (hcanceling : ∀ g left run canceler, a ≠ .canceling g left run canceler) :
    Moment.Joined reserved before ⟨w.modifyFiber f change, a'⟩ := by
  refine h.modify hpeople hnotice hepoch (fun row j epoch hrow hj hholds => ?_) hhook hregistering
    (fun run canceler hsuspended => ?_) hcanceling
  · obtain ⟨hlt, hrequested⟩ := hholds.past_of_phase hrow hphase hwaits
    exact Or.inr ⟨Nat.lt_of_lt_of_le hlt (hepoch row), (hflag row).trans hrequested⟩
  · cases hphase.symm.trans hsuspended
    cases hwaits

/-- A change that leaves the hook alone shows the hooks as before. -/
theorem hooked_modifyFiber {g : FiberId} {change : Fiber → Fiber} (hchange : ∀ r, (change r).hook = r.hook)
    (ha : ∀ f x hook, a' ≠ .exiting f x hook) (h : Moment.Hooked g hook ⟨w.modifyFiber f change, a'⟩) :
    Moment.Hooked g hook ⟨w, a⟩ :=
  Or.inl ((hook?_modifyFiber w f g hchange).symm.trans (Moment.hooked_of_activity h ha))

/-! ## A fiber that runs -/

theorem yield (h : Moment.Joined reserved before ⟨w, .running f 0 s⟩) :
    Moment.Joined reserved before ⟨w.dispatch (.resume f s.run s.next), .idle⟩ := by
  have hleads : LeadsTo ⟨w, .running f 0 s⟩ ⟨w.dispatch (.resume f s.run s.next), .idle⟩ := .single (.yield w f s)
  exact h.shift (h.people.leads hleads) (hleads.timersQuiet h.quiet)
    (h.confined.dispatch fun _ => ⟨fun _ _ => trivial, fun _ _ => trivial⟩) rfl rfl (fun _ _ _ => id)
    (fun _ _ hf => Or.inl (Or.inl (Moment.hooked_of_idle hf))) (fun _ => Nat.le_refl _) nofun
    fun callback run canceler _ _ hremains =>
      Or.inl ((Moment.remains_of_activity hremains nofun).mono (.dispatch w _) rfl)

/-- A fiber goes on running in the same world. -/
theorem goOn {left' : Nat} {s' : Stand} (h : Moment.Joined reserved before ⟨w, .running f left s⟩)
    (hpeople : Moment.Peopled ⟨w, .running f left' s'⟩) : Moment.Joined reserved before ⟨w, .running f left' s'⟩ :=
  h.become hpeople nofun nofun nofun

theorem act (h : Moment.Joined reserved before ⟨w, .running f (left + 1) s⟩) :
    Moment.Joined reserved before (w.act f left s) := by
  have hpeople := h.people.leads (.act w f left s)
  obtain ⟨p, hp⟩ := h.people.fits rfl
  obtain ⟨home, hrecord⟩ := hp.record
  have hrunning : w.phase? f = some .running := by
    rw [hp.phase?_eq, hp.held.of_running.1]
    rfl
  unfold World.act at hpeople ⊢
  cases hdeed : s.deed with
  | move s' =>
    simp only [hdeed] at hpeople ⊢
    exact h.goOn hpeople
  | call c run =>
    simp only [hdeed] at hpeople ⊢
    split at hpeople
    · rename_i hcuts
      rw [if_pos hcuts]
      exact h.goOn hpeople
    · rename_i hcuts
      rw [if_neg hcuts]
      exact (h.caught (TracksAll.call c)).1.goOn hpeople
  | register registration =>
    simp only [hdeed] at hpeople ⊢
    split at hpeople
    · rename_i hpending
      rw [if_pos hpending]
      exact h.goOn hpeople
    · rename_i hpending
      rw [if_neg hpending]
      refine h.modify_of_phase hpeople (fun _ => rfl) (fun r => Nat.le_succ r.epoch) (fun _ => rfl) hrunning rfl
        (fun _ _ => hooked_modifyFiber (fun _ => rfl) nofun) ?_ nofun
      rintro g left' run r epoch hm
      cases hm
      have hrecord' := record_advanceEpoch hrecord (.registering none)
      obtain ⟨row, hrow, hcore⟩ := fiber?_of_record hrecord'
      refine ⟨?_, row, hrow, Or.inl ⟨(epoch_of_fiber? hrow).symm, ?_⟩⟩
      · show w.epoch f < (w.advanceEpoch f (.registering none)).epoch f
        rw [epoch_of_record hrecord', epoch_of_record hrecord]
        exact Nat.lt_succ_self _
      · rw [show row.phase = .registering none from congrArg Fiber.phase hcore]
        rfl
  | exit x =>
    have hhook : (w.fiber? f).bind (·.hook) = some p.hook := hp.hook_of_running
    simp only [hdeed, hhook] at hpeople ⊢
    refine h.modify_of_phase hpeople (fun _ => rfl) (fun r => Nat.le_refl r.epoch) (fun _ => rfl) hrunning rfl
      (fun g hook hg => ?_) nofun nofun
    rcases hg with hg | ⟨y, hg⟩
    · -- the record of the fiber itself has no hook any more
      by_cases hf : f = g
      · subst hf
        rw [hook?, fiber?_modifyFiber_self] at hg
        cases hrow : w.fiber? f with
        | none =>
          rw [hrow] at hg
          cases hg
        | some row =>
          rw [hrow] at hg
          cases hg
      · rw [hook?, fiber?_modifyFiber_of_ne hf] at hg
        exact Or.inl hg
    · cases hg
      exact Or.inl hhook

/-! ## Registrations -/

/-- A registration that starts no race and no pairing. -/
theorem beginRegistration_of_other (h : Moment.Joined reserved before ⟨w, .registering f left run r epoch⟩)
    (hr : r.isJoint = false) (hcallback : ¬ reserved ⟨f, epoch⟩) :
    Moment.Joined reserved before (w.beginRegistration f left run r epoch) := by
  have hpeople := h.people.leads (.beginRegistration w f left run r epoch)
  have hact : Attending reserved Canceler (r.run ⟨f, epoch⟩)
      fun c => c.In (.reserving reserved) ∧ (c.isWaiter = true → (Scope.reserving reserved).lines) :=
    Tracks.registration (fun _ _ => trivial) hcallback (fun _ => trivial) fun hjoint => absurd (hjoint.symm.trans hr) nofun
  obtain ⟨hjoined, hresult⟩ := h.caught hact
  unfold World.beginRegistration at hpeople ⊢
  cases hcaught : (r.run ⟨f, epoch⟩).caught w with
  | mk result v =>
    rw [hcaught] at hjoined hresult hpeople
    cases result with
    | error d =>
      obtain ⟨p, hp⟩ := hjoined.people.fits rfl
      obtain ⟨home, hrecord⟩ := hp.record
      obtain ⟨⟨early, hstanding⟩, -, hepoch⟩ := hp.held.of_registering
      refine hjoined.modify hpeople (fun _ => rfl) (fun r => Nat.le_succ r.epoch) (fun row j e hrow hj hholds => ?_)
        (fun _ _ => hooked_modifyFiber (fun _ => rfl) nofun) nofun (fun run canceler hsuspended => ?_) nofun
      · -- this registration is held by no race, so its fiber has left all those that are
        have hsame : row.epoch = epoch := by
          rw [← epoch_of_fiber? hrow, epoch_of_record hrecord, Place.epoch_record, hepoch]
        have hne : e ≠ epoch := fun he => hjoined.unheld f left run r epoch rfl j (he ▸ hj)
        obtain ⟨hlt, hrequested⟩ := hholds.resolve_left fun hwaits => hne (hwaits.1.symm.trans hsame)
        exact Or.inr ⟨Nat.lt_succ_of_lt hlt, hrequested⟩
      · rw [phase?_of_record hrecord, Place.phase_record, hstanding] at hsuspended
        cases hsuspended
    | ok canceler => exact hjoined.become hpeople nofun nofun nofun

theorem leaveRegistration (h : Moment.Joined reserved before ⟨w, .returning f left run canceler⟩) :
    Moment.Joined reserved before (w.leaveRegistration f left run canceler) := by
  have hpeople := h.people.leads (.leaveRegistration w f left run canceler)
  obtain ⟨p, hp⟩ := h.people.fits rfl
  have hreturning (g : FiberId) (left' : Nat) (run' : Run) (canceler' : Canceler) :
      Activity.returning f left run canceler ≠ .canceling g left' run' canceler' := Activity.noConfusion
  unfold World.leaveRegistration at hpeople ⊢
  split at hpeople
  · rename_i x hphase
    exact h.modify_of_phase hpeople (fun _ => rfl) (fun r => Nat.le_succ r.epoch) (fun _ => rfl) hphase rfl
      (fun _ _ => hooked_modifyFiber (fun _ => rfl) fun _ _ _ => Activity.noConfusion)
      (fun _ _ _ _ _ => Activity.noConfusion) hreturning
  · rename_i hphase
    have hawake (run : Run) (canceler : Canceler) : w.phase? f ≠ some (.suspended run canceler) := by
      intro hsuspended
      cases hphase.symm.trans hsuspended
    split at hpeople
    · rename_i hpending
      rw [if_pos hpending]
      refine h.modify hpeople (fun _ => rfl) (fun r => Nat.le_succ r.epoch) (fun row j e hrow hj hholds => ?_)
        (fun _ _ => hooked_modifyFiber (fun _ => rfl) fun _ _ _ => Activity.noConfusion)
        (fun _ _ _ _ _ => Activity.noConfusion) hawake hreturning
      rw [interruptPending, hrow] at hpending
      exact Or.inr ⟨Nat.lt_succ_of_le hholds.le, (Bool.and_eq_true_iff.1 hpending).2⟩
    · rename_i hpending
      rw [if_neg hpending]
      exact h.modify hpeople (fun _ => rfl) (fun r => Nat.le_refl r.epoch)
        (fun row j e hrow hj hholds => hholds.imp_left (And.imp_right fun _ => rfl))
        (fun _ _ => hooked_modifyFiber (fun _ => rfl) fun _ _ _ => Activity.noConfusion)
        (fun _ _ _ _ _ => Activity.noConfusion) hawake hreturning
  · rename_i hphase hphase'
    refine (hp.not_unexpected fun early hearly => ?_).elim
    cases early with
    | none => exact hphase' hearly
    | some x => exact hphase x hearly

theorem cancel (h : Moment.Joined reserved w ⟨w, .canceling f left run canceler⟩) :
    Moment.Joined reserved w ⟨canceler.cancel.attempt w, .running f left ⟨run, .cause .interrupted⟩⟩ := by
  have hact : Attending reserved Unit canceler.cancel fun _ => True :=
    Tracks.canceler (fun _ _ => trivial) fun _ => trivial
  refine (h.attempt hact).become (h.people.leads (LeadsTo.next h.quiet)) nofun nofun ?_
  -- who cancels a wait is parked no longer
  rintro callback left run canceler ha ⟨r, hr, -, hphase⟩
  obtain ⟨p, hp⟩ := h.people.fits (f := callback.fiber) (congrArg Activity.fiber? ha)
  obtain ⟨home, hrecord⟩ := hp.record
  have hheld := hp.held
  rw [ha] at hheld
  obtain ⟨ended, hstanding, -, -⟩ := hheld.of_canceling
  cases hr.symm.trans hrecord
  rw [Place.phase_record, hstanding] at hphase
  cases hphase

/-! ## Exits -/

/-- The exit of a fiber is recorded, and whoever waits for it is told. -/
theorem announce (h : Moment.Joined reserved before ⟨w, .exiting f x hook⟩) :
    Moment.Joined reserved before ⟨w.announce f x hook, .idle⟩ := by
  have hstores := stores_announce w f x hook
  refine h.shift h.people.announce (h.quiet.announce f x hook) (h.confined.announce f fun _ _ => trivial)
    (congrArg Stores.races hstores) (congrArg Stores.pairings hstores) (fun j callback hj hholds => ?_)
    (fun g hook' hg => Or.inl (Or.inl ?_)) (epoch_le_announce w f x hook)
    (fun _ _ _ _ _ => Activity.noConfusion) fun callback run canceler _ _ hremains => Or.inl ?_
  · unfold World.announce
    split
    · exact hholds.modifyFiber f fun _ _ _ hrow => hrow
    · exact hholds
  · have hg := Moment.hooked_of_idle hg
    unfold World.announce at hg
    split at hg
    · rwa [World.setNotice, hook?_modifyFiber] at hg
      exact fun _ => rfl
    · exact hg
  · have hrests := Moment.remains_of_activity hremains fun _ _ _ _ => Activity.noConfusion
    unfold World.announce
    split
    · refine hrests.modifyFiber _ fun run canceler hsuspended => ?_
      obtain ⟨p, hp⟩ := h.people.fits rfl
      rw [hp.phase?_eq, hp.held.of_exiting.1] at hsuspended
      cases hsuspended
    · exact hrests

/-- An exit is told that ends no race and no pairing. -/
theorem tell_of_other (h : Moment.Joined reserved before ⟨w, .exiting f x hook⟩) (hhook : hook.joint? = none) :
    Moment.Joined reserved before ⟨(hook.run f x).attempt w, .idle⟩ := by
  obtain ⟨act, hact, hrun⟩ := ExitHook.run_eq_announce (J := Attending reserved) h.confined f
    (fun _ _ => trivial : Value.ExitIn _ x) hook fun j hj => nomatch hhook.symm.trans hj
  rw [hrun]
  exact h.announce.attempt hact

/-! ## Between two tasks -/

/-- The loops go on with no fiber. -/
theorem tend (h : Moment.Joined reserved before ⟨w, .idle⟩) {loop aside : EventLoop} (here : LoopName) (clock : Nat)
    (hloop : loop.In (.reserving reserved)) (haside : aside.In (.reserving reserved)) (hquiet : loop.TimersQuiet)
    (hquiet' : aside.TimersQuiet) (htokens : ∀ g, (loop.tokens g ++ aside.tokens g).Perm (w.tokens g)) :
    Moment.Joined reserved before ⟨{ w with loop := loop, here := here, aside := aside, clock := clock }, .idle⟩ :=
  h.shift (fun g => (h.people g).alike ⟨rfl, htokens g, rfl⟩) ⟨hquiet, hquiet'⟩
    (h.confined.besides hloop haside h.confined.stores h.confined.session here clock w.caughtThrows) rfl rfl
    (fun _ _ _ => id) (fun _ _ hg => Or.inl (Or.inl (Moment.hooked_of_idle hg))) (fun _ => Nat.le_refl _) nofun
    fun _ _ _ _ _ hremains => Or.inl ((Moment.remains_of_idle hremains).imp id fun ht => (htokens _).symm.subset ht)

theorem errand (h : Moment.Joined reserved before ⟨w, .idle⟩) {task : Task} (htask : task.In (.reserving reserved))
    (herrand : task.isErrand = true) : Moment.Joined reserved before ⟨w.runTask task, .idle⟩ := by
  cases task with
  | succeed callback v => exact h.attends (h.confined.settle callback htask.2) (.settle w htask.1 (.value v))
  | actions list env => exact h.attempt (Tracks.actions (J := Attending reserved) htask Scope.noCallback list)
  | _ => cases herrand

theorem steady : World.Steady (.reserving reserved) fun w => Moment.Joined reserved before ⟨w, .idle⟩ where
  confined h := h.confined
  quiet h := h.quiet
  tend here clock h := h.tend here clock
  errand h := h.errand

/-- A fiber is taken up. -/
theorem takeUp (h : Moment.Joined reserved before ⟨w, .idle⟩) {t : Task} {rest : List Message}
    (hinbox : w.loop.inbox = .task t :: rest) (hpeople : Moment.Peopled ⟨w.dropMessage, a⟩)
    (hexit : ∀ f x hook, a ≠ .exiting f x hook) (hregistering : ∀ f left run r epoch, a ≠ .registering f left run r epoch)
    (hunwind : ∀ f canceler run, t = .unwind f canceler run → ∃ left, a = .canceling f left run canceler) :
    Moment.Joined reserved before ⟨w.dropMessage, a⟩ :=
  h.shift hpeople h.quiet.drop (Steady.confined_dropMessage h.confined) rfl rfl (fun _ _ _ => id)
    (fun _ _ hf => Or.inl (Or.inl (Moment.hooked_of_activity hf hexit))) (fun _ => Nat.le_refl _)
    (fun f left run r epoch hm => absurd hm (hregistering f left run r epoch))
    fun _ _ _ _ _ hremains =>
      ((Moment.remains_of_idle hremains).dropMessage hinbox).imp_right fun ht => hunwind _ _ _ ht

theorem takeStart (h : Moment.Joined reserved before ⟨w, .idle⟩) {rest : List Message}
    (hinbox : w.loop.inbox = .task (.start f) :: rest)
    (hpeople : Moment.Peopled (w.dropMessage.takeUp (.task (.start f)))) :
    Moment.Joined reserved before (w.dropMessage.takeUp (.task (.start f))) := by
  obtain ⟨p, hp⟩ := h.people.fits_of_inbox hinbox rfl
  have hheld : Held f p.epoch p.hook p.standing (w.tokens f) .idle := hp.held
  rw [tokens_of_inbox_self hinbox rfl] at hheld
  obtain ⟨⟨root, hstanding⟩, -⟩ := hheld.of_start
  have hphase : (w.dropMessage.fiber? f).map Fiber.phase = some (.created root) :=
    hp.phase?_eq.trans (congrArg (fun s => some (Standing.phase s)) hstanding)
  simp only [World.takeUp, hphase] at hpeople ⊢
  refine h.shift hpeople (h.quiet.drop.modifyFiber f _)
    ((Steady.confined_dropMessage h.confined).modifyPhase f _ (fun _ _ _ _ _ => trivial) (fun _ => rfl)
      fun r => Nat.le_refl r.epoch) rfl rfl (fun j callback hj hholds => ?_) (fun g hook hg => Or.inl ?_)
    (epoch_le_modifyFiber f ?_ w.dropMessage) (fun _ _ _ _ _ => Activity.noConfusion)
    fun callback run canceler _ _ hremains => Or.inl ?_
  · have hdrop : w.dropMessage.Holds callback := hholds
    refine hdrop.modifyFiber f fun row hrow _ hrowholds => Or.inr ?_
    exact hrowholds.past_of_phase hrow hphase rfl
  · have hrunning (g : FiberId) (x : Exit Value Value) (hook : ExitHook) :
        Activity.running f w.dropMessage.budget ⟨{}, .eval root⟩ ≠ .exiting g x hook := Activity.noConfusion
    have hdrop : w.dropMessage.hook? g = some hook := by
      rw [← hook?_modifyFiber w.dropMessage f g]
      · exact Moment.hooked_of_activity hg hrunning
      · exact fun _ => rfl
    exact Or.inl hdrop
  · exact fun r => Nat.le_refl r.epoch
  · have hdrop := ((Moment.remains_of_idle hremains).dropMessage hinbox).resolve_right Task.noConfusion
    refine hdrop.modifyFiber _ fun run canceler hsuspended => ?_
    cases hphase.symm.trans hsuspended

theorem takeNext (h : Moment.Joined reserved before ⟨w, .idle⟩) : Moment.Joined reserved before w.takeNext := by
  have hpeople := h.people.leads (.takeNext h.quiet)
  unfold World.takeNext at hpeople ⊢
  cases hinbox : w.loop.inbox with
  | nil => exact h
  | cons message rest =>
    rw [hinbox] at hpeople
    cases message with
    | timer deadline timer task =>
      exact steady.takeQuiet h hinbox (h.quiet.loop.inbox deadline timer task (hinbox ▸ List.mem_cons_self))
    | shutdown => exact steady.takeQuiet h hinbox rfl
    | task task =>
      cases task with
      | start f => exact h.takeStart hinbox hpeople
      | resume f run next => exact h.takeUp hinbox hpeople nofun nofun nofun
      | unwind f canceler run =>
        refine h.takeUp hinbox hpeople nofun nofun ?_
        rintro g canceler' run' ⟨⟩
        exact ⟨_, rfl⟩
      | succeed callback v => exact steady.takeQuiet h hinbox rfl
      | actions list env => exact steady.takeQuiet h hinbox rfl

/-! ## Strokes -/

/-- What is reserved at a moment is all that has to be reserved in it. -/
theorem rescope (h : m.Joined reserved before) : m.Joined m.Reserves before :=
  { h with
    confined := h.confined.mono
      ⟨fun _ hd => hd, fun _ => id, fun _ => id, fun callback hcallback hreserves => hcallback (h.reserves callback hreserves),
        fun callback hwaiter hreserves => hwaiter (h.reserves callback hreserves), id⟩ h.quiet
      (fun _ _ => Or.inl trivial) (fun _ _ _ _ => Or.inl trivial) (fun _ hf => absurd trivial hf)
      (fun _ _ _ _ hf => absurd trivial hf) fun _ _ => Or.inl trivial
    reserves := fun _ => id }

/-- The next moment, unless a race or a pairing is started or ended. -/
theorem next_of_other (h : m.Joined m.Reserves m.world) (hjoint : m.activity.joint = false) :
    m.next.Joined m.Reserves m.world := by
  obtain ⟨w, a⟩ := m
  cases a with
  | idle =>
    unfold Moment.next
    dsimp only
    split
    · exact h
    · exact (steady.fireDue h).takeNext
  | running f left s =>
    cases left with
    | zero => exact h.yield
    | succ left => exact h.act
  | registering f left run r epoch =>
    refine h.beginRegistration_of_other hjoint fun hreserves => ?_
    cases hreserves with
    | held hj => exact h.unheld f left run r epoch rfl _ hj
    | joining hm hr =>
      cases hm
      cases hr.symm.trans hjoint
    | future hlt =>
      obtain ⟨p, hp⟩ := h.people.fits rfl
      obtain ⟨home, hrecord⟩ := hp.record
      obtain ⟨-, -, rfl⟩ := hp.held.of_registering
      exact absurd hlt (by rw [epoch_of_record hrecord]; exact Nat.lt_irrefl _)
  | returning f left run canceler => exact h.leaveRegistration
  | canceling f left run canceler => exact h.cancel
  | exiting f x hook => exact h.tell_of_other (Option.not_isSome_iff_eq_none.1 (Bool.eq_false_iff.1 hjoint))

end Moment.Joined

namespace Scene

variable {s : Scene} {stroke : Stroke}

/-- **Races and pairings stay as they are, unless one is started or ended.** -/
theorem joined_play_of_other (h : s.moment.Joined s.moment.Reserves s.moment.world)
    (hjoint : stroke = .next → s.moment.activity.joint = false) :
    (s.play stroke).moment.Joined s.moment.Reserves s.moment.world := by
  obtain ⟨⟨w, a⟩, kept⟩ := s
  cases stroke with
  | next => exact h.next_of_other (hjoint rfl)
  | fire =>
    cases a with
    | idle =>
      simp only [Scene.play, Scene.between]
      split
      · exact h
      · exact Moment.Joined.steady.fireDue h
    | _ => exact h
  | switch =>
    cases a with
    | idle => exact Moment.Joined.steady.switch h
    | _ => exact h
  | clock time =>
    cases a with
    | idle => exact Moment.Joined.steady.setClock h time
    | _ => exact h
  | demand d =>
    have hact : Attending (Moment.Reserves ⟨w, a⟩) (List Effect) (d.act kept) fun _ => True := TracksAll.demand kept d
    obtain ⟨⟨hconfined, hattends⟩, -⟩ := hact w h.confined
    have hdemand := h.attends hconfined hattends
    simp only [Scene.play]
    cases hrun : (d.act kept).run w with
    | mk result v =>
      rw [hrun] at hdemand
      cases result <;> exact hdemand

end Scene

end Joining

end FiberLoop
