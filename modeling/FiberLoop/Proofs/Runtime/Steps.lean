import FiberLoop.Proofs.Runtime.Fits

/-!
# The steps of a fiber in a world

Each thing that a fiber does by itself moves it along its course: it is taken from the inbox, takes a step,
registers a callback, ends the registration, cancels what it waited for, or exits. There is one lemma for each
rule of the transition system; two of them say that a branch is never taken.
-/

namespace FiberLoop

/-! ## Looking at moments -/

namespace Moment

variable {f g : FiberId} {w : World} {a : Activity}

theorem view_idle : Moment.view f ⟨w, .idle⟩ = w.view f .idle := by
  simp [view, Activity.of, Activity.fiber?]

theorem view_self (h : a.fiber? = some f) : Moment.view f ⟨w, a⟩ = w.view f a := by
  rw [view, Activity.of_self h]

theorem view_of_ne (h : a.fiber? = some g) (hne : g ≠ f) : Moment.view f ⟨w, a⟩ = w.view f .idle := by
  have hother : a.fiber? ≠ some f := fun e => hne (Option.some.inj (h.symm.trans e))
  rw [view, Activity.of_other hother]

end Moment

theorem EventLoop.Tends.tokens {l l' : EventLoop} (h : l.Tends l') (f : FiberId) :
    l'.tokens f = l.tokens f := by
  unfold EventLoop.tokens
  rcases h.inbox with hinbox | ⟨m, hquiet, hinbox⟩
  · rw [hinbox]
  · rw [hinbox, List.filterMap_cons, Message.token?_of_isQuiet hquiet]

namespace World

variable {w : World} {f : FiberId} {rest : List Message} {t : Task}

/-- The first message of the inbox is the first token of the fiber with which it goes on. -/
theorem tokens_of_inbox_self (h : w.loop.inbox = .task t :: rest) (ht : t.fiber? = some f) :
    w.tokens f = t :: w.dropMessage.tokens f := by
  simp only [tokens, EventLoop.tokens, dropMessage, h, List.tail_cons]
  rw [List.filterMap_cons, token?_task_self ht]
  rfl

theorem tokens_of_inbox_of_ne (h : w.loop.inbox = .task t :: rest) (ht : t.fiber? ≠ some f) :
    w.dropMessage.tokens f = w.tokens f := by
  simp only [tokens, EventLoop.tokens, dropMessage, h, List.tail_cons]
  rw [List.filterMap_cons, token?_task_of_ne ht]

theorem view_dropMessage_of_ne (h : w.loop.inbox = .task t :: rest) (ht : t.fiber? ≠ some f) (a : Activity) :
    w.dropMessage.view f a = w.view f a := by
  rw [view, tokens_of_inbox_of_ne h ht]
  rfl

theorem view_modifyFiber_of_ne {g : FiberId} (h : g ≠ f) (w : World) (change : Fiber → Fiber) (a : Activity) :
    (w.modifyFiber g change).view f a = w.view f a := by
  rw [view, record_modifyFiber_of_ne h]
  rfl

theorem view_announce_of_ne {g : FiberId} (h : g ≠ f) (w : World) (x : Exit Value Value) (hook : ExitHook)
    (a : Activity) : (w.announce g x hook).view f a = w.view f a := by
  unfold announce
  split
  · exact view_modifyFiber_of_ne h w _ a
  · rfl

/-- The exit of a fiber that publishes it is in its notice before anybody is told. -/
theorem record_announce {p : Place} {home : LoopName} {x : Exit Value Value}
    (hrecord : w.record f = some ((p.moveTo (.exiting x)).record home)) :
    (w.announce f x p.hook).record f = some ((p.moveTo (.done x)).record home) := by
  obtain ⟨fiber, hf, hcore⟩ := fiber?_of_record hrecord
  have hnotice : fiber.notice.map ExitNotice.core = p.hook.notice := congrArg Fiber.notice hcore
  cases hhook : p.hook with
  | publish =>
    rw [hhook] at hnotice
    obtain ⟨notice, hsome, hpending⟩ := Option.map_eq_some_iff.1 hnotice
    cases notice with
    | done y => cases hpending
    | pending listeners key =>
      have hworld : w.announce f x .publish = w.setNotice f (.done x) := by
        simp [announce, notice?, hf, hsome]
      rw [hworld, setNotice, record_modifyFiber_self hf]
      have hshape : ({ fiber with notice := some (.done x) } : Fiber).core =
          { fiber.core with notice := some (.done x) } := rfl
      rw [hshape, hcore]
      simp [Place.record, Place.notice, Place.moveTo, Standing.phase, Standing.exit?, hhook,
        ExitHook.notice]
  | report name throws | race race side | parZip pairing side | deliver outbox =>
    have hworld : w.announce f x p.hook = w := by
      rw [hhook]
      rfl
    rw [hhook] at hworld
    rw [hworld, hrecord]
    simp [Place.record, Place.notice, Place.moveTo, Standing.phase, Standing.exit?, hhook, ExitHook.notice]

end World

/-! ## The steps of a fiber -/

section Steps

variable {f : FiberId} {p : Place} {w v : World} {rest : List Message} {es : Chronicle}

theorem Place.alive_of_standing {s : Standing} (h : p.standing = s) (hs : s.exit? = none) :
    p.standing.exit? = none := by
  rw [h]
  exact hs

theorem Fits.start {root : Effect} (hinbox : w.loop.inbox = .task (.start f) :: rest)
    (hphase : w.phase? f = some (.created root)) (h : Fits f (w.view f .idle) p) :
    ∃ q, Moves p [.began root] q ∧
      Fits f ((w.dropMessage.modifyFiber f fun r => { r with phase := .running }).view f
        (.running f w.budget ⟨{}, .eval root⟩)) q := by
  obtain ⟨home, hrecord⟩ := h.record
  have hheld : Held f p.epoch p.hook p.standing (w.tokens f) .idle := h.held
  rw [World.tokens_of_inbox_self hinbox rfl] at hheld
  obtain ⟨⟨root', hstanding⟩, hnil⟩ := hheld.of_start
  have hroot := (World.phase?_of_record hrecord).symm.trans hphase
  rw [Place.phase_record, hstanding] at hroot
  cases hroot
  have hdropped : w.dropMessage.record f = some (p.record home) := hrecord
  have hchanged : (w.dropMessage.modifyFiber f fun r => { r with phase := .running }).record f =
      some { p.record home with phase := .running } := World.record_modifyFiber hdropped fun _ => rfl
  refine ⟨p.moveTo (.ready ⟨{}, .eval root⟩), .one (.begin hstanding), ⟨home, ?_⟩, ?_⟩
  · refine hchanged.trans ?_
    rw [Place.record_of_alive (Place.alive_of_standing hstanding rfl), Place.record_of_alive rfl]
    rfl
  · show Held _ _ _ _ (w.dropMessage.tokens f) _
    rw [hnil]
    exact .running ⟨{}, .eval root⟩ w.budget

theorem Fits.not_startLate (hinbox : w.loop.inbox = .task (.start f) :: rest)
    (hphase : ∀ root, w.phase? f ≠ some (.created root)) (h : Fits f (w.view f .idle) p) : False := by
  have hheld : Held f p.epoch p.hook p.standing (w.tokens f) .idle := h.held
  rw [World.tokens_of_inbox_self hinbox rfl] at hheld
  obtain ⟨⟨root, hstanding⟩, -⟩ := hheld.of_start
  refine hphase root ?_
  rw [h.phase?_eq, hstanding]
  rfl

theorem Fits.resume {s : Stand} (hinbox : w.loop.inbox = .task (.resume f s.run s.next) :: rest)
    (h : Fits f (w.view f .idle) p) : Fits f (w.dropMessage.view f (.running f w.budget s)) p := by
  have hheld : Held f p.epoch p.hook p.standing (w.tokens f) .idle := h.held
  rw [World.tokens_of_inbox_self hinbox rfl] at hheld
  obtain ⟨hstanding, hnil⟩ := hheld.of_resume
  refine ⟨h.record, ?_⟩
  show Held _ _ _ _ (w.dropMessage.tokens f) _
  rw [hstanding, hnil]
  exact .running s w.budget

theorem Fits.unwind {canceler : Canceler} {run : Run}
    (hinbox : w.loop.inbox = .task (.unwind f canceler run) :: rest) (h : Fits f (w.view f .idle) p) :
    Fits f (w.dropMessage.view f (.canceling f w.budget run canceler)) p := by
  have hheld : Held f p.epoch p.hook p.standing (w.tokens f) .idle := h.held
  rw [World.tokens_of_inbox_self hinbox rfl] at hheld
  obtain ⟨ended, hstanding, hnil, hepoch⟩ := hheld.of_unwind
  refine ⟨h.record, ?_⟩
  show Held _ _ _ _ (w.dropMessage.tokens f) _
  rw [hstanding, hnil]
  exact .canceling hepoch run canceler w.budget

theorem Fits.yield {left : Nat} {s : Stand} (h : Fits f (w.view f (.running f left s)) p) :
    Fits f ((w.dispatch (.resume f s.run s.next)).view f .idle) p := by
  obtain ⟨hstanding, hnil⟩ := h.held.of_running
  have hqueued := World.tokens_dispatchTo_of_nil (t := .resume f s.run s.next) rfl hnil w.here
  refine ⟨h.record, ?_⟩
  show Held _ _ _ _ ((w.dispatch (.resume f s.run s.next)).tokens f) _
  rw [World.dispatch_eq_dispatchTo, hqueued, hstanding]
  exact .queued s

/-- A fiber that runs gets to another stand. -/
theorem Fits.step {left : Nat} (left' : Nat) {s s' : Stand} {way : Way} (h : Fits f (w.view f (.running f left s)) p)
    (hleads : Leads s way s') (hway : ∀ ending, way ≠ .ended ending)
    (hcut : way = .cut → p.requested = true) :
    ∃ q, Moves p [.stepped way s'] q ∧ Fits f (w.view f (.running f left' s')) q := by
  obtain ⟨home, hrecord⟩ := h.record
  obtain ⟨hstanding, hnil⟩ := h.held.of_running
  refine ⟨p.moveTo (.ready s'), .one (.step hstanding hleads hway hcut), ⟨home, ?_⟩, ?_⟩
  · refine hrecord.trans ?_
    rw [Place.record_of_alive (Place.alive_of_standing hstanding rfl), Place.record_of_alive rfl,
      hstanding]
    rfl
  · rw [show (w.view f (.running f left' s')).tokens = [] from hnil]
    exact .running s' left'

/-- A pending interrupt was requested. -/
theorem Fits.requested_of_pending {a : Activity} {masks : Masks} (h : Fits f (w.view f a) p)
    (hpending : w.interruptPending f masks = true) :
    masks.isInterruptible = true ∧ p.requested = true := by
  obtain ⟨home, hrecord⟩ := h.record
  rw [World.interruptPending_of_record hrecord] at hpending
  exact Bool.and_eq_true_iff.1 hpending

theorem Fits.call {left : Nat} {s : Stand} {c : Call} {run : Run} (hdeed : s.deed = .call c run)
    (hrequests : Requests w es (w.called c run).2) (h : Fits f (w.view f (.running f (left + 1) s)) p) :
    ∃ q, Moves p (history f es ++ [.stepped (.call c) (w.called c run).1]) q ∧
      Fits f ((w.called c run).2.view f (.running f left (w.called c run).1)) q := by
  obtain ⟨q, hmoves, hq⟩ := hrequests.fits h
  obtain ⟨q', hmoves', hq'⟩ := hq.step left (.call hdeed w) (fun _ => Way.noConfusion)
    fun e => nomatch e
  exact ⟨q', hmoves.append hmoves', hq'⟩

theorem Fits.cut {left : Nat} {s : Stand} {c : Call} {run : Run} (hdeed : s.deed = .call c run)
    (hcuts : w.cuts f c run = true) (h : Fits f (w.view f (.running f (left + 1) s)) p) :
    ∃ q, Moves p [.stepped .cut ⟨run, .cause .interrupted⟩] q ∧
      Fits f (w.view f (.running f left ⟨run, .cause .interrupted⟩)) q := by
  obtain ⟨hyields, hpending⟩ := Bool.and_eq_true_iff.1 hcuts
  obtain ⟨hmasks, hrequested⟩ := h.requested_of_pending hpending
  exact h.step left (.cut hdeed hyields hmasks) (fun _ => Way.noConfusion) fun _ => hrequested

theorem Fits.cutWait {left : Nat} {s : Stand} {r : Registration} (hdeed : s.deed = .register r)
    (hpending : w.interruptPending f s.run.masks = true)
    (h : Fits f (w.view f (.running f (left + 1) s)) p) :
    ∃ q, Moves p [.stepped .cut ⟨s.run, .cause .interrupted⟩] q ∧
      Fits f (w.view f (.running f left ⟨s.run, .cause .interrupted⟩)) q := by
  obtain ⟨hmasks, hrequested⟩ := h.requested_of_pending hpending
  exact h.step left (.cutWait hdeed hmasks) (fun _ => Way.noConfusion) fun _ => hrequested

/-! ### Registrations -/

/-- A fiber whose phase and epoch are changed is shown in the next epoch. -/
theorem Fits.record_beyond (standing : Standing) (h : ∃ home, w.record f = some (p.record home))
    (halive : p.standing.exit? = none) (hstanding : standing.exit? = none) :
    ∃ home, (w.advanceEpoch f standing.phase).record f = some ((p.beyond standing).record home) := by
  obtain ⟨home, hrecord⟩ := h
  refine ⟨home, (World.record_advanceEpoch hrecord _).trans ?_⟩
  rw [Place.record_of_alive halive, Place.record_of_alive (p := p.beyond standing) hstanding]
  rfl

theorem Fits.register {left : Nat} {s : Stand} {r : Registration} (hdeed : s.deed = .register r)
    (h : Fits f (w.view f (.running f (left + 1) s)) p) :
    ∃ q, Moves p [.registered r ((w.advanceEpoch f (.registering none)).epoch f)] q ∧
      Fits f ((w.advanceEpoch f (.registering none)).view f
        (.registering f left s.run r ((w.advanceEpoch f (.registering none)).epoch f))) q := by
  obtain ⟨hstanding, hnil⟩ := h.held.of_running
  obtain ⟨home, hrecord⟩ := Fits.record_beyond (.registering s.run none) h.record
    (Place.alive_of_standing hstanding rfl) rfl
  have hepoch : (w.advanceEpoch f (.registering none)).epoch f = p.epoch + 1 :=
    World.epoch_of_record hrecord
  rw [hepoch]
  refine ⟨p.beyond (.registering s.run none), .one (.register hstanding hdeed), ⟨home, hrecord⟩, ?_⟩
  show Held _ _ _ _ (w.tokens f) _
  rw [show w.tokens f = [] from hnil]
  exact .registering s.run none left r

/-- A registration that has ended in the middle of a turn lets the fiber go on in the same turn. -/
theorem Fits.goOn {standing : Standing} {run : Run} {ending : Ending} (left : Nat)
    (hstanding : p.standing = standing) (halive : standing.exit? = none)
    (hended : Move p (.ended p.epoch ending) (p.beyond (.leaving p.epoch run ending)))
    (hrecord : ∃ home, w.record f = some (p.record home)) (hnil : w.tokens f = []) :
    ∃ q, Moves p [.ended p.epoch ending, .continued p.epoch ending ⟨run, .ofExit ending.exit⟩] q ∧
      Fits f ((w.advanceEpoch f .running).view f (.running f left ⟨run, .ofExit ending.exit⟩)) q := by
  have hbeyond := Fits.record_beyond (.ready ⟨run, .ofExit ending.exit⟩) hrecord
    (Place.alive_of_standing hstanding halive) rfl
  refine ⟨p.beyond (.ready ⟨run, .ofExit ending.exit⟩), .two hended (.continue rfl), hbeyond, ?_⟩
  show Held _ _ _ _ (w.tokens f) _
  rw [hnil]
  exact .running _ left

theorem Fits.throw {left epoch : Nat} {run : Run} {r : Registration} {d : Defect}
    (hrequests : Requests w es v) (h : Fits f (w.view f (.registering f left run r epoch)) p) :
    ∃ q, Moves p (history f es ++ [.ended epoch (.threw d),
        .continued epoch (.threw d) ⟨run, .cause (.aborted d)⟩]) q ∧
      Fits f ((v.advanceEpoch f .running).view f (.running f left ⟨run, .cause (.aborted d)⟩)) q := by
  obtain ⟨q, hmoves, hq⟩ := hrequests.fits h
  obtain ⟨⟨early, hstanding⟩, hnil, rfl⟩ := hq.held.of_registering
  obtain ⟨q', hmoves', hq'⟩ := Fits.goOn left hstanding rfl (.throw hstanding d) hq.record hnil
  exact ⟨q', hmoves.append hmoves', hq'⟩

theorem Fits.return {left epoch : Nat} {run : Run} {r : Registration} {canceler : Canceler}
    (hrequests : Requests w es v) (h : Fits f (w.view f (.registering f left run r epoch)) p) :
    ∃ q, Moves p (history f es ++ [.returned epoch canceler]) q ∧
      Fits f (v.view f (.returning f left run canceler)) q := by
  obtain ⟨q, hmoves, hq⟩ := hrequests.fits h
  obtain ⟨⟨early, hstanding⟩, hnil, rfl⟩ := hq.held.of_registering
  obtain ⟨home, hrecord⟩ := hq.record
  refine ⟨q.moveTo (.returned run early canceler), hmoves.append (.one (.return hstanding canceler)),
    ⟨home, ?_⟩, ?_⟩
  · refine hrecord.trans ?_
    rw [Place.record_of_alive (Place.alive_of_standing hstanding rfl), Place.record_of_alive rfl,
      hstanding]
    rfl
  · show Held _ _ _ _ (v.tokens f) _
    rw [show v.tokens f = [] from hnil]
    exact .returned run early canceler left

/-- Whether the fiber has been given a result is in its record. -/
theorem Fits.returned_of_phase {left : Nat} {run : Run} {canceler : Canceler}
    (h : Fits f (w.view f (.returning f left run canceler)) p) {early : Option (Exit Value Value)}
    (hphase : w.phase? f = some (.registering early)) :
    p.standing = .returned run early canceler ∧ w.epoch f = p.epoch ∧ w.tokens f = [] := by
  obtain ⟨home, hrecord⟩ := h.record
  obtain ⟨⟨early', hstanding⟩, hnil⟩ := h.held.of_returning
  have hsame := (World.phase?_of_record hrecord).symm.trans hphase
  rw [Place.phase_record, hstanding] at hsame
  cases hsame
  exact ⟨hstanding, World.epoch_of_record hrecord, hnil⟩

theorem Fits.early {left : Nat} {run : Run} {canceler : Canceler} {x : Exit Value Value}
    (hphase : w.phase? f = some (.registering (some x)))
    (h : Fits f (w.view f (.returning f left run canceler)) p) :
    ∃ q, Moves p [.ended (w.epoch f) (.early x), .continued (w.epoch f) (.early x) ⟨run, .ofExit x⟩] q ∧
      Fits f ((w.advanceEpoch f .running).view f (.running f left ⟨run, .ofExit x⟩)) q := by
  obtain ⟨hstanding, hepoch, hnil⟩ := h.returned_of_phase hphase
  rw [hepoch]
  exact Fits.goOn left hstanding rfl (.early hstanding) h.record hnil

theorem Fits.leave {left : Nat} {run : Run} {canceler : Canceler}
    (hphase : w.phase? f = some (.registering none)) (hpending : w.interruptPending f run.masks = true)
    (h : Fits f (w.view f (.returning f left run canceler)) p) :
    ∃ q, Moves p [.ended (w.epoch f) .interrupted] q ∧
      Fits f ((w.advanceEpoch f .running).view f (.canceling f left run canceler)) q := by
  obtain ⟨hstanding, hepoch, hnil⟩ := h.returned_of_phase hphase
  obtain ⟨hmasks, hrequested⟩ := h.requested_of_pending hpending
  have hbeyond := Fits.record_beyond (.unwinding p.epoch run canceler) h.record
    (Place.alive_of_standing hstanding rfl) rfl
  rw [hepoch]
  refine ⟨p.beyond (.unwinding p.epoch run canceler),
    .one (.interruptReturned hstanding hmasks hrequested), hbeyond, ?_⟩
  show Held _ _ _ _ (w.tokens f) _
  rw [hnil]
  exact .canceling rfl run canceler left

theorem Fits.park {left : Nat} {run : Run} {canceler : Canceler}
    (hphase : w.phase? f = some (.registering none)) (hpending : w.interruptPending f run.masks = false)
    (h : Fits f (w.view f (.returning f left run canceler)) p) :
    ∃ q, Moves p [.parked (w.epoch f)] q ∧
      Fits f ((w.modifyFiber f fun r => { r with phase := .suspended run canceler }).view f .idle) q := by
  obtain ⟨hstanding, hepoch, hnil⟩ := h.returned_of_phase hphase
  obtain ⟨home, hrecord⟩ := h.record
  have hopen : run.masks.isInterruptible = true → p.requested = false := by
    intro hmasks
    rw [World.interruptPending_of_record hrecord, hmasks, Bool.true_and] at hpending
    exact hpending
  have hchanged : (w.modifyFiber f fun r => { r with phase := .suspended run canceler }).record f =
      some { p.record home with phase := .suspended run canceler } :=
    World.record_modifyFiber hrecord fun _ => rfl
  rw [hepoch]
  refine ⟨p.moveTo (.parked run canceler), .one (.park hstanding hopen), ⟨home, ?_⟩, ?_⟩
  · refine hchanged.trans ?_
    rw [Place.record_of_alive (Place.alive_of_standing hstanding rfl), Place.record_of_alive rfl]
    rfl
  · show Held _ _ _ _ (w.tokens f) _
    rw [hnil]
    exact .parked run canceler

theorem Fits.not_unexpected {left : Nat} {run : Run} {canceler : Canceler}
    (hphase : ∀ early, w.phase? f ≠ some (.registering early))
    (h : Fits f (w.view f (.returning f left run canceler)) p) : False := by
  obtain ⟨⟨early, hstanding⟩, -⟩ := h.held.of_returning
  refine hphase early ?_
  rw [h.phase?_eq, hstanding]
  rfl

theorem Fits.cancel {left : Nat} {run : Run} {canceler : Canceler} (hrequests : Requests w es v)
    (h : Fits f (w.view f (.canceling f left run canceler)) p) :
    ∃ q, Moves p (history f es ++ [.canceled (v.epoch f - 1) canceler,
        .continued (v.epoch f - 1) .interrupted ⟨run, .cause .interrupted⟩]) q ∧
      Fits f (v.view f (.running f left ⟨run, .cause .interrupted⟩)) q := by
  obtain ⟨q, hmoves, hq⟩ := hrequests.fits h
  obtain ⟨ended, hstanding, hnil, hepoch⟩ := hq.held.of_canceling
  obtain ⟨home, hrecord⟩ := hq.record
  have hended : v.epoch f - 1 = ended := by
    rw [World.epoch_of_record hrecord, Place.epoch_record, hepoch, Nat.add_sub_cancel]
  rw [hended]
  refine ⟨q.moveTo (.ready ⟨run, .cause .interrupted⟩),
    hmoves.append (.two (.cancel hstanding) (.continue rfl)), ⟨home, ?_⟩, ?_⟩
  · refine hrecord.trans ?_
    rw [Place.record_of_alive (Place.alive_of_standing hstanding rfl), Place.record_of_alive rfl,
      hstanding]
    rfl
  · show Held _ _ _ _ (v.tokens f) _
    rw [show v.tokens f = [] from hnil]
    exact .running ⟨run, .cause .interrupted⟩ left

/-! ### Exits -/

/-- A fiber that runs has its hook. -/
theorem Fits.hook_of_running {left : Nat} {s : Stand} (h : Fits f (w.view f (.running f left s)) p) :
    (w.fiber? f).bind (·.hook) = some p.hook := by
  obtain ⟨home, hrecord⟩ := h.record
  obtain ⟨hstanding, -⟩ := h.held.of_running
  rw [World.hook_of_record hrecord,
    Place.record_of_alive (Place.alive_of_standing hstanding rfl)]

theorem Fits.exit {left : Nat} {s : Stand} {x : Exit Value Value} (hdeed : s.deed = .exit x)
    (h : Fits f (w.view f (.running f (left + 1) s)) p) :
    ∃ q, Moves p [.exited x] q ∧ Fits f ((w.markDone f x).view f (.exiting f x p.hook)) q := by
  obtain ⟨home, hrecord⟩ := h.record
  obtain ⟨hstanding, hnil⟩ := h.held.of_running
  have hchanged : (w.markDone f x).record f =
      some { p.record home with phase := .done, outcome := .ofExit x, hook := none } :=
    World.record_modifyFiber hrecord fun _ => rfl
  refine ⟨p.moveTo (.exiting x), .one (.exit hstanding hdeed), ⟨home, ?_⟩, ?_⟩
  · refine hchanged.trans ?_
    rw [Place.record_of_alive (Place.alive_of_standing hstanding rfl)]
    rfl
  · show Held _ _ _ _ (w.tokens f) _
    rw [show w.tokens f = [] from hnil]
    exact .exiting x

/-- The exit of a fiber is in its notice, and the fiber is done, before anybody else is told. -/
theorem Fits.announce {x : Exit Value Value} {hook : ExitHook} (h : Fits f (w.view f (.exiting f x hook)) p) :
    hook = p.hook ∧ p.standing = .exiting x ∧
      Fits f ((w.announce f x hook).view f .idle) (p.moveTo (.done x)) := by
  obtain ⟨home, hrecord⟩ := h.record
  obtain ⟨hstanding, hnil, rfl⟩ := h.held.of_exiting
  have hplace : p.moveTo (.exiting x) = p := by
    rw [← hstanding]
    rfl
  rw [← hplace] at hrecord
  have htokens : (w.announce f x p.hook).tokens f = w.tokens f := by
    unfold World.announce
    split
    · rfl
    · rfl
  refine ⟨rfl, hstanding, ⟨home, World.record_announce hrecord⟩, ?_⟩
  show Held _ _ _ _ ((w.announce f x p.hook).tokens f) _
  rw [htokens, show w.tokens f = [] from hnil]
  exact .done x

theorem Fits.tell {x : Exit Value Value} {hook : ExitHook}
    (hrequests : Requests (w.announce f x hook) es v) (h : Fits f (w.view f (.exiting f x hook)) p) :
    ∃ q, Moves p (.told x hook :: history f es) q ∧ Fits f (v.view f .idle) q := by
  obtain ⟨rfl, hstanding, htold⟩ := h.announce
  obtain ⟨q, hmoves, hq⟩ := hrequests.fits htold
  exact ⟨q, .step (.tell hstanding) hmoves, hq⟩

end Steps

end FiberLoop
