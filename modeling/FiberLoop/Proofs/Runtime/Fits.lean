import FiberLoop.Proofs.Runtime.Transition

/-!
# The place of a fiber in a world

A moment shows of a fiber its record, the tasks that wait for it, and what it is in the middle of. `Fits` says
what each place of a fiber looks like. A fiber that runs is held by exactly one of its record, a waiting task
and the activity of the moment, so the shapes exclude each other.

The main result of this module is `Request.fits`: whatever is requested of the world, each fiber makes the moves
that the request is labelled with.
-/

namespace FiberLoop

/-- What has happened to one fiber. -/
def history (f : FiberId) (es : Chronicle) : List Event :=
  es.filterMap fun e => if e.1 = f then some e.2 else none

section History

variable {f g : FiberId} {es es' : Chronicle} {e : Event}

@[simp] theorem history_nil : history f [] = [] := rfl

@[simp] theorem history_append : history f (es ++ es') = history f es ++ history f es' :=
  List.filterMap_append

@[simp] theorem history_cons_self : history f ((f, e) :: es) = e :: history f es := by
  simp [history]

theorem history_cons_of_ne (h : g ≠ f) : history f ((g, e) :: es) = history f es := by
  simp [history, h]

theorem mem_history : e ∈ history f es ↔ (f, e) ∈ es := by
  simp only [history, List.mem_filterMap]
  constructor
  · rintro ⟨⟨g, e'⟩, hmem, heq⟩
    split at heq
    · rename_i hg
      obtain rfl : g = f := hg
      cases heq
      exact hmem
    · cases heq
  · intro hmem
    exact ⟨(f, e), hmem, if_pos rfl⟩

end History

/-- The part of an activity that concerns a fiber. -/
def Activity.of (f : FiberId) (a : Activity) : Activity := if a.fiber? = some f then a else .idle

theorem Activity.of_self {f : FiberId} {a : Activity} (h : a.fiber? = some f) : a.of f = a := if_pos h

theorem Activity.of_other {f : FiberId} {a : Activity} (h : a.fiber? ≠ some f) : a.of f = .idle := if_neg h

theorem Activity.eq_of_of {f : FiberId} {a b : Activity} (h : a.of f = b) (hb : b ≠ .idle) : a = b := by
  by_cases ha : a.fiber? = some f
  · rwa [of_self ha] at h
  · rw [of_other ha] at h
    exact absurd h.symm hb

/-- What a moment shows of a fiber. -/
structure View where
  record : Option Fiber
  tokens : List Task
  activity : Activity

/-- What a world shows of a fiber that is in the middle of something. -/
def World.view (f : FiberId) (a : Activity) (w : World) : View := ⟨w.record f, w.tokens f, a⟩

def Moment.view (f : FiberId) (m : Moment) : View := m.world.view f (m.activity.of f)

namespace Standing

/-- The phase of a fiber that has come so far. -/
def phase : Standing → Phase
  | .fresh root => .created root
  | .ready _ | .leaving .. | .unwinding .. => .running
  | .registering _ early | .returned _ early _ => .registering early
  | .parked run canceler => .suspended run canceler
  | .exiting _ | .done _ => .done

/-- The exit of a fiber, once it has ended. -/
def exit? : Standing → Option (Exit Value Value)
  | .exiting x | .done x => some x
  | _ => none

end Standing

namespace Place

/-- The notice of a fiber: it holds the exit once that was told. -/
def notice (p : Place) : Option ExitNotice :=
  match p.standing with
  | .done x => p.hook.notice.map fun _ => .done x
  | _ => p.hook.notice

/-- The record of a fiber at a place. -/
def record (p : Place) (home : LoopName) : Fiber :=
  { home := home
    phase := p.standing.phase
    epoch := p.epoch
    outcome := p.standing.exit?.elim .runnable .ofExit
    interruptRequested := p.requested
    hook := if p.standing.exit?.isSome then none else some p.hook
    notice := p.notice }

end Place

/-- Who holds a fiber that has come so far: a waiting task, the activity of the moment, or, with neither of
the two, the record alone. -/
inductive Held (f : FiberId) (epoch : Nat) (hook : ExitHook) : Standing → List Task → Activity → Prop where
  | fresh (root : Effect) : Held f epoch hook (.fresh root) [.start f] .idle
  | queued (s : Stand) : Held f epoch hook (.ready s) [.resume f s.run s.next] .idle
  | running (s : Stand) (left : Nat) : Held f epoch hook (.ready s) [] (.running f left s)
  | registering (run : Run) (early : Option (Exit Value Value)) (left : Nat) (r : Registration) :
    Held f epoch hook (.registering run early) [] (.registering f left run r epoch)
  | returned (run : Run) (early : Option (Exit Value Value)) (canceler : Canceler) (left : Nat) :
    Held f epoch hook (.returned run early canceler) [] (.returning f left run canceler)
  | parked (run : Run) (canceler : Canceler) : Held f epoch hook (.parked run canceler) [] .idle
  | unwinding {ended : Nat} (h : epoch = ended + 1) (run : Run) (canceler : Canceler) :
    Held f epoch hook (.unwinding ended run canceler) [.unwind f canceler run] .idle
  | canceling {ended : Nat} (h : epoch = ended + 1) (run : Run) (canceler : Canceler) (left : Nat) :
    Held f epoch hook (.unwinding ended run canceler) [] (.canceling f left run canceler)
  | exiting (x : Exit Value Value) : Held f epoch hook (.exiting x) [] (.exiting f x hook)
  | done (x : Exit Value Value) : Held f epoch hook (.done x) [] .idle

section Held

variable {f : FiberId} {epoch : Nat} {hook : ExitHook} {tokens : List Task} {a : Activity}

theorem Held.of_parked {run : Run} {canceler : Canceler}
    (h : Held f epoch hook (.parked run canceler) tokens a) : tokens = [] ∧ a = .idle := by
  cases h
  exact ⟨rfl, rfl⟩

theorem Held.of_running {s : Standing} {left : Nat} {stand : Stand}
    (h : Held f epoch hook s tokens (.running f left stand)) : s = .ready stand ∧ tokens = [] := by
  cases h
  exact ⟨rfl, rfl⟩

theorem Held.of_registering {s : Standing} {left e : Nat} {run : Run} {r : Registration}
    (h : Held f epoch hook s tokens (.registering f left run r e)) :
    (∃ early, s = .registering run early) ∧ tokens = [] ∧ e = epoch := by
  cases h
  exact ⟨⟨_, rfl⟩, rfl, rfl⟩

theorem Held.of_returning {s : Standing} {left : Nat} {run : Run} {canceler : Canceler}
    (h : Held f epoch hook s tokens (.returning f left run canceler)) :
    (∃ early, s = .returned run early canceler) ∧ tokens = [] := by
  cases h
  exact ⟨⟨_, rfl⟩, rfl⟩

theorem Held.of_canceling {s : Standing} {left : Nat} {run : Run} {canceler : Canceler}
    (h : Held f epoch hook s tokens (.canceling f left run canceler)) :
    ∃ ended, s = .unwinding ended run canceler ∧ tokens = [] ∧ epoch = ended + 1 := by
  cases h with
  | canceling h => exact ⟨_, rfl, rfl, h⟩

theorem Held.of_exiting {s : Standing} {x : Exit Value Value} {hook' : ExitHook}
    (h : Held f epoch hook s tokens (.exiting f x hook')) :
    s = .exiting x ∧ tokens = [] ∧ hook' = hook := by
  cases h
  exact ⟨rfl, rfl, rfl⟩

theorem Held.of_start {s : Standing} {g : FiberId} (h : Held f epoch hook s (.start g :: tokens) a) :
    (∃ root, s = .fresh root) ∧ tokens = [] := by
  cases h
  exact ⟨⟨_, rfl⟩, rfl⟩

theorem Held.of_resume {s : Standing} {g : FiberId} {run : Run} {next : Next}
    (h : Held f epoch hook s (.resume g run next :: tokens) a) : s = .ready ⟨run, next⟩ ∧ tokens = [] := by
  cases h
  exact ⟨rfl, rfl⟩

theorem Held.of_unwind {s : Standing} {g : FiberId} {run : Run} {canceler : Canceler}
    (h : Held f epoch hook s (.unwind g canceler run :: tokens) a) :
    ∃ ended, s = .unwinding ended run canceler ∧ tokens = [] ∧ epoch = ended + 1 := by
  cases h with
  | unwinding h => exact ⟨_, rfl, rfl, h⟩

/-- At most one task waits for a fiber. -/
theorem Held.tokens_cases {s : Standing} (h : Held f epoch hook s tokens a) :
    tokens = [] ∨ ∃ t, tokens = [t] := by
  cases h with
  | fresh root => exact Or.inr ⟨_, rfl⟩
  | queued s => exact Or.inr ⟨_, rfl⟩
  | unwinding h run canceler => exact Or.inr ⟨_, rfl⟩
  | _ => exact Or.inl rfl

/-- Whether a completion has come makes no difference to who holds a fiber. -/
theorem Held.keepRegistering {run : Run} {early : Option (Exit Value Value)}
    (h : Held f epoch hook (.registering run early) tokens a) (early' : Option (Exit Value Value)) :
    Held f epoch hook (.registering run early') tokens a := by
  cases h
  exact .registering run early' _ _

theorem Held.keepReturned {run : Run} {early : Option (Exit Value Value)} {canceler : Canceler}
    (h : Held f epoch hook (.returned run early canceler) tokens a)
    (early' : Option (Exit Value Value)) : Held f epoch hook (.returned run early' canceler) tokens a := by
  cases h
  exact .returned run early' canceler _

end Held

/-- What a place of a fiber looks like. -/
structure Fits (f : FiberId) (v : View) (p : Place) : Prop where
  record : ∃ home, v.record = some (p.record home)
  held : Held f p.epoch p.hook p.standing v.tokens v.activity

/-- The fiber of an activity is held by it. -/
theorem Fits.held_of_activity {f : FiberId} {m : Moment} {p : Place} {a : Activity} (h : Fits f (m.view f) p)
    (hactivity : m.activity = a) (ha : a.fiber? = some f) :
    Held f p.epoch p.hook p.standing (m.world.tokens f) a := by
  have hheld : Held f p.epoch p.hook p.standing (m.world.tokens f) (m.activity.of f) := h.held
  rwa [hactivity, Activity.of_self ha] at hheld

/-- A fiber that is not there: nothing is known about it. -/
structure Absent (f : FiberId) (v : View) : Prop where
  record : v.record = none
  tokens : v.tokens = []
  activity : v.activity = .idle

namespace World

variable {w : World} {f : FiberId} {r : Fiber}

/-! ## Reading the record -/

theorem interruptPending_of_record (h : w.record f = some r) (masks : Masks) :
    w.interruptPending f masks = (masks.isInterruptible && r.interruptRequested) := by
  obtain ⟨fiber, hf, rfl⟩ := fiber?_of_record h
  simp [interruptPending, hf, Fiber.core]

theorem phase?_of_record (h : w.record f = some r) : w.phase? f = some r.phase := by
  obtain ⟨fiber, hf, rfl⟩ := fiber?_of_record h
  simp [phase?, hf, Fiber.core]

theorem phase?_congr {w' : World} (h : w'.record f = w.record f) : w'.phase? f = w.phase? f := by
  have hphase (v : World) : v.phase? f = (v.record f).map Fiber.phase := by
    simp only [phase?, record, Option.map_map]
    rfl
  rw [hphase, hphase, h]

theorem epoch_of_record (h : w.record f = some r) : w.epoch f = r.epoch := by
  obtain ⟨fiber, hf, rfl⟩ := fiber?_of_record h
  simp [epoch, hf, Fiber.core]

theorem hook_of_record (h : w.record f = some r) : (w.fiber? f).bind (·.hook) = r.hook := by
  obtain ⟨fiber, hf, rfl⟩ := fiber?_of_record h
  simp [hf, Fiber.core]

/-- A change that leaves the notice alone changes the record in the same way. -/
theorem record_modifyFiber (h : w.record f = some r) {change : Fiber → Fiber}
    (hchange : ∀ x : Fiber, (change x).core = change x.core) :
    (w.modifyFiber f change).record f = some (change r) := by
  obtain ⟨fiber, hf, rfl⟩ := fiber?_of_record h
  rw [record_modifyFiber_self hf, hchange]

theorem record_advanceEpoch (h : w.record f = some r) (phase : Phase) :
    (w.advanceEpoch f phase).record f = some { r with phase := phase, epoch := r.epoch + 1 } :=
  record_modifyFiber h fun _ => rfl

/-! ## Requests to interrupt -/

theorem interrupt_of_record (h : w.record f = some r) (hrequested : r.interruptRequested = true) :
    w.interrupt f = w ∧ w.interruptEvents f = [] := by
  obtain ⟨fiber, hf, rfl⟩ := fiber?_of_record h
  have hflag : fiber.interruptRequested = true := hrequested
  refine ⟨interrupt_of_requested hf hflag, ?_⟩
  simp [interruptEvents, hf, hflag]

theorem interrupt_of_not_suspended (h : w.record f = some r) (hrequested : r.interruptRequested = false)
    (hphase : ∀ run canceler, r.phase ≠ .suspended run canceler) :
    (w.interrupt f = w.modifyFiber f fun r => { r with interruptRequested := true }) ∧
      w.interruptEvents f = [(f, .requested)] := by
  obtain ⟨fiber, hf, rfl⟩ := fiber?_of_record h
  have hflag : fiber.interruptRequested = false := hrequested
  have hphase' : ∀ run canceler, fiber.phase ≠ .suspended run canceler := hphase
  constructor
  · simp only [interrupt, hf, hflag, Bool.false_eq_true, if_false]
  · simp only [interruptEvents, hf, hflag, Bool.false_eq_true, if_false]

/-- A parked fiber that may not be interrupted keeps the request for later. -/
theorem interrupt_of_masked (h : w.record f = some r) (hrequested : r.interruptRequested = false)
    {run : Run} {canceler : Canceler} (hphase : r.phase = .suspended run canceler)
    (hmasks : run.masks.isInterruptible = false) :
    (w.interrupt f = w.modifyFiber f fun r => { r with interruptRequested := true }) ∧
      w.interruptEvents f = [(f, .requested)] := by
  obtain ⟨fiber, hf, rfl⟩ := fiber?_of_record h
  have hflag : fiber.interruptRequested = false := hrequested
  have hphase' : fiber.phase = .suspended run canceler := hphase
  constructor
  · simp [interrupt, hf, hflag, hphase', hmasks]
  · simp [interruptEvents, hf, hflag, hphase', hmasks]

/-- A parked fiber that may be interrupted is handed to a task that unwinds it. -/
theorem interrupt_of_open (h : w.record f = some r) (hrequested : r.interruptRequested = false)
    {run : Run} {canceler : Canceler} (hphase : r.phase = .suspended run canceler)
    (hmasks : run.masks.isInterruptible = true) :
    (w.interrupt f = (w.modifyFiber f fun r =>
        { r with interruptRequested := true, phase := .running, epoch := r.epoch + 1 }).dispatchTo r.home
          (.unwind f canceler run)) ∧
      w.interruptEvents f = [(f, .requested), (f, .ended r.epoch .interrupted)] := by
  obtain ⟨fiber, hf, rfl⟩ := fiber?_of_record h
  have hflag : fiber.interruptRequested = false := hrequested
  have hphase' : fiber.phase = .suspended run canceler := hphase
  constructor
  · simp [interrupt, hf, hflag, hphase', hmasks, Fiber.core]
  · simp [interruptEvents, hf, hflag, hphase', hmasks, Fiber.core]

theorem record_interrupt_of_ne {g : FiberId} (h : g ≠ f) (w : World) :
    (w.interrupt g).record f = w.record f := by
  unfold interrupt
  split
  · rfl
  · split
    · rfl
    · split
      · split
        · rw [record_dispatchTo, record_modifyFiber_of_ne h]
        · exact record_modifyFiber_of_ne h w _
      · exact record_modifyFiber_of_ne h w _

theorem tokens_interrupt_of_ne {g : FiberId} (h : g ≠ f) (w : World) :
    (w.interrupt g).tokens f = w.tokens f := by
  have hother : ∀ canceler run, (Task.unwind g canceler run).fiber? ≠ some f :=
    fun _ _ e => h (Option.some.inj e)
  unfold interrupt
  split
  · rfl
  · split
    · rfl
    · split
      · split
        · rw [tokens_dispatchTo_of_ne (hother _ _), tokens_modifyFiber]
        · rfl
      · rfl

theorem history_interruptEvents_of_ne {g : FiberId} (h : g ≠ f) (w : World) :
    history f (w.interruptEvents g) = [] := by
  unfold interruptEvents
  split
  · rfl
  · split
    · rfl
    · split
      · split
        · simp [history_cons_of_ne h]
        · simp [history_cons_of_ne h]
      · simp [history_cons_of_ne h]

/-! ## Completions -/

theorem record_settle_of_ne {callback : Callback} (h : callback.fiber ≠ f) (x : Exit Value Value)
    (w : World) : (w.settle callback x).record f = w.record f := by
  unfold settle
  split
  · rfl
  · split
    · rfl
    · split
      · exact record_modifyFiber_of_ne h w _
      · rw [record_dispatchTo, record_modifyFiber_of_ne h]
      · rfl

theorem tokens_settle_of_ne {callback : Callback} (h : callback.fiber ≠ f) (x : Exit Value Value)
    (w : World) : (w.settle callback x).tokens f = w.tokens f := by
  have hother : ∀ run next, (Task.resume callback.fiber run next).fiber? ≠ some f :=
    fun _ _ e => h (Option.some.inj e)
  unfold settle
  split
  · rfl
  · split
    · rfl
    · split
      · rfl
      · rw [tokens_dispatchTo_of_ne (hother _ _), tokens_modifyFiber]
      · rfl

theorem history_settleEvents_of_ne {callback : Callback} (h : callback.fiber ≠ f)
    (x : Exit Value Value) (w : World) : history f (w.settleEvents callback x) = [] := by
  unfold settleEvents
  split
  · rfl
  · split
    · rfl
    · split
      · simp [history_cons_of_ne h]
      · simp [history_cons_of_ne h]
      · rfl

/-- A completion for an older or a future epoch changes nothing and makes nothing happen. -/
theorem settle_of_record_epoch {callback : Callback} (hf : w.record callback.fiber = some r)
    (h : r.epoch ≠ callback.epoch) (x : Exit Value Value) :
    w.settle callback x = w ∧ w.settleEvents callback x = [] := by
  obtain ⟨fiber, hfiber, rfl⟩ := fiber?_of_record hf
  have hepoch : fiber.epoch ≠ callback.epoch := h
  refine ⟨settle_of_epoch_ne hfiber hepoch x, ?_⟩
  simp [settleEvents, hfiber, hepoch]

/-- A completion for a fiber that neither registers nor is parked changes nothing. -/
theorem settle_of_phase {callback : Callback} (hf : w.record callback.fiber = some r)
    (hregistering : ∀ early, r.phase ≠ .registering early)
    (hsuspended : ∀ run canceler, r.phase ≠ .suspended run canceler) (x : Exit Value Value) :
    w.settle callback x = w ∧ w.settleEvents callback x = [] := by
  obtain ⟨fiber, hfiber, rfl⟩ := fiber?_of_record hf
  have hregistering' : ∀ early, fiber.phase ≠ .registering early := hregistering
  have hsuspended' : ∀ run canceler, fiber.phase ≠ .suspended run canceler := hsuspended
  constructor
  · unfold settle
    rw [hfiber]
    dsimp only
    split
    · rfl
    · split
      · rename_i early heq
        exact absurd heq (hregistering' early)
      · rename_i run canceler heq
        exact absurd heq (hsuspended' run canceler)
      · rfl
  · unfold settleEvents
    rw [hfiber]
    dsimp only
    split
    · rfl
    · split
      · rename_i heq
        exact absurd heq (hregistering' none)
      · rename_i run canceler heq
        exact absurd heq (hsuspended' run canceler)
      · rfl

/-- The first completion during a registration is kept, and no later one is. -/
theorem settle_of_registering {callback : Callback} (hf : w.record callback.fiber = some r)
    (hepoch : r.epoch = callback.epoch) {early : Option (Exit Value Value)}
    (hphase : r.phase = .registering early) (x : Exit Value Value) :
    (w.settle callback x = w.modifyFiber callback.fiber fun r =>
        { r with phase := .registering (early.or (some x)) }) ∧
      w.settleEvents callback x =
        if early.isSome then [] else [(callback.fiber, .kept r.epoch x)] := by
  obtain ⟨fiber, hfiber, rfl⟩ := fiber?_of_record hf
  have hepoch' : fiber.epoch = callback.epoch := hepoch
  have hphase' : fiber.phase = .registering early := hphase
  constructor
  · simp [settle, hfiber, hepoch', hphase']
  · cases early with
    | none => simp [settleEvents, hfiber, hepoch', hphase', Fiber.core]
    | some y => simp [settleEvents, hfiber, hepoch', hphase']

/-- The first completion of a parked fiber resumes it. -/
theorem settle_of_suspended {callback : Callback} (hf : w.record callback.fiber = some r)
    (hepoch : r.epoch = callback.epoch) {run : Run} {canceler : Canceler}
    (hphase : r.phase = .suspended run canceler) (x : Exit Value Value) :
    (w.settle callback x = (w.modifyFiber callback.fiber fun r =>
        { r with phase := .running, epoch := r.epoch + 1 }).dispatchTo r.home
          (.resume callback.fiber run (.ofExit x))) ∧
      w.settleEvents callback x = [(callback.fiber, .ended r.epoch (.answered x)),
        (callback.fiber, .continued r.epoch (.answered x) ⟨run, .ofExit x⟩)] := by
  obtain ⟨fiber, hfiber, rfl⟩ := fiber?_of_record hf
  have hepoch' : fiber.epoch = callback.epoch := hepoch
  have hphase' : fiber.phase = .suspended run canceler := hphase
  constructor
  · simp [settle, hfiber, hepoch', hphase', Fiber.core]
  · simp [settleEvents, hfiber, hepoch', hphase', Fiber.core]

end World

namespace Fits

variable {f : FiberId} {v v' : View} {p : Place}

/-- Raising the flag of a fiber is a request, wherever the fiber is. -/
theorem flag (h : Fits f v p) {r : Fiber} (hr : v.record = some r)
    (hrecord : v'.record = some { r with interruptRequested := true }) (htokens : v'.tokens = v.tokens)
    (hactivity : v'.activity = v.activity) : Fits f v' { p with requested := true } := by
  obtain ⟨home, hhome⟩ := h.record
  cases hr.symm.trans hhome
  refine ⟨⟨home, hrecord⟩, ?_⟩
  rw [htokens, hactivity]
  exact h.held

end Fits

/-! ## Requests -/

theorem Place.phase_record (p : Place) (home : LoopName) : (p.record home).phase = p.standing.phase := rfl

/-- The phase of a fiber is that of its place. -/
theorem Fits.phase?_eq {f : FiberId} {w : World} {a : Activity} {p : Place} (h : Fits f (w.view f a) p) :
    w.phase? f = some p.standing.phase := by
  obtain ⟨home, hrecord⟩ := h.record
  exact World.phase?_of_record hrecord

theorem Place.record_of_alive {p : Place} (h : p.standing.exit? = none) (home : LoopName) :
    p.record home =
      { home := home
        phase := p.standing.phase
        epoch := p.epoch
        interruptRequested := p.requested
        hook := some p.hook
        notice := p.hook.notice } := by
  unfold record notice
  rw [h]
  cases hs : p.standing with
  | done x =>
    rw [hs] at h
    cases h
  | _ => rfl

theorem Standing.phase_eq_created {s : Standing} {root : Effect} (h : s.phase = .created root) :
    s = .fresh root := by
  cases s with
  | fresh root' =>
    cases h
    rfl
  | _ => cases h

theorem Standing.phase_eq_suspended {s : Standing} {run : Run} {canceler : Canceler}
    (h : s.phase = .suspended run canceler) : s = .parked run canceler := by
  cases s with
  | parked run' canceler' =>
    cases h
    rfl
  | _ => cases h

section Requests

variable {f : FiberId} {a : Activity} {w w' : World} {p : Place}

/-- A request to interrupt a fiber raises its flag, and ends the registration on which it is parked if it is
interruptible there. -/
theorem Fits.interrupt (h : Fits f (w.view f a) p) :
    ∃ q, Moves p (history f (w.interruptEvents f)) q ∧ Fits f ((w.interrupt f).view f a) q := by
  obtain ⟨home, hrecord⟩ := h.record
  cases hrequested : p.requested with
  | true =>
    obtain ⟨hworld, hevents⟩ := World.interrupt_of_record hrecord hrequested
    rw [hworld, hevents]
    exact ⟨p, .refl p, h⟩
  | false =>
    by_cases hparked : ∃ run canceler, p.standing = .parked run canceler
    · obtain ⟨run, canceler, hstanding⟩ := hparked
      have hphase : (p.record home).phase = .suspended run canceler := by
        rw [Place.phase_record, hstanding]
        rfl
      cases hmasks : run.masks.isInterruptible with
      | false =>
        obtain ⟨hworld, hevents⟩ := World.interrupt_of_masked hrecord hrequested hphase hmasks
        rw [hworld, hevents, history_cons_self]
        refine ⟨{ p with requested := true }, .one (.request hrequested), ?_⟩
        exact h.flag hrecord (World.record_modifyFiber hrecord fun _ => rfl) rfl rfl
      | true =>
        obtain ⟨hworld, hevents⟩ := World.interrupt_of_open hrecord hrequested hphase hmasks
        rw [hworld, hevents, history_cons_self, history_cons_self]
        have halive : p.standing.exit? = none := by rw [hstanding]; rfl
        have hheld := h.held
        rw [hstanding] at hheld
        obtain ⟨htokens, ha⟩ := hheld.of_parked
        have hidle : a = .idle := ha
        have hchanged : (w.modifyFiber f fun r =>
            { r with interruptRequested := true, phase := .running, epoch := r.epoch + 1 }).record f =
              some { p.record home with
                interruptRequested := true, phase := .running, epoch := p.epoch + 1 } :=
          World.record_modifyFiber hrecord fun _ => rfl
        refine ⟨({ p with requested := true } : Place).beyond (.unwinding p.epoch run canceler),
          .two (.request hrequested) (.interruptParked hstanding hmasks rfl), ⟨home, ?_⟩, ?_⟩
        · show World.record _ _ = _
          rw [World.record_dispatchTo, hchanged, Place.record_of_alive halive,
            Place.record_of_alive rfl]
          rfl
        · have hnil : (w.modifyFiber f fun r =>
              { r with interruptRequested := true, phase := .running, epoch := r.epoch + 1 }).tokens f = [] :=
            htokens
          have hqueued := World.tokens_dispatchTo_of_nil (t := .unwind f canceler run) rfl hnil
            (p.record home).home
          show Held _ _ _ _ (World.tokens _ _) a
          rw [hqueued, hidle]
          exact .unwinding rfl run canceler
    · have hphase : ∀ run canceler, (p.record home).phase ≠ .suspended run canceler :=
        fun run canceler he => hparked ⟨run, canceler, Standing.phase_eq_suspended he⟩
      obtain ⟨hworld, hevents⟩ := World.interrupt_of_not_suspended hrecord hrequested hphase
      rw [hworld, hevents, history_cons_self]
      refine ⟨{ p with requested := true }, .one (.request hrequested), ?_⟩
      exact h.flag hrecord (World.record_modifyFiber hrecord fun _ => rfl) rfl rfl

theorem Place.epoch_record (p : Place) (home : LoopName) : (p.record home).epoch = p.epoch := rfl

theorem Standing.phase_eq_registering {s : Standing} {early : Option (Exit Value Value)}
    (h : s.phase = .registering early) :
    (∃ run, s = .registering run early) ∨ ∃ run canceler, s = .returned run early canceler := by
  cases s with
  | registering run early' =>
    cases h
    exact Or.inl ⟨run, rfl⟩
  | returned run early' canceler =>
    cases h
    exact Or.inr ⟨run, canceler, rfl⟩
  | _ => cases h

/-- The first completion that comes before the end of a registration is kept. -/
theorem Fits.settle_registering {callback : Callback}
    (h : Fits callback.fiber (w.view callback.fiber a) p) (hepoch : p.epoch = callback.epoch)
    {early : Option (Exit Value Value)} (hphase : p.standing.phase = .registering early)
    (x : Exit Value Value) :
    ∃ q, Moves p (history callback.fiber (w.settleEvents callback x)) q ∧
      Fits callback.fiber ((w.settle callback x).view callback.fiber a) q := by
  obtain ⟨home, hrecord⟩ := h.record
  obtain ⟨hworld, hevents⟩ := World.settle_of_registering hrecord hepoch hphase x
  rw [hworld, hevents]
  have hchanged : (w.modifyFiber callback.fiber fun r =>
      { r with phase := .registering (early.or (some x)) }).record callback.fiber =
        some { p.record home with phase := .registering (early.or (some x)) } :=
    World.record_modifyFiber hrecord fun _ => rfl
  cases early with
  | some y =>
    refine ⟨p, .refl p, ⟨home, ?_⟩, h.held⟩
    show World.record _ _ = _
    rw [hchanged, Option.some_or, ← hphase]
    rfl
  | none =>
    rw [if_neg (by decide), history_cons_self]
    have hheld := h.held
    rcases Standing.phase_eq_registering hphase with ⟨run, hstanding⟩ | ⟨run, canceler, hstanding⟩
    · have halive : p.standing.exit? = none := by rw [hstanding]; rfl
      rw [hstanding] at hheld
      refine ⟨p.moveTo (.registering run (some x)), .one (.keepRegistering hstanding x), ⟨home, ?_⟩,
        hheld.keepRegistering _⟩
      show World.record _ _ = _
      rw [hchanged, Place.record_of_alive halive, Place.record_of_alive rfl]
      rfl
    · have halive : p.standing.exit? = none := by rw [hstanding]; rfl
      rw [hstanding] at hheld
      refine ⟨p.moveTo (.returned run (some x) canceler), .one (.keepReturned hstanding x), ⟨home, ?_⟩,
        hheld.keepReturned _⟩
      show World.record _ _ = _
      rw [hchanged, Place.record_of_alive halive, Place.record_of_alive rfl]
      rfl

/-- The first completion of a parked fiber ends its registration and queues its run. -/
theorem Fits.settle_parked {callback : Callback} (h : Fits callback.fiber (w.view callback.fiber a) p)
    (hepoch : p.epoch = callback.epoch) {run : Run} {canceler : Canceler}
    (hphase : p.standing.phase = .suspended run canceler) (x : Exit Value Value) :
    ∃ q, Moves p (history callback.fiber (w.settleEvents callback x)) q ∧
      Fits callback.fiber ((w.settle callback x).view callback.fiber a) q := by
  obtain ⟨home, hrecord⟩ := h.record
  obtain ⟨hworld, hevents⟩ := World.settle_of_suspended hrecord hepoch hphase x
  rw [hworld, hevents, history_cons_self, history_cons_self]
  have hstanding := Standing.phase_eq_suspended hphase
  have halive : p.standing.exit? = none := by rw [hstanding]; rfl
  have hheld := h.held
  rw [hstanding] at hheld
  obtain ⟨htokens, hidle⟩ := hheld.of_parked
  have hidle' : a = .idle := hidle
  have hchanged : (w.modifyFiber callback.fiber fun r =>
      { r with phase := .running, epoch := r.epoch + 1 }).record callback.fiber =
        some { p.record home with phase := .running, epoch := p.epoch + 1 } :=
    World.record_modifyFiber hrecord fun _ => rfl
  have hnil : (w.modifyFiber callback.fiber fun r =>
      { r with phase := .running, epoch := r.epoch + 1 }).tokens callback.fiber = [] := htokens
  have hqueued := World.tokens_dispatchTo_of_nil (t := .resume callback.fiber run (.ofExit x)) rfl hnil
    (p.record home).home
  refine ⟨p.beyond (.ready ⟨run, .ofExit x⟩),
    .two (.answer hstanding x) (.continue rfl), ⟨home, ?_⟩, ?_⟩
  · show World.record _ _ = _
    rw [World.record_dispatchTo, hchanged, Place.record_of_alive halive, Place.record_of_alive rfl]
    rfl
  · show Held _ _ _ _ (World.tokens _ _) a
    rw [hqueued, hidle']
    exact .queued ⟨run, .ofExit x⟩

/-- The completion of a callback makes its fiber move only if it is the first one of the registration that
the fiber is in. -/
theorem Fits.settle {callback : Callback} (h : Fits callback.fiber (w.view callback.fiber a) p)
    (x : Exit Value Value) :
    ∃ q, Moves p (history callback.fiber (w.settleEvents callback x)) q ∧
      Fits callback.fiber ((w.settle callback x).view callback.fiber a) q := by
  obtain ⟨home, hrecord⟩ := h.record
  by_cases hepoch : p.epoch = callback.epoch
  · cases hphase : p.standing.phase with
    | registering early => exact h.settle_registering hepoch hphase x
    | suspended run canceler => exact h.settle_parked hepoch hphase x
    | created root | running | done =>
      have hchanges := World.settle_of_phase hrecord
        (by rw [Place.phase_record, hphase]; exact fun _ => Phase.noConfusion)
        (by rw [Place.phase_record, hphase]; exact fun _ _ => Phase.noConfusion) x
      rw [hchanges.1, hchanges.2]
      exact ⟨p, .refl p, h⟩
  · have hchanges := World.settle_of_record_epoch hrecord hepoch x
    rw [hchanges.1, hchanges.2]
    exact ⟨p, .refl p, h⟩

end Requests

/-! ## All requests -/

section AllRequests

variable {f : FiberId} {a : Activity} {w w' : World} {p : Place} {es : Chronicle}

theorem Fits.congr {v v' : View} (h : Fits f v p) (hrecord : v'.record = v.record)
    (htokens : v'.tokens = v.tokens) (hactivity : v'.activity = v.activity) : Fits f v' p := by
  obtain ⟨⟨home, hhome⟩, hheld⟩ := h
  refine ⟨⟨home, hrecord.trans hhome⟩, ?_⟩
  rw [htokens, hactivity]
  exact hheld

theorem World.tokens_quiet (h : w.Quiet w') (f : FiberId) : w'.tokens f = w.tokens f := by
  rw [tokens, h.loop.tokens, h.aside.tokens]
  rfl

/-- A fiber that is there is not the next one to be launched. -/
theorem World.ne_size_of_record {r : Fiber} (h : w.record f = some r) : f ≠ ⟨w.fibers.size⟩ := by
  intro hf
  obtain ⟨fiber, hfiber, -⟩ := fiber?_of_record h
  have hget : w.fibers.get? f.index = some fiber := hfiber
  have hlt := (Table.isSome_get?_iff w.fibers f.index).1 (by rw [hget]; rfl)
  rw [hf] at hlt
  exact Nat.lt_irrefl _ hlt

theorem World.fiber?_launch_of_ne {root : Effect} {hook : ExitHook} {notice : Option ExitNotice}
    (hf : f ≠ ⟨w.fibers.size⟩) : (w.launch root hook notice).2.fiber? f = w.fiber? f := by
  have hindex : f.index ≠ w.fibers.size := fun e => hf (by rw [← e])
  show (w.fibers.push _).get? f.index = w.fibers.get? f.index
  rw [Table.get?_push, if_neg hindex]

theorem World.tokens_launch_of_ne {root : Effect} {hook : ExitHook} {notice : Option ExitNotice}
    (hf : f ≠ ⟨w.fibers.size⟩) : (w.launch root hook notice).2.tokens f = w.tokens f := by
  have hother : (Task.start ⟨w.fibers.size⟩).fiber? ≠ some f := fun e => hf (Option.some.inj e).symm
  show ((World.prepare root hook notice w).2.dispatch (.start ⟨w.fibers.size⟩)).tokens f = _
  rw [dispatch_eq_dispatchTo, tokens_dispatchTo_of_ne hother]
  rfl

/-- **Whatever is requested, each fiber makes the moves that the request is labelled with.** -/
theorem Request.fits (hrequest : Request w es w') (h : Fits f (w.view f a) p) :
    ∃ q, Moves p (history f es) q ∧ Fits f (w'.view f a) q := by
  cases hrequest with
  | quiet hquiet =>
    exact ⟨p, .refl p, h.congr (hquiet.record f) (World.tokens_quiet hquiet f) rfl⟩
  | interrupt g =>
    by_cases hg : g = f
    · subst hg
      exact h.interrupt
    · rw [World.history_interruptEvents_of_ne hg]
      exact ⟨p, .refl p, h.congr (World.record_interrupt_of_ne hg w)
        (World.tokens_interrupt_of_ne hg w) rfl⟩
  | settle callback x =>
    by_cases hg : callback.fiber = f
    · subst hg
      exact h.settle x
    · rw [World.history_settleEvents_of_ne hg]
      exact ⟨p, .refl p, h.congr (World.record_settle_of_ne hg x w)
        (World.tokens_settle_of_ne hg x w) rfl⟩
  | launch root hook =>
    obtain ⟨home, hrecord⟩ := h.record
    have hf : f ≠ ⟨w.fibers.size⟩ := World.ne_size_of_record hrecord
    rw [history_cons_of_ne (Ne.symm hf)]
    refine ⟨p, .refl p, h.congr ?_ (World.tokens_launch_of_ne hf) rfl⟩
    show World.record _ _ = World.record _ _
    rw [World.record, World.fiber?_launch_of_ne hf]
    rfl

theorem Requests.fits (hrequests : Requests w es w') (h : Fits f (w.view f a) p) :
    ∃ q, Moves p (history f es) q ∧ Fits f (w'.view f a) q := by
  induction hrequests generalizing p with
  | refl w => exact ⟨p, .refl p, h⟩
  | step first _ ih =>
    obtain ⟨q, hmoves, hq⟩ := first.fits h
    obtain ⟨q', hmoves', hq'⟩ := ih hq
    rw [history_append]
    exact ⟨q', hmoves.append hmoves', hq'⟩

end AllRequests

end FiberLoop
