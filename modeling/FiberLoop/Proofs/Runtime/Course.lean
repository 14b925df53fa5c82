import FiberLoop.Proofs.Runtime.Path

/-!
# The course of a fiber

What happens to one fiber, seen by itself: it is launched, begins, takes steps, registers callbacks, is asked to
stop, and exits. A `Place` says how far it has come and a `Move` is one thing that happens to it. `Moves` are the
courses a fiber can take, with the list of what has happened.

Nothing is said here about who makes a move or when: every order in which callbacks are completed,
interrupts requested and tasks run is some course. That the fibers of a world take no other courses is the
subject of the module on accounting.
-/

namespace FiberLoop

/-- What happens to a fiber. -/
inductive Event where
  | launched (root : Effect) (hook : ExitHook)
  | began (root : Effect)
  | stepped (way : Way) (stand : Stand)
  /-- A registration starts a new epoch. -/
  | registered (registration : Registration) (epoch : Nat)
  /-- The closure of the registration has returned. -/
  | returned (epoch : Nat) (canceler : Canceler)
  /-- The first completion has come before the end of the registration. -/
  | kept (epoch : Nat) (exit : Exit Value Value)
  | parked (epoch : Nat)
  | requested
  /-- The registration of that epoch has ended. -/
  | ended (epoch : Nat) (ending : Ending)
  | canceled (epoch : Nat) (canceler : Canceler)
  /-- The fiber goes on after the registration of that epoch. -/
  | continued (epoch : Nat) (ending : Ending) (stand : Stand)
  | exited (exit : Exit Value Value)
  /-- The exit was told to the hook. -/
  | told (exit : Exit Value Value) (hook : ExitHook)
  /-- A registration ended in a phase in which none can. -/
  | unexpected

/-- What a list of events says about something grows with every event by what that says. -/
theorem Event.filterMap_concat {β : Type} (g : Event → Option β) (es : List Event) (e : Event) :
    (es ++ [e]).filterMap g = es.filterMap g ++ (g e).toList := by
  rw [List.filterMap_append, List.filterMap_cons]
  cases g e <;> rfl

/-- How far a fiber has come. -/
inductive Standing where
  | fresh (root : Effect)
  | ready (stand : Stand)
  /-- The closure of a registration runs; the first completion is kept. -/
  | registering (run : Run) (early : Option (Exit Value Value))
  /-- The closure of a registration has returned. -/
  | returned (run : Run) (early : Option (Exit Value Value)) (canceler : Canceler)
  | parked (run : Run) (canceler : Canceler)
  /-- The registration of that epoch has ended, and the fiber has not gone on yet. -/
  | leaving (epoch : Nat) (run : Run) (ending : Ending)
  /-- The registration of that epoch was interrupted, and what it waited for is not cancelled yet. -/
  | unwinding (epoch : Nat) (run : Run) (canceler : Canceler)
  | exiting (exit : Exit Value Value)
  | done (exit : Exit Value Value)

/-- Where a fiber is in its course. -/
structure Place where
  standing : Standing
  epoch : Nat
  /-- Whether its interruption was requested. -/
  requested : Bool
  /-- What becomes of its exit. -/
  hook : ExitHook

namespace Place

/-- A fiber that was just launched. -/
def launched (root : Effect) (hook : ExitHook) : Place :=
  { standing := .fresh root, epoch := 0, requested := false, hook := hook }

/-- The same fiber elsewhere in the same epoch. -/
def moveTo (p : Place) (standing : Standing) : Place := { p with standing := standing }

/-- The same fiber elsewhere in the next epoch. -/
def beyond (p : Place) (standing : Standing) : Place :=
  { p with standing := standing, epoch := p.epoch + 1 }

end Place

/-- One thing that can happen to a fiber. -/
inductive Move : Place → Event → Place → Prop where
  | begin {p : Place} {root : Effect} (h : p.standing = .fresh root) :
    Move p (.began root) (p.moveTo (.ready ⟨{}, .eval root⟩))
  | step {p : Place} {s s' : Stand} {way : Way} (h : p.standing = .ready s) (hleads : Leads s way s')
    (hway : ∀ ending, way ≠ .ended ending) (hcut : way = .cut → p.requested = true) :
    Move p (.stepped way s') (p.moveTo (.ready s'))
  | register {p : Place} {s : Stand} {r : Registration} (h : p.standing = .ready s)
    (hdeed : s.deed = .register r) :
    Move p (.registered r (p.epoch + 1)) (p.beyond (.registering s.run none))
  | return {p : Place} {run : Run} {early : Option (Exit Value Value)}
    (h : p.standing = .registering run early) (canceler : Canceler) :
    Move p (.returned p.epoch canceler) (p.moveTo (.returned run early canceler))
  | keepRegistering {p : Place} {run : Run} (h : p.standing = .registering run none)
    (x : Exit Value Value) : Move p (.kept p.epoch x) (p.moveTo (.registering run (some x)))
  | keepReturned {p : Place} {run : Run} {canceler : Canceler} (h : p.standing = .returned run none canceler)
    (x : Exit Value Value) : Move p (.kept p.epoch x) (p.moveTo (.returned run (some x) canceler))
  | park {p : Place} {run : Run} {canceler : Canceler} (h : p.standing = .returned run none canceler)
    (hopen : run.masks.isInterruptible = true → p.requested = false) :
    Move p (.parked p.epoch) (p.moveTo (.parked run canceler))
  | request {p : Place} (h : p.requested = false) : Move p .requested { p with requested := true }
  | throw {p : Place} {run : Run} {early : Option (Exit Value Value)}
    (h : p.standing = .registering run early) (d : Defect) :
    Move p (.ended p.epoch (.threw d)) (p.beyond (.leaving p.epoch run (.threw d)))
  | early {p : Place} {run : Run} {x : Exit Value Value} {canceler : Canceler}
    (h : p.standing = .returned run (some x) canceler) :
    Move p (.ended p.epoch (.early x)) (p.beyond (.leaving p.epoch run (.early x)))
  | answer {p : Place} {run : Run} {canceler : Canceler} (h : p.standing = .parked run canceler)
    (x : Exit Value Value) :
    Move p (.ended p.epoch (.answered x)) (p.beyond (.leaving p.epoch run (.answered x)))
  | interruptReturned {p : Place} {run : Run} {canceler : Canceler}
    (h : p.standing = .returned run none canceler) (hopen : run.masks.isInterruptible = true)
    (hrequested : p.requested = true) :
    Move p (.ended p.epoch .interrupted) (p.beyond (.unwinding p.epoch run canceler))
  | interruptParked {p : Place} {run : Run} {canceler : Canceler}
    (h : p.standing = .parked run canceler) (hopen : run.masks.isInterruptible = true)
    (hrequested : p.requested = true) :
    Move p (.ended p.epoch .interrupted) (p.beyond (.unwinding p.epoch run canceler))
  | cancel {p : Place} {epoch : Nat} {run : Run} {canceler : Canceler}
    (h : p.standing = .unwinding epoch run canceler) :
    Move p (.canceled epoch canceler) (p.moveTo (.leaving epoch run .interrupted))
  | continue {p : Place} {epoch : Nat} {run : Run} {ending : Ending}
    (h : p.standing = .leaving epoch run ending) :
    Move p (.continued epoch ending ⟨run, .ofExit ending.exit⟩)
      (p.moveTo (.ready ⟨run, .ofExit ending.exit⟩))
  | exit {p : Place} {s : Stand} {x : Exit Value Value} (h : p.standing = .ready s)
    (hdeed : s.deed = .exit x) : Move p (.exited x) (p.moveTo (.exiting x))
  | tell {p : Place} {x : Exit Value Value} (h : p.standing = .exiting x) :
    Move p (.told x p.hook) (p.moveTo (.done x))

/-- What can happen to a fiber from one place to another. -/
inductive Moves : Place → List Event → Place → Prop where
  | refl (p : Place) : Moves p [] p
  | step {p p' q : Place} {e : Event} {rest : List Event} (first : Move p e p') (h : Moves p' rest q) :
    Moves p (e :: rest) q

namespace Moves

variable {p q r : Place} {es es' : List Event}

theorem one {e : Event} (h : Move p e q) : Moves p [e] q := .step h (.refl q)

theorem two {e e' : Event} (h : Move p e q) (h' : Move q e' r) : Moves p [e, e'] r :=
  .step h (one h')

theorem append (h : Moves p es q) (h' : Moves q es' r) : Moves p (es ++ es') r := by
  induction h with
  | refl p => exact h'
  | step first _ ih => exact .step first (ih h')

/-- A property of places and of what has happened that every move keeps holds of every course. -/
theorem invariant {P : List Event → Place → Prop} {before : List Event} (h : Moves p es q)
    (hstep : ∀ {es p e q}, P es p → Move p e q → P (es ++ [e]) q) (hp : P before p) :
    P (before ++ es) q := by
  induction h generalizing before with
  | refl p => rwa [List.append_nil]
  | step first _ ih =>
    rw [List.append_cons]
    exact ih (hstep hp first)

/-- Epochs only grow. -/
theorem epoch_le (h : Moves p es q) : p.epoch ≤ q.epoch := by
  induction h with
  | refl p => exact Nat.le_refl _
  | step first _ ih =>
    refine Nat.le_trans ?_ ih
    cases first with
    | register | throw | early | answer | interruptReturned | interruptParked => exact Nat.le_succ _
    | _ => exact Nat.le_refl _

end Moves

theorem Moves.one_eq {p q : Place} {e : Event} (h : Moves p [e] q) : Move p e q := by
  obtain _ | ⟨first, hrest⟩ := h
  cases hrest
  exact first

theorem Moves.two_eq {p q : Place} {e e' : Event} (h : Moves p [e, e'] q) : ∃ r, Move p e r ∧ Move r e' q := by
  obtain _ | ⟨first, hrest⟩ := h
  exact ⟨_, first, hrest.one_eq⟩

section Inversion

variable {p q : Place} {epoch : Nat} {s : Stand} {r : Registration} {run : Run} {early : Option (Exit Value Value)}
  {x : Exit Value Value} {canceler : Canceler}

theorem Move.of_registered (h : Move p (.registered r epoch) q) (hp : p.standing = .ready s) :
    q = p.beyond (.registering s.run none) := by
  cases h with
  | register hstanding hdeed =>
    cases hstanding.symm.trans hp
    rfl

theorem Move.of_returned (h : Move p (.returned epoch canceler) q) (hp : p.standing = .registering run early) :
    q = p.moveTo (.returned run early canceler) := by
  cases h with
  | «return» hstanding canceler =>
    cases hstanding.symm.trans hp
    rfl

theorem Move.of_kept (h : Move p (.kept epoch x) q) (hp : p.standing = .registering run none) :
    q = p.moveTo (.registering run (some x)) := by
  cases h with
  | keepRegistering hstanding x =>
    cases hstanding.symm.trans hp
    rfl
  | keepReturned hstanding x => cases hstanding.symm.trans hp

theorem Move.of_parked (h : Move p (.parked epoch) q) (hp : p.standing = .returned run none canceler) :
    q = p.moveTo (.parked run canceler) := by
  cases h with
  | park hstanding hopen =>
    cases hstanding.symm.trans hp
    rfl

end Inversion

/-- What has happened to a fiber since it was launched, and where that has brought it. -/
def Course (events : List Event) (p : Place) : Prop :=
  ∃ root hook rest, events = .launched root hook :: rest ∧ Moves (.launched root hook) rest p

namespace Course

theorem launched (root : Effect) (hook : ExitHook) : Course [.launched root hook] (.launched root hook) :=
  ⟨root, hook, [], rfl, .refl _⟩

theorem append {events es : List Event} {p q : Place} (h : Course events p) (h' : Moves p es q) :
    Course (events ++ es) q := by
  obtain ⟨root, hook, rest, rfl, hmoves⟩ := h
  exact ⟨root, hook, rest ++ es, rfl, hmoves.append h'⟩

/-- A property that holds of every launched fiber and is kept by every move holds of every course. -/
theorem invariant {P : List Event → Place → Prop} {events : List Event} {p : Place} (h : Course events p)
    (hlaunched : ∀ root hook, P [.launched root hook] (.launched root hook))
    (hstep : ∀ {es p e q}, P es p → Move p e q → P (es ++ [e]) q) : P events p := by
  obtain ⟨root, hook, rest, rfl, hmoves⟩ := h
  exact hmoves.invariant hstep (hlaunched root hook)

end Course

end FiberLoop
