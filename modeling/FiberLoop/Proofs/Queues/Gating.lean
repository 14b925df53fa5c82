import FiberLoop.Proofs.Queues.Offering
import FiberLoop.Proofs.Queues.Redeeming

/-!
# The course of a take through a gate

A take of a queue with a gate is a bracket around a take of one without: it returns a permit before it asks for an
item, and acquires one again if it was interrupted. `Passage.Entering` lists the stands of a fiber before the take that
is inside, `Passage.Closing` those after it, and `Passage.Leaving` those after the permit was acquired again where that
was due; the theorems named `next` say what comes after each. An interrupt can take effect in one place only, where the
take inside is about to begin.
-/

namespace FiberLoop

/-- A take through a gate: the run around it, the gate and the queue. -/
structure Passage where
  base : Run
  gate : SemaphoreId
  queue : QueueId

namespace Passage

variable (P : Passage)

/-- What is done with the permit that was returned. -/
def release : Release := .ifInterrupted (.acquirePermit P.gate)

/-- The take that is inside. -/
def body : Effect := .takeItem P.queue none

/-- What is done at the end of a take, given its exit. -/
def cleanup (x : Exit Value Value) : Effect := if x.isInterrupted then .acquirePermit P.gate else .unitValue

/-! ## The stacks -/

/-- The run on which the permit is returned. -/
def opening : Run := P.base.push (.chain (.useResource P.release (.proceed P.body)))

def held : Run := P.base.holding P.release .null

/-- The run on which the take that is inside is evaluated. -/
def inner : Run := P.base.inUse P.release .null

/-! ## The stands -/

/-- Before the take that is inside begins. The toll is how many permits were acquired since the permit was returned, if it
was returned. -/
inductive Entering : Option Nat → Stand → Prop where
  | opening : Entering none ⟨P.opening, .eval (Effect.releasePermit P.gate).uninterruptible⟩
  | shut : Entering none ⟨P.opening.enter .uninterruptible, .eval (.releasePermit P.gate)⟩
  | giving : Entering none
      ⟨(P.opening.enter .uninterruptible).enter .uninterruptible, .eval (.perform (.releasePermit P.gate))⟩
  | given : Entering (some 0) ⟨(P.opening.enter .uninterruptible).enter .uninterruptible, .value .null⟩
  | released : Entering (some 0) ⟨P.opening.enter .uninterruptible, .value .null⟩
  | opened : Entering (some 0) ⟨P.opening, .value .null⟩
  | bracketed : Entering (some 0) ⟨P.base, .eval (.chain (Effect.suspend (.continue (.proceed P.body) .null)).result
      (.releaseResource P.release .null))⟩
  | held : Entering (some 0) ⟨P.held, .eval (Effect.suspend (.continue (.proceed P.body) .null)).result⟩
  | turning : Entering (some 0) ⟨P.inner, .eval (.suspend (.continue (.proceed P.body) .null))⟩
  | beginning : Entering (some 0) ⟨P.inner, .eval P.body⟩

/-- After the take that is inside has ended, or was skipped. -/
inductive Closing (x : Exit Value Value) : Stand → Prop where
  | ended : Closing x ⟨P.inner, .ofExit x⟩
  | told : Closing x ⟨P.held, .value (.exit x)⟩
  | closing : Closing x ⟨P.base, .eval ((P.cleanup x).andThen (.resume x)).uninterruptible⟩
  | shut : Closing x ⟨P.base.enter .uninterruptible, .eval ((P.cleanup x).andThen (.resume x))⟩
  | cleaning : Closing x ⟨P.base.releasing x, .eval (P.cleanup x)⟩

/-- After a permit was acquired again, or was not due. -/
inductive Leaving (x : Exit Value Value) : Stand → Prop where
  | cleaned : Leaving x ⟨P.base.releasing x, .value .null⟩
  | resuming : Leaving x ⟨P.base.enter .uninterruptible, .eval (.resume x)⟩
  | leaving : Leaving x ⟨P.base.enter .uninterruptible, .ofExit x⟩

variable {P} {s : Stand} {x : Exit Value Value} {toll : Option Nat}

theorem cleanup_of_interrupted (h : x.isInterrupted = true) : P.cleanup x = .acquirePermit P.gate := if_pos h

theorem cleanup_of_not_interrupted (h : x.isInterrupted = false) : P.cleanup x = .unitValue :=
  if_neg (Bool.eq_false_iff.1 h)

theorem masked_releasing (run : Run) (x : Exit Value Value) : (run.releasing x).masks.isInterruptible = false :=
  Masks.isInterruptible_push_uninterruptible _

/-- What a fiber does before the take that is inside begins. -/
inductive Enters (P : Passage) (toll : Option Nat) (s : Stand) : Prop where
  | go {s' : Stand} (hgoes : s.Goes s') (h : P.Entering toll s') (hbegins : ∀ sem, ¬ s.Begins sem)
  /-- The permit is returned. -/
  | give (htoll : toll = none)
    (hs : s = ⟨(P.opening.enter .uninterruptible).enter .uninterruptible, .eval (.perform (.releasePermit P.gate))⟩)
  /-- The take that is inside is next, unless the fiber is interrupted. -/
  | turn (htoll : toll = some 0) (hs : s = ⟨P.inner, .eval (.suspend (.continue (.proceed P.body) .null))⟩)
  /-- The take that is inside begins. -/
  | begin (htoll : toll = some 0) (hs : s = ⟨P.inner, .eval P.body⟩)

/-- **What comes after each stand before the take that is inside.** -/
theorem Entering.next (h : P.Entering toll s) : P.Enters toll s := by
  cases h with
  | opening => exact .go (.move rfl) .shut nofun
  | shut => exact .go (.move rfl) .giving nofun
  | giving => exact .give rfl rfl
  | given => exact .go (.move rfl) .released nofun
  | released => exact .go (.move rfl) .opened nofun
  | opened => exact .go (.call rfl (Or.inl rfl) (fun _ => rfl) fun _ _ _ => rfl) .bracketed nofun
  | bracketed => exact .go (.move rfl) .held nofun
  | held => exact .go (.move rfl) .turning nofun
  | turning => exact .turn rfl rfl
  | beginning => exact .begin rfl rfl

/-- What a fiber does after the take that is inside. -/
inductive Closes (P : Passage) (x : Exit Value Value) (s : Stand) : Prop where
  | go {s' : Stand} (hgoes : s.Goes s') (h : P.Closing x s') (hbegins : ∀ sem, ¬ s.Begins sem)
  /-- A permit is acquired again. -/
  | acquire (hx : x.isInterrupted = true) (hs : s = ⟨P.base.releasing x, .eval (.acquirePermit P.gate)⟩)
  /-- No permit is due. -/
  | skip (hx : x.isInterrupted = false) (hgoes : s.Goes ⟨P.base.releasing x, .value .null⟩)
    (hbegins : ∀ sem, ¬ s.Begins sem)

/-- **What comes after each stand after the take that is inside.** -/
theorem Closing.next (h : P.Closing x s) : P.Closes x s := by
  cases h with
  | ended =>
    cases x with
    | value v | cause c => exact .go (.call rfl (Or.inl rfl) (fun _ => rfl) fun _ _ _ => rfl) .told nofun
  | told => exact .go (.call rfl (Or.inl rfl) (fun _ => rfl) fun _ _ _ => rfl) .closing nofun
  | closing => exact .go (.move rfl) .shut nofun
  | shut => exact .go (.move rfl) .cleaning fun sem hbegins => Stand.not_begins_andThen hbegins
  | cleaning =>
    cases hx : x.isInterrupted with
    | true =>
      rw [cleanup_of_interrupted hx]
      exact .acquire hx rfl
    | false =>
      rw [cleanup_of_not_interrupted hx]
      exact .skip hx (.call rfl (Or.inr (masked_releasing _ _)) (fun _ => rfl) fun _ _ _ => rfl) nofun

/-- What a fiber does at the end of a take. -/
inductive Leaves (P : Passage) (x : Exit Value Value) (s : Stand) : Prop where
  | go {s' : Stand} (hgoes : s.Goes s') (h : P.Leaving x s') (hbegins : ∀ sem, ¬ s.Begins sem)
  /-- The take is over. -/
  | out (hdeed : s.deed = .move ⟨P.base, .ofExit x⟩) (hbegins : ∀ sem, ¬ s.Begins sem)

/-- **What comes after each stand at the end of a take.** -/
theorem Leaving.next (h : P.Leaving x s) : P.Leaves x s := by
  cases h with
  | cleaned => exact .go (.call rfl (Or.inl rfl) (fun _ => rfl) fun _ _ _ => rfl) .resuming nofun
  | resuming =>
    have hgoes : Stand.Goes ⟨P.base.enter .uninterruptible, .eval (.resume x)⟩
        ⟨P.base.enter .uninterruptible, .ofExit x⟩ :=
      .call rfl (Or.inr (Guard.masked_enter _ _)) (fun _ => rfl) fun _ _ _ => rfl
    exact .go hgoes .leaving nofun
  | leaving => exact .out (by cases x <;> rfl) (by cases x <;> nofun)

/-! ## The stacks are those of the take -/

theorem Entering.within (h : P.Entering toll s) : P.base.Within s.run := by
  cases h with
  | bracketed => exact .refl
  | opening | opened | held => exact .chain .refl _
  | shut | released => exact .region (.chain .refl _) _
  | giving | given => exact .region (.region (.chain .refl _) _) _
  | turning | beginning => exact .fold (.chain .refl _) _ _

theorem Closing.within (h : P.Closing x s) : P.base.Within s.run := by
  cases h with
  | closing => exact .refl
  | told => exact .chain .refl _
  | shut => exact .region .refl _
  | cleaning => exact .chain (.region .refl _) _
  | ended => exact .fold (.chain .refl _) _ _

theorem Leaving.within (h : P.Leaving x s) : P.base.Within s.run := by
  cases h with
  | resuming | leaving => exact .region .refl _
  | cleaned => exact .chain (.region .refl _) _

/-- A fiber that enters has not come out of the take. -/
theorem Entering.above (h : P.Entering toll s) : s.Above P.base := by
  refine ⟨h.within, fun hrun => ?_⟩
  have hlength := congrArg (fun run : Run => run.frames.length) hrun
  cases h with
  | opening | shut | giving | bracketed | held | turning | beginning => exact ⟨_, rfl⟩
  | given | released | opened =>
    simp only [Passage.opening, Run.enter, Run.push, List.length_cons] at hlength
    omega

/-- A fiber that closes a take has not come out of it. -/
theorem Closing.above (h : P.Closing x s) : s.Above P.base := by
  refine ⟨h.within, fun hrun => ?_⟩
  have hlength := congrArg (fun run : Run => run.frames.length) hrun
  cases h with
  | closing | shut | cleaning => exact ⟨_, rfl⟩
  | ended | told =>
    simp only [Passage.held, inner, Run.inUse, Run.holding, Run.push, List.length_cons] at hlength
    omega

/-- A fiber that leaves a take has not come out of it yet. -/
theorem Leaving.above (h : P.Leaving x s) : s.Above P.base := by
  refine ⟨h.within, fun hrun => ?_⟩
  have hlength := congrArg (fun run : Run => run.frames.length) hrun
  cases h with
  | resuming => exact ⟨_, rfl⟩
  | cleaned | leaving =>
    simp only [Run.releasing, Run.enter, Run.push, List.length_cons] at hlength
    omega

end Passage

end FiberLoop
