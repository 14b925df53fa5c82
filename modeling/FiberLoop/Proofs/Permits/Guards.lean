import FiberLoop.Proofs.Permits.Running

/-!
# Effects that run with a permit

`Effect.withPermit` takes a permit, runs its body, and returns the permit. A `Guard` says how far a fiber has come with
one that it has begun; those that a run has begun and not ended are read off its strokes (`Scene.guards`), innermost
first for each fiber. Nothing in a run depends on them.

`Guarded` are the runs in which a semaphore is used in no other way: whoever takes, tries for or releases one of its
permits is in the middle of such an effect, and not in its body.
-/

namespace FiberLoop

/-- How far an effect has come that runs its body with a permit. -/
inductive Stage where
  /-- The body has not begun. -/
  | before
  /-- The body is in progress. -/
  | inside
  /-- The body has ended with an exit. -/
  | after (exit : Exit Value Value)

/-- An effect that runs its body with a permit, and that a fiber has begun and not ended. -/
structure Guard where
  fiber : FiberId
  /-- The run on which the effect is evaluated. -/
  base : Run
  body : Effect
  stage : Stage := .before
  /-- Whether the permit was taken and has not been returned. -/
  holds : Bool := false

/-- Whether the body is in progress. -/
def Guard.isInside (G : Guard) : Bool :=
  match G.stage with
  | .inside => true
  | _ => false

/-- The semaphore and the body of an effect that runs its body with a permit. -/
def Effect.guarded? : Effect → Option (SemaphoreId × Effect)
  | .chain (.chain source next) (.proceed (.chain (.region (.succeeded .null) .uninterruptible) (.useResource (.const
      (.region (.suspend (.perform (.releasePermit s))) .uninterruptible)) (.proceed body)))) =>
    if Effect.acquired? source next = some s then some (s, body) else none
  | _ => none

@[simp] theorem Effect.guarded?_withPermit (s : SemaphoreId) (body : Effect) :
    (Effect.withPermit s body).guarded? = some (s, body) := if_pos rfl

theorem Effect.eq_of_guarded? {e body : Effect} {s : SemaphoreId} (h : e.guarded? = some (s, body)) :
    e = .withPermit s body := by
  unfold guarded? at h
  split at h
  · rw [Option.ite_none_right_eq_some] at h
    obtain ⟨hacquired, hsome⟩ := h
    cases hsome
    obtain ⟨rfl, rfl⟩ := Effect.acquired?_eq_some hacquired
    rfl
  · cases h

/-! ## Guards, step by step -/

namespace Guard

/-- An exit comes to a run of some height: it ends the effects that were begun on that run, and the body of the
innermost one around them if it runs there. -/
def settle (height : Nat) (x : Exit Value Value) : List Guard → List Guard
  | [] => []
  | G :: rest =>
    if G.isInside then (if height = G.base.frames.length + 2 then { G with stage := .after x } else G) :: rest
    else if height = G.base.frames.length then settle height x rest
    else G :: rest

/-- The innermost body begins. -/
def start : List Guard → List Guard
  | [] => []
  | G :: rest =>
    match G.stage with
    | .before => { G with stage := .inside } :: rest
    | _ => G :: rest

/-- What a step of a fiber does to the guards of a semaphore that the fiber has; it may be that an interrupt takes the
place of a closure. -/
def pass (sem : SemaphoreId) (f : FiberId) (s : Stand) (cut : Bool) (stack : List Guard) : List Guard :=
  match s.next with
  | .value v => settle s.run.frames.length (.value v) stack
  | .cause c => settle s.run.frames.length (.cause c) stack
  | .eval (.suspend (.continue (.proceed _) _)) => if cut then stack else start stack
  | .eval e =>
    match e.guarded? with
    | some (s', body) => if s' = sem then { fiber := f, base := s.run, body := body } :: stack else stack
    | none => stack

/-- Write down whether the innermost one has a permit. -/
def credit : List Booking → List Guard → List Guard
  | .kept _ :: new, G :: rest => credit new ({ G with holds := true } :: rest)
  | .returned _ :: new, G :: rest => credit new ({ G with holds := false } :: rest)
  | _ :: new, stack => credit new stack
  | [], stack => stack

/-- Change the guards of one fiber. -/
def onStack (f : FiberId) (change : List Guard → List Guard) (guards : List Guard) : List Guard :=
  change (guards.filter (·.fiber = f)) ++ guards.filter (·.fiber ≠ f)

end Guard

/-- What a step takes, tries for, or releases a permit of. -/
def Stand.touches (sem : SemaphoreId) (s : Stand) : Bool :=
  match s.next with
  | .eval (.chain source next) => Effect.acquired? source next = some sem
  | .eval (.suspend (.perform (.tryAcquire s))) | .eval (.suspend (.perform (.releasePermit s))) => s = sem
  | _ => false

namespace Scene

/-- What a stroke books for a semaphore. -/
def news (sem : SemaphoreId) (s : Scene) (stroke : Stroke) (b : Books) : List Booking :=
  ((s.book stroke b).of sem).drop (b.of sem).length

/-- The guards of a fiber after one of its steps. -/
def pass (sem : SemaphoreId) (s : Scene) (f : FiberId) (stand : Stand) (b : Books) (stack : List Guard) : List Guard :=
  Guard.credit (s.news sem .next b)
    (Guard.pass sem f stand (s.moment.world.interruptPending f stand.run.masks) stack)

/-- The guards after a stroke. -/
def guards (sem : SemaphoreId) (s : Scene) (stroke : Stroke) (b : Books) (γ : List Guard) : List Guard :=
  match stroke, s.moment.activity with
  | .next, .running f (_ + 1) stand => Guard.onStack f (s.pass sem f stand b) γ
  | _, _ => γ

/-- Whether the next step of a fiber uses a semaphore only to run a body with a permit. -/
def abides (sem : SemaphoreId) (s : Scene) (γ : List Guard) : Bool :=
  match s.moment.activity with
  | .running f (_ + 1) stand => !stand.touches sem || (γ.find? (·.fiber = f)).any (!·.isInside)
  | _ => true

/-- The guards after some strokes. -/
def guardsAfter (sem : SemaphoreId) (s : Scene) : List Stroke → Books → List Guard → List Guard
  | [], _, γ => γ
  | stroke :: strokes, b, γ =>
    (s.play stroke).guardsAfter sem strokes (s.book stroke b) (s.guards sem stroke b γ)

/-- Whether some strokes use a semaphore only to run bodies with a permit. -/
def abidesBy (sem : SemaphoreId) (s : Scene) : List Stroke → Books → List Guard → Bool
  | [], _, _ => true
  | stroke :: strokes, b, γ =>
    (match stroke with | .next => s.abides sem γ | _ => true) &&
      (s.play stroke).abidesBy sem strokes (s.book stroke b) (s.guards sem stroke b γ)

end Scene

/-- A run, from the time on at which a semaphore was made with some permits, that uses it only to run bodies with a
permit. -/
inductive Guarded (sem : SemaphoreId) (n : Nat) : Books → List Guard → Scene → Prop where
  | make {b : Books} {s : Scene} (h : Recorded b s) (stroke : Stroke)
    (hnone : s.moment.world.semaphore? sem = none)
    (hmade : ((s.play stroke).moment.world.semaphore? sem).map Semaphore.permits = some n) :
    Guarded sem n (s.book stroke b) [] (s.play stroke)
  | play {b : Books} {γ : List Guard} {s : Scene} (h : Guarded sem n b γ s) (stroke : Stroke)
    (habides : stroke = .next → s.abides sem γ = true) :
    Guarded sem n (s.book stroke b) (s.guards sem stroke b γ) (s.play stroke)

theorem Guarded.after {sem : SemaphoreId} {n : Nat} {b : Books} {γ : List Guard} {s : Scene} (h : Guarded sem n b γ s)
    (strokes : List Stroke) (habides : s.abidesBy sem strokes b γ = true) :
    Guarded sem n (s.books strokes b) (s.guardsAfter sem strokes b γ) (s.after strokes) := by
  induction strokes generalizing b γ s with
  | nil => exact h
  | cons stroke strokes ih =>
    obtain ⟨hstroke, hstrokes⟩ := Bool.and_eq_true_iff.1 habides
    refine ih (h.play stroke ?_) hstrokes
    rintro rfl
    exact hstroke

end FiberLoop
