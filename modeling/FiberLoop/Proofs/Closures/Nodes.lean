import FiberLoop.Proofs.Closures.Building

/-!
# The closures of a node

What a closure of a node yields mentions nothing but what the closure and its argument mention, the bindings in
the session, and the stores that they give access to.

An operation that hands out something new, or is about the permits of a semaphore, is not ordinary: what it does
is said by itself.
-/

namespace FiberLoop

/-- Whether an operation hands out nothing new and leaves the permits of semaphores alone. -/
def Operation.isOrdinary : Operation → Bool
  | .makeDeferred | .makeSemaphore _ | .makeQueue _ | .requestItem _ => false
  | .requestPermit _ | .tryAcquire _ | .releasePermit _ | .abandonPermit .. => false
  | _ => true

/-- The queue to which an operation brings an item, or out of whose line it takes a latch. -/
def Operation.queue? : Operation → Option QueueId
  | .offerItem q _ | .putBackItem q _ | .abandonItem q _ => some q
  | _ => none

def Thunk.queue? : Thunk → Option QueueId
  | .perform o => o.queue?
  | _ => none

/-- The cell to which an operation writes. -/
def Operation.writes? : Operation → Option CellId
  | .setCell c _ | .updateCell c .. | .updateAndGetCell c .. | .modifyCell c .. => some c
  | _ => none

/-- Whether the closure of a suspended step does what an ordinary operation does. -/
def Thunk.isOrdinary : Thunk → Bool
  | .perform o => o.isOrdinary
  | _ => true

/-- The bindings with the contents of a cell bound are in scope. -/
theorem World.Confined.cellBinding {V : Scope} {w : World} (hw : w.Confined V) {env : Env} (h : env.In V)
    (c : CellId) (name : Name) :
    (Env.bind name (Value.ofOption (w.cell? c)) env).In V :=
  Env.in_bind.2 ⟨Value.in_ofOption (hw.stores.cells c.index), h⟩

namespace Tracks

variable {V : Scope} {J : Judgement} [tracks : TracksReading V J] {α : Type} {Q : α → Prop}

include tracks

theorem transform {f : Transform} (hf : f.In V) {v : Value} (h : v.In V) :
    J Value (f.apply v) (Value.In V) := by
  cases f with
  | eval name value env => exact eval (Env.in_bind.2 ⟨h, hf⟩) value
  | const c => exact pure hf
  | same => exact pure h
  | reify => exact pure h
  | build name body env => exact bind (build (Env.in_bind.2 ⟨h, hf⟩) body) fun _ he => pure he
  | lambda param name value env => exact pure (List.forall_mem_append.2 ⟨h, hf⟩)
  | budget => exact read (fun _ _ => rfl) fun _ _ => pure Scope.nothing
  | onLoop => exact pure Scope.nothing
  | blockOn body => exact pure Scope.nothing
  | dispatch actions env => exact bind (dispatch actions hf) fun _ _ => pure Scope.nothing

theorem release {r : Release} (hr : r.In V) {resource : Value} (h : resource.In V) {x : Exit Value Value}
    (hx : Value.ExitIn V x) : J Effect (r.apply resource x) (Effect.In V) := by
  cases r with
  | build name exitName body env =>
    refine bind (build ?_ body) fun _ he => pure (.unit he)
    cases exitName with
    | none => exact Env.in_bind.2 ⟨h, hr⟩
    | some n => exact Env.in_bind.2 ⟨hx, Env.in_bind.2 ⟨h, hr⟩⟩
  | const e => exact pure hr
  | ifInterrupted e =>
    refine pure ?_
    split
    · exact hr
    · exact Scope.nothing
  | cleanup =>
    cases resource with
    | ticket acquire undo =>
      refine pure ?_
      split
      · exact (List.forall_mem_append.1 h).2
      · exact Scope.nothing
    | _ => exact unexpectedValue

theorem continuation {k : Continuation} (hk : k.In V) {v : Value} (h : v.In V) :
    J Next (k.apply v) (Next.In V) := by
  cases k with
  | transform f => exact bind (transform hk h) fun _ hv => pure hv
  | build name body env => exact bind (build (Env.in_bind.2 ⟨h, hk⟩) body) fun _ he => pure he
  | proceed next => exact pure hk
  | combineWith right f =>
    obtain ⟨hright, hf⟩ := List.forall_mem_append.1 hk
    exact pure (Effect.In.chain hright (List.forall_mem_append.2 ⟨h, hf⟩))
  | combineLeft left f =>
    obtain ⟨hleft, hf⟩ := List.forall_mem_append.1 hk
    exact bind (combine hf hleft h) fun _ hv => pure hv
  | run =>
    cases v with
    | effect e => exact pure h
    | _ => exact unexpectedValue
  | adopt =>
    cases v with
    | exit x => exact pure h
    | _ => exact unexpectedValue
  | useResource r use =>
    obtain ⟨hr, huse⟩ := List.forall_mem_append.1 hk
    have hbody : (Effect.suspend (.continue use v)).In V := List.forall_mem_append.2 ⟨huse, h⟩
    exact pure (Effect.In.chain (.result hbody) (List.forall_mem_append.2 ⟨hr, h⟩))
  | releaseResource r resource =>
    obtain ⟨hr, hresource⟩ := List.forall_mem_append.1 hk
    cases v with
    | exit x => exact bind (release hr hresource h) fun _ he => pure (Effect.In.andThen he h)
    | _ => exact unexpectedValue
  | completeDeferred d =>
    cases v with
    | exit x =>
      have hdone : (Effect.completeDeferred d x).In V :=
        .completeDeferred (hk _ List.mem_cons_self) h
      refine pure ?_
      show Effect.In V _
      split
      · exact .andThen hdone Scope.nothing
      · exact hdone
    | _ => exact unexpectedValue
  | awaitTicket =>
    cases v with
    | ticket acquire undo => exact pure (List.forall_mem_append.1 h).1
    | _ => exact unexpectedValue
  | stop cause => exact pure hk

theorem recovery {r : Recovery} (hr : r.In V) {c : Cause Value} (h : Value.CauseIn V c) :
    J Next (r.apply c) (Next.In V) := by
  cases r with
  | build name body env =>
    exact bind (build ((Env.in_bind (v := .cause c)).2 ⟨h, hr⟩) body) fun _ he => pure he
  | onFailed handler =>
    cases c with
    | failed e => exact continuation hr h
    | aborted d => exact pure h
    | interrupted => exact pure h
  | mapFailed f =>
    cases c with
    | failed e => exact bind (transform hr h) fun _ hv => pure hv
    | aborted d => exact pure h
    | interrupted => exact pure h
  | reify => exact pure h
  | finalize finalizer =>
    cases c with
    | failed e => exact pure h
    | aborted d => exact pure h
    | interrupted => exact pure (Effect.In.chain hr Scope.nothing)

/-! ## Operations -/

/-- What an ordinary operation does, given what it does to the cell to which it writes. -/
theorem operation_of {o : Operation} (h : o.In V) (hqueue : ∀ q ∈ o.queue?, V.queue q) (ho : o.isOrdinary = true)
    (hwrites : ∀ c ∈ o.writes?, ∀ v : Value, v.In V → J Unit (Act.update (World.setCell c v)) fun _ => True) :
    J Value o.perform (Value.In V) := by
  cases o with
  | makeDeferred | makeSemaphore _ | makeQueue _ | requestItem _ => cases ho
  | requestPermit _ | tryAcquire _ | releasePermit _ | abandonPermit _ _ => cases ho
  | log value env => exact bind (eval h value) fun v _ => bind (log _) fun _ _ => pure Scope.nothing
  | settleKept key how value env =>
    exact bind (eval h value) fun v hv => bind (settleKept key how hv) fun _ _ => pure Scope.nothing
  | interruptNamed name =>
    exact bind (fiberNamed name) fun f _ => bind (interrupt f) fun _ _ => pure Scope.nothing
  | interruptFiber f => exact bind (interrupt f) fun _ _ => pure Scope.nothing
  | fiberState f =>
    refine read (fun w g => congrArg Pure.pure (World.reading_raise
      (fun o => o.elim Value.null fun fiber => Value.str fiber.state.name) (fun _ => rfl) w g f)) fun w _ => ?_
    cases w.fiber? f with
    | none => exact pure Scope.nothing
    | some fiber => exact pure Scope.nothing
  | fork body => exact bind (launch h .publish rfl) fun _ _ => pure Scope.nothing
  | makeCell initial => exact bind (makeCell h) fun _ _ => pure Scope.nothing
  | getCell c => exact read (fun _ _ => rfl) fun w hw => pure (Value.in_ofOption (hw.stores.cells c.index))
  | setCell c value => exact bind (hwrites c rfl value h) fun _ _ => pure Scope.nothing
  | updateCell c name value env =>
    exact read (fun _ _ => rfl) fun w hw => bind (eval (hw.cellBinding h c name) value) fun v hv =>
      bind (hwrites c rfl v hv) fun _ _ => pure Scope.nothing
  | updateAndGetCell c name value env =>
    exact read (fun _ _ => rfl) fun w hw => bind (eval (hw.cellBinding h c name) value) fun v hv =>
      bind (hwrites c rfl v hv) fun _ _ => pure hv
  | modifyCell c name value result env =>
    exact read (fun _ _ => rfl) fun w hw => bind (eval (hw.cellBinding h c name) value) fun v hv =>
      bind (hwrites c rfl v hv) fun _ _ => eval (hw.cellBinding h c name) result
  | completeDeferred d x =>
    obtain ⟨hd, hx⟩ := List.forall_mem_cons.1 h
    exact bind (completeDeferred hd hx) fun _ _ => pure Scope.nothing
  | isCompleted d => exact read (fun _ _ => rfl) fun _ _ => pure Scope.nothing
  | pollDeferred d =>
    refine read (fun _ _ => rfl) fun w hw => ?_
    have hpoll := hw.poll (h _ List.mem_cons_self)
    cases hfound : w.pollDeferred d with
    | none => exact pure Scope.nothing
    | some x => exact pure (hpoll x hfound)
  | availablePermits s => exact read (fun _ _ => rfl) fun _ _ => pure Scope.nothing
  | waitingForPermit s => exact read (fun _ _ => rfl) fun _ _ => pure Scope.nothing
  | offerItem q item =>
    exact bind (offerItem (hqueue q rfl) (Operation.in_of_offerItem h)) fun _ _ => pure Scope.nothing
  | queueSize q => exact read (fun _ _ => rfl) fun _ _ => pure Scope.nothing
  | putBackItem q item =>
    exact bind (putBackItem (hqueue q rfl) (List.forall_mem_cons.1 h).2) fun _ _ => pure Scope.nothing
  | abandonItem q latch =>
    exact bind (abandonItem (hqueue q rfl) (h _ (List.mem_cons_of_mem _ List.mem_cons_self))) fun _ _ =>
      pure Scope.nothing

/-- The closure of a suspended step, given what the operation does that it may perform. -/
theorem thunk_of {t : Thunk} (h : t.In V) (hperform : ∀ o, t = .perform o → J Value o.perform (Value.In V)) :
    J Next t.run (Next.In V) := by
  cases t with
  | eval value env => exact bind (eval h value) fun _ hv => pure hv
  | tryEval condition value env =>
    refine bind (eval h condition) fun v _ => bind (asBool v) fun succeeds _ => bind (eval h value) fun _ hv =>
      pure ?_
    cases succeeds
    · exact hv
    · exact hv
  | build body env => exact bind (build h body) fun _ he => pure he
  | resume x =>
    cases x with
    | value v => exact pure h
    | cause c => exact pure h
  | «continue» next value =>
    obtain ⟨hnext, hv⟩ := List.forall_mem_append.1 h
    exact continuation hnext hv
  | yield value => exact pure h
  | perform o => exact bind (hperform o rfl) fun _ hv => pure hv

end Tracks

/-! ## Writing to cells -/

namespace Tracks

variable {V : Scope} {J : Judgement} [tracks : Tracks V J]

include tracks

theorem operation {o : Operation} (h : o.In V) (hqueue : ∀ q ∈ o.queue?, V.queue q) (ho : o.isOrdinary = true) :
    J Value o.perform (Value.In V) := operation_of h hqueue ho fun c _ _ hv => tracks.setCell c hv

theorem thunk {t : Thunk} (h : t.In V) (hqueue : ∀ q ∈ t.queue?, V.queue q) (ht : t.isOrdinary = true) :
    J Next t.run (Next.In V) := by
  refine thunk_of h fun o ho => ?_
  subst ho
  exact operation h hqueue ht

end Tracks

end FiberLoop
