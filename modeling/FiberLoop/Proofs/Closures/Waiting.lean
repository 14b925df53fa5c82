import FiberLoop.Proofs.Closures.Nodes

/-!
# Waiting, cancelling and exits

Registering a callback, cancelling what was registered, telling an exit to those who wait for it, and the
operations of a scenario are composed of the operations of the library.

The main results of this module are `registration`, `canceler`, `exitHook` and `scenario`.
-/

namespace FiberLoop

/-- Whether an operation of a scenario hands out no deferred, semaphore or queue. -/
def ScenarioOp.isOrdinary : ScenarioOp → Bool
  | .newDeferred _ | .newSemaphore .. | .newQueue .. => false
  | _ => true

/-! ## Compound operations -/

namespace World

/-- A listener is told the exit that is there, or waits for it. -/
theorem listen_eq (f : FiberId) (listener : Listener) :
    World.listen f listener = (do
      match ← Act.updateGet (World.enlist f listener) with
      | some (.inl key) => return some key
      | some (.inr x) =>
        listener.notify x
        return none
      | none => return none) := by
  refine Act.run_ext fun w => ?_
  rw [World.listen, Act.run_bind, Act.run_bind, Act.run_get, Act.run_updateGet]
  simp only [World.enlist]
  cases w.notice? f with
  | none => rfl
  | some notice => cases notice <;> rfl

/-- The end of a race takes its row, interrupts the other side and completes the callback. -/
theorem finishRace_eq (r : RaceId) (side : Side) (x : Exit Value Value) :
    Act.update (World.finishRace r side x) = (do
      match (← get).race? r with
      | some ⟨some callback, fibers⟩ =>
        Act.update (World.modifyRace r fun row => { row with callback := none })
        Act.update (World.interruptAll (fibers.eraseIdx side.index))
        Act.update (World.settle callback x)
      | _ => return) := by
  refine Act.run_ext fun w => ?_
  rw [Act.run_bind, Act.run_get, Act.run_update, World.finishRace]
  dsimp only
  cases w.race? r with
  | none => rfl
  | some row =>
    obtain ⟨callback, fibers⟩ := row
    cases callback <;> rfl

theorem deliverCombined_eq (callback : Callback) (f : Combine) (a b : Value) :
    Act.update (World.deliverCombined callback f a b) = (do
      match ← Act.updateGet (f.apply a b).caught with
      | .ok v => Act.update (World.settle callback (.value v))
      | .error d => Act.update (World.settle callback (.aborted d))) := by
  refine Act.run_ext fun w => ?_
  rw [Act.run_bind, Act.run_updateGet, Act.run_update, World.deliverCombined]
  cases (f.apply a b).caught w with
  | mk result v => cases result <;> rfl

/-- The first value of a pairing is kept, the second is combined with it; a cause interrupts the other side. -/
theorem finishPairing_eq (p : PairingId) (side : Side) (x : Exit Value Value) :
    Act.update (World.finishPairing p side x) = (do
      match (← get).pairing? p with
      | none => return
      | some row =>
        match row.callback, x with
        | none, _ => return
        | some callback, .cause c =>
          Act.update (World.modifyPairing p fun row => { row with callback := none })
          Act.update (World.interruptAll (row.fibers[side.other.index]?).toList)
          Act.update (World.settle callback (.cause c))
        | some callback, .value v =>
          match row.value? side.other with
          | none => Act.update (World.modifyPairing p fun row => row.store side v)
          | some v' =>
            Act.update (World.modifyPairing p fun row => { row with callback := none })
            match side with
            | .left => Act.update (World.deliverCombined callback row.combine v v')
            | .right => Act.update (World.deliverCombined callback row.combine v' v)) := by
  refine Act.run_ext fun w => ?_
  rw [Act.run_bind, Act.run_get, Act.run_update, World.finishPairing]
  dsimp only
  cases w.pairing? p with
  | none => rfl
  | some row =>
    dsimp only
    cases row.callback with
    | none => rfl
    | some callback =>
      cases x with
      | cause c => rfl
      | value v =>
        dsimp only
        cases row.value? side.other with
        | none => rfl
        | some v' => cases side <;> rfl

section Deferreds

variable {w : World} {d : DeferredId}

/-- Waiting for a deferred that is not completed. -/
theorem run_deferred_of_pending {ws : List (Nat × Callback)} {key : Nat}
    (h : w.deferred? d = some (.pending ws key)) (callback : Callback) :
    ((Registration.deferred d).run callback).caught w =
      (.ok (.waiter d key), w.setDeferred d (.pending (ws ++ [(key, callback)]) (key + 1))) := by
  have hawait : w.awaitDeferred d callback =
      (some (.queued key), w.setDeferred d (.pending (ws ++ [(key, callback)]) (key + 1))) := by
    simp only [awaitDeferred, h]
  have hrun : ((Registration.deferred d).run callback).run w =
      (.ok (.waiter d key), w.setDeferred d (.pending (ws ++ [(key, callback)]) (key + 1))) := by
    rw [Registration.run, Act.run_bind, Act.run_updateGet, hawait]
    rfl
  rw [Act.caught, hrun]

/-- Waiting for a completed deferred. -/
theorem run_deferred_of_done {x : Exit Value Value} (h : w.deferred? d = some (.done x)) (callback : Callback) :
    ((Registration.deferred d).run callback).caught w = (.ok .none, w.settle callback x) := by
  have hawait : w.awaitDeferred d callback = (some (.settled x), w) := by simp only [awaitDeferred, h]
  have hrun : ((Registration.deferred d).run callback).run w = (.ok .none, w.settle callback x) := by
    rw [Registration.run, Act.run_bind, Act.run_updateGet, hawait]
    rfl
  rw [Act.caught, hrun]

/-- Waiting for a deferred that is not there. -/
theorem run_deferred_of_none (h : w.deferred? d = none) (callback : Callback) :
    ((Registration.deferred d).run callback).caught w = (.ok .none, w) := by
  have hawait : w.awaitDeferred d callback = (none, w) := by simp only [awaitDeferred, h]
  have hrun : ((Registration.deferred d).run callback).run w = (.ok .none, w) := by
    rw [Registration.run, Act.run_bind, Act.run_updateGet, hawait]
    rfl
  rw [Act.caught, hrun]

end Deferreds

end World

namespace Tracks

variable {V : Scope} {J : Judgement} [tracks : TracksReading V J]

include tracks

/-! ## Listeners -/

theorem notify {listener : Listener} (h : listener.In V) {x : Exit Value Value} (hx : Value.ExitIn V x) :
    J Unit (listener.notify x) fun _ => True := by
  cases listener with
  | resume callback => exact settle h hx
  | report name => exact log _
  | note tag => exact log _
  | actions body env => exact actions h Scope.noCallback body

theorem listen (f : FiberId) {listener : Listener} (h : listener.In V) :
    J (Option Nat) (World.listen f listener) fun _ => True := by
  rw [World.listen_eq]
  refine bind (enlist f h) fun answer hanswer => ?_
  match answer, hanswer with
  | none, _ => exact pure trivial
  | some (.inl key), _ => exact pure trivial
  | some (.inr x), hanswer => exact bind (notify h (hanswer x rfl)) fun _ _ => pure trivial

/-! ## Cancelers -/

theorem interruptAll (fibers : List FiberId) : J Unit (Act.update (World.interruptAll fibers)) fun _ => True := by
  induction fibers with
  | nil => exact pure trivial
  | cons f rest ih => exact bind (interrupt f) fun _ _ => ih

theorem canceler {c : Canceler} (h : c.In V) (hlines : c.isWaiter = true → V.lines) :
    J Unit c.cancel fun _ => True := by
  cases c with
  | none => exact pure trivial
  | actions body env => exact actions h Scope.noCallback body
  | timer t => exact cancelTimer t
  | waiter d key => exact leaveDeferred (hlines rfl) (h _ List.mem_cons_self) key
  | listener f key => exact withdraw f key
  | interrupt fibers => exact interruptAll fibers

/-! ## Fibers side by side -/

theorem finishRace {r : RaceId} (hr : V.joint (.race r)) (side : Side) {x : Exit Value Value} (hx : Value.ExitIn V x) :
    J Unit (Act.update (World.finishRace r side x)) fun _ => True := by
  rw [World.finishRace_eq]
  refine read (fun _ _ => rfl) fun w hw => ?_
  split
  · rename_i callback fibers hrow
    have hcallback : V.callback callback := hw.stores.races r.index _ hrow hr callback rfl
    exact bind (modifyRace hr fun _ _ _ hended => nomatch hended) fun _ _ => bind (interruptAll _) fun _ _ =>
      settle hcallback hx
  · exact pure trivial

theorem deliverCombined {callback : Callback} (h : V.callback callback) {f : Combine} (hf : f.In V) {a b : Value}
    (ha : a.In V) (hb : b.In V) :
    J Unit (Act.update (World.deliverCombined callback f a b)) fun _ => True := by
  rw [World.deliverCombined_eq]
  refine bind (caught (combine hf ha hb)) fun result hresult => ?_
  cases result with
  | ok v => exact settle h (hresult v rfl)
  | error d => exact settle h Scope.nothing

theorem finishPairing {p : PairingId} (hp : V.joint (.pairing p)) (side : Side) {x : Exit Value Value} (hx : Value.ExitIn V x) :
    J Unit (Act.update (World.finishPairing p side x)) fun _ => True := by
  rw [World.finishPairing_eq]
  refine read (fun _ _ => rfl) fun w hw => ?_
  have hend : J Unit (Act.update (World.modifyPairing p fun row => { row with callback := none })) fun _ => True :=
    modifyPairing hp fun row hrow => ⟨nofun, hrow.left, hrow.right, hrow.combine⟩
  split
  · exact pure trivial
  · rename_i row hfound
    have hrow := hw.stores.pairings p.index row hfound hp
    split
    · exact pure trivial
    · rename_i callback c hcallback
      exact bind hend fun _ _ => bind (interruptAll _) fun _ _ => settle (hrow.callback callback hcallback) hx
    · rename_i callback v hcallback
      have hcb := hrow.callback callback hcallback
      split
      · exact modifyPairing hp fun row hrow => hrow.store side hx
      · rename_i v' hother
        have hv' := hrow.value? hother
        refine bind hend fun _ _ => ?_
        cases side with
        | left => exact deliverCombined hcb hrow.combine hx hv'
        | right => exact deliverCombined hcb hrow.combine hv' hx

/-! ## Registrations and exits -/

theorem registration {r : Registration} (h : r.In V) {callback : Callback} (hcallback : V.callback callback)
    (hlines : r.isWait = true → V.lines) (hstarts : r.isJoint = true → V.starts) :
    J Canceler (r.run callback) fun c => c.In V ∧ (c.isWaiter = true → V.lines) := by
  have hgiven : ∀ cb ∈ some callback, V.callback cb := by
    rintro cb ⟨⟩
    exact hcallback
  have ofActions {env : Env} (cancel : Option (List Action)) (h : env.In V) :
      (Canceler.ofActions cancel env).In V ∧ ((Canceler.ofActions cancel env).isWaiter = true → V.lines) :=
    ⟨Canceler.in_ofActions cancel h, fun hwaiter => by simp [Canceler.isWaiter_ofActions] at hwaiter⟩
  cases r with
  | never => exact pure ⟨Scope.nothing, nofun⟩
  | actions register cancel env =>
    exact bind (actions h hgiven register) fun _ _ => pure (ofActions cancel h)
  | total register cancel value env =>
    exact bind (actions h Scope.noCallback register) fun _ _ => bind (eval h value) fun v hv =>
      bind (settle hcallback hv) fun _ _ => pure (ofActions cancel h)
  | timer delay =>
    exact bind (schedule delay rfl ⟨hcallback, Scope.nothing⟩) fun _ _ => pure ⟨Scope.nothing, nofun⟩
  | deferred d =>
    refine bind (awaitDeferred (hlines rfl) (h _ List.mem_cons_self) hcallback) fun answer hanswer => ?_
    match answer, hanswer with
    | none, _ => exact pure ⟨Scope.nothing, nofun⟩
    | some (.settled x), hanswer =>
      exact bind (settle hcallback (hanswer x rfl)) fun _ _ => pure ⟨Scope.nothing, nofun⟩
    | some (.queued key), _ => exact pure ⟨h, fun _ => hlines rfl⟩
  | exitOf f =>
    refine bind (listen f hcallback) fun key _ => ?_
    cases key with
    | none => exact pure ⟨Scope.nothing, nofun⟩
    | some key => exact pure ⟨Scope.nothing, nofun⟩
  | race left right =>
    obtain ⟨hleft, hright⟩ := List.forall_mem_append.1 h
    exact bind (startRace hleft hright hcallback (hstarts rfl)) fun _ _ => pure ⟨Scope.nothing, nofun⟩
  | parZip left right f =>
    obtain ⟨hleft, hrest⟩ := List.forall_mem_append.1 h
    obtain ⟨hright, hf⟩ := List.forall_mem_append.1 hrest
    exact bind (startPairing hleft hright hf hcallback (hstarts rfl)) fun _ _ => pure ⟨Scope.nothing, nofun⟩

/-- What becomes of an exit, given what filling the notice of the fiber does. -/
theorem exitHook {hook : ExitHook} (f : FiberId) {x : Exit Value Value} (hx : Value.ExitIn V x)
    (hjoint : ∀ j, hook.joint? = some j → V.joint j)
    (hpublish : hook = .publish → J Unit (World.publish f x) fun _ => True) :
    J Unit (hook.run f x) fun _ => True := by
  cases hook with
  | report name throws =>
    refine bind (log _) fun _ _ => ?_
    split
    · exact throwText _
    · exact pure trivial
  | publish => exact hpublish rfl
  | race r side => exact finishRace (hjoint _ rfl) side hx
  | parZip p side => exact finishPairing (hjoint _ rfl) side hx
  | deliver outbox =>
    exact updateSession (fun s => { s with outboxes := s.outboxes.set outbox (some x) }) (fun _ => rfl) fun _ hs =>
      ⟨hs.globals, hs.kept, hs.cancelers⟩

/-! ## Scenarios -/

theorem setGlobal (name : Name) {v : Value} (h : v.In V) :
    J Unit (Act.update (World.setGlobal name v)) fun _ => True :=
  updateSession (fun s => { s with globals := (name, v) :: s.globals }) (fun _ => rfl) fun _ hs =>
    ⟨List.forall_mem_cons.2 ⟨h, hs.globals⟩, hs.kept, hs.cancelers⟩

theorem nameFiber (name : Name) (f : FiberId) : J Unit (Act.update (World.nameFiber name f)) fun _ => True :=
  updateSession (fun s => { s with fibers := s.fibers ++ [(name, f)] }) (fun _ => rfl) fun _ hs =>
    ⟨hs.globals, hs.kept, hs.cancelers⟩

theorem globalFiber (name : Name) : J FiberId (ScenarioOp.globalFiber name) fun _ => True :=
  bind (resolve Env.in_empty name) fun v _ => asFiber v

theorem debugText (v : Value) : J String v.debugText fun _ => True := by
  cases v with
  | cell c => exact pure trivial
  | deferred d => exact pure trivial
  | semaphore s => exact read (fun _ _ => rfl) fun _ _ => pure trivial
  | queue q => exact bind (queuePolicy q) fun _ _ => pure trivial
  | fiber f => exact read (fun w g => by rw [World.debugHandle_raise]) fun _ _ => pure trivial
  | _ => exact typeError

theorem keepCanceler (name : Name) {c : Canceler} (h : c.In V ∧ (c.isWaiter = true → V.lines)) :
    J Unit (Act.update (World.keepCanceler name c)) fun _ => True :=
  updateSession (fun s => { s with cancelers := (name, c) :: s.cancelers.filter (·.1 != name) })
    (fun _ => rfl) fun _ hs => ⟨hs.globals, hs.kept, List.forall_mem_cons.2
      ⟨h, fun e he => hs.cancelers e (List.mem_filter.1 he).1⟩⟩

theorem takeCanceler (name : Name) :
    J (Option Canceler) (Act.updateGet (World.takeCanceler name)) fun found =>
      ∀ c ∈ found, c.In V ∧ (c.isWaiter = true → V.lines) :=
  session (fun s => (s.cancelers.lookup name, { s with cancelers := s.cancelers.filter (·.1 != name) }))
    (fun _ => rfl) fun _ hs => ⟨⟨hs.globals, hs.kept, fun e he => hs.cancelers e (List.mem_filter.1 he).1⟩,
      fun c hfound => hs.cancelers (name, c) (mem_of_lookup hfound)⟩

theorem scenario {op : ScenarioOp} (hop : op.isOrdinary = true) : J Answer op.perform fun _ => True := by
  have hempty := Env.in_empty (V := V)
  cases op with
  | newDeferred _ | newSemaphore _ _ | newQueue _ _ => cases hop
  | run name body throws =>
    exact bind (build hempty body) fun root hroot => bind (launch hroot (.report name throws) rfl) fun _ _ =>
      bind (nameFiber name _) fun _ _ => pure trivial
  | fork name body reports =>
    refine bind (build hempty body) fun root hroot => bind (launch hroot .publish rfl) fun f _ =>
      bind (setGlobal name Scope.nothing) fun _ _ => bind (nameFiber name f) fun _ _ => ?_
    split
    · exact bind (listen f trivial) fun _ _ => pure trivial
    · exact pure trivial
  | onExit name tag => exact bind (globalFiber name) fun f _ => bind (listen f trivial) fun _ _ => pure trivial
  | poll name =>
    exact bind (globalFiber name) fun f _ => read (fun w g => by rw [World.fiberReport_raise]) fun _ _ =>
      pure trivial
  | fiberNumber name => exact bind (fiberNamed name) fun f _ => pure trivial
  | isDone name =>
    exact bind (fiberNamed name) fun f _ => read (fun w g => by rw [World.isDone_raise]) fun _ _ => pure trivial
  | interrupt name => exact bind (fiberNamed name) fun f _ => bind (interrupt f) fun _ _ => pure trivial
  | setGlobal name value =>
    exact bind (eval hempty value) fun v hv => bind (setGlobal name hv) fun _ _ => pure trivial
  | newCell name initial =>
    exact bind (eval hempty initial) fun v hv => bind (makeCell hv) fun _ _ =>
      bind (setGlobal name Scope.nothing) fun _ _ => pure trivial
  | settleKept key how value =>
    exact bind (eval hempty value) fun v hv => bind (settleKept key how hv) fun _ _ => pure trivial
  | dropKept key => exact bind (takeKept key) fun _ _ => pure trivial
  | debugKept key => exact read (fun _ _ => rfl) fun _ _ => pure trivial
  | act list => exact bind (actions hempty Scope.noCallback list) fun _ _ => pure trivial
  | dispatch list => exact bind (dispatch list hempty) fun _ _ => pure trivial
  | after name delay list =>
    exact bind (schedule delay rfl hempty) fun _ _ => bind (keepCanceler name ⟨Scope.nothing, nofun⟩) fun _ _ =>
      pure trivial
  | cancel name =>
    refine bind (takeCanceler name) fun found hfound => ?_
    cases found with
    | none => exact pure trivial
    | some c => exact bind (canceler (hfound c rfl).1 (hfound c rfl).2) fun _ _ => pure trivial
  | eval value => exact bind (eval hempty value) fun _ _ => pure trivial
  | debug value => exact bind (eval hempty value) fun v _ => bind (debugText v) fun _ _ => pure trivial
  | debugHandle name =>
    exact bind (fiberNamed name) fun f _ => read (fun w g => by rw [World.debugHandle_raise]) fun _ _ =>
      pure trivial
  | dispatched => exact read (fun _ _ => rfl) fun _ _ => pure trivial
  | caughtThrows => exact read (fun _ _ => rfl) fun _ _ => pure trivial
  | loopInfo => exact read (fun _ _ => rfl) fun _ _ => pure trivial
  | shutdown => exact bind requestShutdown fun _ _ => pure trivial
  | settle => exact pure trivial
  | rounds count => exact pure trivial
  | advance milliseconds => exact pure trivial

end Tracks

/-! ## All closures

In a scope where everything may be mentioned the operations that are not ordinary are no exception.
-/

namespace TracksAll

section Making

variable {V : Scope} {J : Judgement} [tracks : TracksMaking V J]

include tracks

/-- What an operation does, given what it does to the cell to which it writes. -/
theorem operation_of (o : Operation)
    (hwrites : ∀ c ∈ o.writes?, ∀ v, J Unit (Act.update (World.setCell c v)) fun _ => True) :
    J Value o.perform fun _ => True := by
  by_cases ho : o.isOrdinary = true
  · exact Tracks.mono (Tracks.operation_of (fun d _ => everything J d) (fun q _ => used J q) ho
      fun c hc v _ => hwrites c hc v) fun _ _ => trivial
  · cases o with
    | makeDeferred => exact Tracks.bind makeDeferred fun _ _ => Tracks.pure trivial
    | makeSemaphore permits => exact Tracks.bind (makeSemaphore permits) fun _ _ => Tracks.pure trivial
    | makeQueue policy => exact Tracks.bind (makeQueue policy) fun _ _ => Tracks.pure trivial
    | requestPermit s => exact requestPermit s
    | tryAcquire s => exact Tracks.bind (tryAcquire s) fun _ _ => Tracks.pure trivial
    | releasePermit s => exact Tracks.bind (releasePermit s) fun _ _ => Tracks.pure trivial
    | abandonPermit s latch => exact Tracks.bind (abandonPermit s latch) fun _ _ => Tracks.pure trivial
    | requestItem q => exact requestItem q
    | _ => exact absurd rfl ho

/-- The closure of a suspended step, given what the operation does that it may perform. -/
theorem thunk_of (t : Thunk) (hperform : ∀ o, t = .perform o → J Value o.perform fun _ => True) :
    J Next t.run fun _ => True :=
  Tracks.mono (Tracks.thunk_of (fun d _ => everything J d) fun o ho =>
    Tracks.mono (hperform o ho) fun _ _ d _ => everything J d) fun _ _ => trivial

theorem scenario (op : ScenarioOp) : J Answer op.perform fun _ => True := by
  by_cases hop : op.isOrdinary = true
  · exact Tracks.scenario hop
  · cases op with
    | newDeferred name =>
      exact Tracks.bind makeDeferred fun d _ => Tracks.bind (Tracks.setGlobal name fun d _ => everything J d) fun _ _ =>
        Tracks.pure trivial
    | newSemaphore name permits =>
      exact Tracks.bind (makeSemaphore permits) fun s _ =>
        Tracks.bind (Tracks.setGlobal name fun d _ => everything J d) fun _ _ => Tracks.pure trivial
    | newQueue name policy =>
      exact Tracks.bind (makeQueue policy) fun q _ =>
        Tracks.bind (Tracks.setGlobal name fun d _ => everything J d) fun _ _ => Tracks.pure trivial
    | _ => exact absurd rfl hop

end Making

variable {V : Scope} {J : Judgement} [tracks : TracksAll V J]

include tracks

theorem operation (o : Operation) : J Value o.perform fun _ => True :=
  operation_of o fun c _ _ => Tracks.setCell c fun d _ => everything J d

theorem thunk (t : Thunk) : J Next t.run fun _ => True := thunk_of t fun o _ => operation o

end TracksAll

end FiberLoop
