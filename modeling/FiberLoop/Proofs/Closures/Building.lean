import FiberLoop.Proofs.Closures.Evaluating

/-!
# Building programs

A combinator mentions what its parts mention. `Program.build` evaluates the plain expressions of a program and
composes its description; it changes the world no more than the expressions do, and the description mentions
nothing but what the bindings and the globals mention, however deep the calls nest.
-/

namespace FiberLoop

/-! ## Combinators -/

namespace Effect.In

variable {V : Scope} {e left right : Effect}

theorem perform {o : Operation} (h : o.In V) : (Effect.perform o).In V := h

theorem chain {k : Continuation} (h : e.In V) (hk : k.In V) : (Effect.chain e k).In V := by
  intro d hd
  rw [Effect.mentions] at hd
  split at hd
  · rename_i ms hms
    obtain ⟨s, hs, rfl⟩ | ⟨q, gate, hq, rfl⟩ := Effect.redeemed?_eq_some hms
    · cases hs
      rw [List.mem_singleton.1 hd]
      exact h _ List.mem_cons_self
    · cases gate with
      | none =>
        cases hq
        exact h d (List.mem_append_left [Mention.draw q] hd)
      | some g =>
        cases hq
        have hqueue : V.mentions (.queue q) := hk _ (List.mem_cons_of_mem _ List.mem_cons_self)
        have hungated : V.mentions (.through q none) := hk _ (List.mem_cons_of_mem _ (List.mem_cons_of_mem _ List.mem_cons_self))
        have hgated := V.gates q g hungated (h _ List.mem_cons_self)
        exact List.forall_mem_cons.2 ⟨hqueue, List.forall_mem_singleton.2 hgated⟩ d hd
  · split at hd
    · rename_i q g v hoffered
      cases Effect.offered?_eq_some hoffered
      obtain ⟨hqueue, hrest⟩ := List.forall_mem_cons.1 hk
      obtain ⟨hungated, hitem⟩ := List.forall_mem_cons.1 hrest
      have hgated := V.gates q g hungated (h _ List.mem_cons_self)
      exact List.forall_mem_cons.2 ⟨hqueue, List.forall_mem_cons.2 ⟨hgated, hitem⟩⟩ d hd
    · exact List.forall_mem_append.2 ⟨h, hk⟩ d hd

theorem fold {k : Continuation} {r : Recovery} (h : e.In V) (hk : k.In V) (hr : r.In V) :
    (Effect.fold e k r).In V :=
  List.forall_mem_append.2 ⟨h, List.forall_mem_append.2 ⟨hk, hr⟩⟩

theorem map {f : Transform} (h : e.In V) (hf : f.In V) : (e.map f).In V := chain h hf

theorem convert (h : e.In V) : e.convert.In V := map h Scope.nothing

theorem unit (h : e.In V) : e.unit.In V := map h Scope.nothing

theorem result (h : e.In V) : e.result.In V := fold h Scope.nothing Scope.nothing

theorem onFailed {k : Continuation} (h : e.In V) (hk : k.In V) : (e.onFailed k).In V :=
  fold h Scope.nothing hk

theorem infallible (h : e.In V) : e.infallible.In V := onFailed h Scope.nothing

theorem onInterrupted {finalizer : Effect} (h : e.In V) (hf : finalizer.In V) :
    (e.onInterrupted finalizer).In V :=
  fold h Scope.nothing hf

theorem andThen (hl : left.In V) (hr : right.In V) : (left.andThen right).In V := chain hl hr

theorem zipWith {f : Combine} (hl : left.In V) (hr : right.In V) (hf : f.In V) :
    (left.zipWith right f).In V :=
  chain hl (List.forall_mem_append.2 ⟨hr, hf⟩)

theorem race (hl : left.In V) (hr : right.In V) : (left.race right).In V :=
  chain Scope.nothing (List.forall_mem_append.2 ⟨hl, hr⟩)

theorem parZipWith {f : Combine} (hl : left.In V) (hr : right.In V) (hf : f.In V) :
    (left.parZipWith right f).In V :=
  chain Scope.nothing (List.forall_mem_append.2 ⟨hl, List.forall_mem_append.2 ⟨hr, hf⟩⟩)

theorem bracketExit {release : Release} {use : Continuation} (h : e.In V) (hrelease : release.In V)
    (huse : use.In V) : (e.bracketExit release use).In V :=
  chain h (List.forall_mem_append.2 ⟨hrelease, huse⟩)

theorem redeem (h : e.In V) : e.redeem.In V := bracketExit h Scope.nothing Scope.nothing

theorem awaitDeferred {d : DeferredId} (h : V.mentions (.wait d)) : (Effect.awaitDeferred d).In V :=
  List.forall_mem_singleton.2 h

theorem completeDeferred {d : DeferredId} {x : Exit Value Value} (h : V.mentions (.deferred d))
    (hx : Value.ExitIn V x) : (Effect.completeDeferred d x).In V :=
  List.forall_mem_cons.2 ⟨h, hx⟩

theorem completeFrom {d : DeferredId} {source : Effect} (h : V.mentions (.deferred d)) (hs : source.In V) :
    (Effect.completeFrom d source).In V :=
  chain (result hs) (List.forall_mem_singleton.2 h)

theorem acquirePermit {s : SemaphoreId} (h : V.mentions (.semaphore s)) : (Effect.acquirePermit s).In V :=
  List.forall_mem_singleton.2 h

theorem releasePermit {s : SemaphoreId} (h : V.mentions (.semaphore s)) : (Effect.releasePermit s).In V :=
  List.forall_mem_singleton.2 h

theorem withPermit {s : SemaphoreId} {body : Effect} (h : V.mentions (.semaphore s)) (hbody : body.In V) :
    (Effect.withPermit s body).In V :=
  andThen (acquirePermit h) (bracketExit Scope.nothing (releasePermit h) hbody)

theorem takeItem {gate : Option SemaphoreId} {q : QueueId} (hq : V.mentions (.queue q))
    (h : V.mentions (.through q gate)) : (Effect.takeItem q gate).In V := Effect.in_takeItem.2 ⟨hq, h⟩

theorem offerItem {gate : Option SemaphoreId} {item : Value} {q : QueueId} (hq : V.mentions (.queue q))
    (h : V.mentions (.through q gate)) (hitem : item.In V) : (Effect.offerItem q gate item).In V := by
  cases gate with
  | none => exact List.forall_mem_cons.2 ⟨hq, List.forall_mem_cons.2 ⟨h, hitem⟩⟩
  | some g => exact Effect.in_offerItem.2 ⟨hq, h, hitem⟩

theorem offerItems {gate : Option SemaphoreId} {items : List Value} {q : QueueId} (hq : V.mentions (.queue q))
    (h : V.mentions (.through q gate)) (hitems : ∀ v ∈ items, v.In V) : (Effect.offerItems q gate items).In V := by
  suffices ∀ before : Effect, before.In V →
      (items.foldl (fun before item => before.andThen (Effect.offerItem q gate item)) before).In V from
    this _ Scope.nothing
  induction items with
  | nil => exact fun _ hbefore => hbefore
  | cons v rest ih =>
    intro before hbefore
    obtain ⟨hv, hrest⟩ := List.forall_mem_cons.1 hitems
    exact ih hrest _ (andThen hbefore (offerItem hq h hv))

/-- Wrapping an effect several times stays in scope if wrapping it once does. -/
theorem repeatWrap {wrap : Effect → Effect} {count : Nat} (h : e.In V)
    (hwrap : ∀ e : Effect, e.In V → (wrap e).In V) : (Effect.repeatWrap wrap count e).In V := by
  induction count generalizing e with
  | zero => exact h
  | succ n ih => exact ih (hwrap e h)

end Effect.In

theorem Value.in_ticket {V : Scope} {acquire cleanup : Effect} (ha : acquire.In V) (hc : cleanup.In V) :
    (Value.ticket acquire cleanup).In V :=
  List.forall_mem_append.2 ⟨ha, hc⟩

/-- The ticket for an item that was there. -/
theorem Value.in_grantedItem {V : Scope} {q : QueueId} {item : Value} (hq : V.mentions (.undo q)) (hitem : item.In V) :
    (Effect.grantedTicket item (.perform (.putBackItem q item))).In V :=
  Value.in_ticket hitem (List.forall_mem_cons.2 ⟨hq, hitem⟩)

/-- The ticket for an item that is waited for. -/
theorem Value.in_awaitedItem {V : Scope} {q : QueueId} {latch : DeferredId} (hq : V.mentions (.undo q))
    (hlatch : V.mentions (.wait latch)) :
    (Value.ticket (.awaitDeferred latch) (.perform (.abandonItem q latch))).In V :=
  Value.in_ticket (List.forall_mem_singleton.2 hlatch)
    (List.forall_mem_cons.2 ⟨hq, List.forall_mem_singleton.2 hlatch⟩)

/-- Whoever has a queue may use it through its gate. -/
theorem World.Confined.queueGate {V : Scope} {w : World} (hw : w.Confined V) {q : QueueId} (hq : V.mentions (.queue q)) :
    V.mentions (.through q (w.queueGate q)) := hw.stores.gates q hq

namespace Tracks

variable {V : Scope} {J : Judgement} [tracks : TracksReading V J]

include tracks

/-! ## Requests -/

theorem cellRequest {env : Env} (h : env.In V) (request : CellRequest) :
    J Effect (request.build env) (Effect.In V) := by
  cases request with
  | make initial => exact bind (eval h initial) fun _ hv => pure (.convert (.perform hv))
  | get cell => exact bind (eval h cell) fun v _ => bind (asCell v) fun _ _ => pure Scope.nothing
  | set cell value =>
    exact bind (eval h cell) fun v _ => bind (asCell v) fun _ _ => bind (eval h value) fun _ hv =>
      pure (.convert (.perform hv))
  | update cell name value =>
    exact bind (eval h cell) fun v _ => bind (asCell v) fun _ _ => pure (.convert (.perform h))
  | updateAndGet cell name value =>
    exact bind (eval h cell) fun v _ => bind (asCell v) fun _ _ => pure (.perform h)
  | modify cell name value result =>
    exact bind (eval h cell) fun v _ => bind (asCell v) fun _ _ => pure (.perform h)

theorem deferredRequest {env : Env} (h : env.In V) (request : DeferredRequest) :
    J Effect (request.build env) (Effect.In V) := by
  cases request with
  | make => exact pure Scope.nothing
  | wait deferred =>
    exact bind (eval h deferred) fun v hv => bind (asDeferred hv) fun _ hd => pure (.awaitDeferred (V.waits _ hd))
  | complete deferred exit =>
    exact bind (eval h deferred) fun v hv => bind (asDeferred hv) fun _ hd => bind (eval h exit) fun _ hx =>
      bind (asExit hx) fun _ hx => pure (.convert (.completeDeferred hd hx))
  | done deferred value =>
    exact bind (eval h deferred) fun v hv => bind (asDeferred hv) fun _ hd => bind (eval h value) fun _ hx =>
      pure (.convert (.completeDeferred hd hx))
  | error deferred value =>
    exact bind (eval h deferred) fun v hv => bind (asDeferred hv) fun _ hd => bind (eval h value) fun _ hx =>
      pure (.convert (.completeDeferred hd hx))
  | abort deferred message =>
    exact bind (eval h deferred) fun v hv => bind (asDeferred hv) fun _ hd => bind (eval h message) fun m _ =>
      bind (asText m) fun _ _ => pure (.convert (.completeDeferred hd Scope.nothing))
  | interrupt deferred =>
    exact bind (eval h deferred) fun v hv => bind (asDeferred hv) fun _ hd =>
      pure (.convert (.completeDeferred hd Scope.nothing))
  | cause deferred value =>
    exact bind (eval h deferred) fun v hv => bind (asDeferred hv) fun _ hd => bind (eval h value) fun _ hc =>
      bind (asCause hc) fun _ hc => pure (.convert (.completeDeferred hd hc))
  | isCompleted deferred =>
    exact bind (eval h deferred) fun v hv => bind (asDeferred hv) fun _ hd =>
      pure (.convert (.perform (List.forall_mem_singleton.2 (V.waits _ hd))))
  | poll deferred =>
    exact bind (eval h deferred) fun v hv => bind (asDeferred hv) fun _ hd =>
      pure (.convert (.perform (List.forall_mem_singleton.2 (V.waits _ hd))))

theorem semaphoreRequest {env : Env} (h : env.In V) (request : SemaphoreRequest) :
    J Effect (request.build env) (Effect.In V) := by
  cases request with
  | make permits => exact pure Scope.nothing
  | acquire semaphore =>
    exact bind (eval h semaphore) fun v hv => bind (asSemaphore hv) fun _ hs =>
      pure (.convert (.acquirePermit hs))
  | tryAcquire semaphore =>
    exact bind (eval h semaphore) fun v hv => bind (asSemaphore hv) fun _ hs =>
      pure (.convert (.perform (List.forall_mem_singleton.2 hs)))
  | release semaphore =>
    exact bind (eval h semaphore) fun v hv => bind (asSemaphore hv) fun _ hs =>
      pure (.convert (.releasePermit hs))
  | available semaphore =>
    exact bind (eval h semaphore) fun v hv => bind (asSemaphore hv) fun _ hs =>
      pure (.convert (.perform (List.forall_mem_singleton.2 hs)))
  | waiting semaphore =>
    exact bind (eval h semaphore) fun v hv => bind (asSemaphore hv) fun _ hs =>
      pure (.convert (.perform (List.forall_mem_singleton.2 hs)))

theorem queueRequest {env : Env} (h : env.In V) (request : QueueRequest) :
    J Effect (request.build env) (Effect.In V) := by
  cases request with
  | make policy => exact pure Scope.nothing
  | take queue =>
    exact bind (eval h queue) fun v hv => bind (asQueue hv) fun q hq => read (fun _ _ => rfl) fun w hw =>
      pure (.takeItem hq (hw.queueGate hq))
  | offer queue item =>
    exact bind (eval h queue) fun v hv => bind (asQueue hv) fun q hq => bind (eval h item) fun _ hitem =>
      read (fun _ _ => rfl) fun w hw => pure (.convert (.offerItem hq (hw.queueGate hq) hitem))
  | offerAll queue items =>
    exact bind (eval h queue) fun v hv => bind (asQueue hv) fun q hq => bind (eval h items) fun _ hitems =>
      bind (asList hitems) fun _ hvs => read (fun _ _ => rfl) fun w hw =>
        pure (.convert (.offerItems hq (hw.queueGate hq) hvs))
  | size queue =>
    exact bind (eval h queue) fun v hv => bind (asQueue hv) fun _ hq =>
      pure (.convert (.perform (List.forall_mem_singleton.2 hq)))

theorem fiberRequest {env : Env} (h : env.In V) (request : FiberRequest) :
    J Effect (request.build env) (Effect.In V) := by
  cases request with
  | join fiber => exact bind (eval h fiber) fun v _ => bind (asFiber v) fun _ _ => pure Scope.nothing
  | await fiber => exact bind (eval h fiber) fun v _ => bind (asFiber v) fun _ _ => pure Scope.nothing
  | interrupt fiber => exact bind (eval h fiber) fun v _ => bind (asFiber v) fun _ _ => pure Scope.nothing
  | state fiber => exact bind (eval h fiber) fun v _ => bind (asFiber v) fun _ _ => pure Scope.nothing
  | interruptNamed fiber => exact pure Scope.nothing

/-! ## Programs -/

/-- What is built is in scope if what the calls inside build is. -/
theorem buildWith {call : Name → Value → Act Effect}
    (hcall : ∀ name (v : Value), v.In V → J Effect (call name v) (Effect.In V)) {env : Env} (h : env.In V)
    (p : Program) : J Effect (p.buildWith call env) (Effect.In V) := by
  have nothing := Scope.nothing (V := V)
  induction p with
  | abortFixed | interrupted | never | unitValue | budget | onLoop => exact pure nothing
  | sleep _ => exact pure nothing
  | sync _ | suspend _ _ | log _ | trySync _ _ | async _ _ | asyncTotal _ _ _ | settleKept _ _ _ =>
    exact pure h
  | dispatch _ => exact pure (.map nothing h)
  | succeed value | fail value => exact bind (eval h value) fun _ hv => pure hv
  | abort message => exact bind (eval h message) fun v _ => bind (asText v) fun _ _ => pure nothing
  | abortSealed number =>
    exact bind (eval h number) fun v _ => bind (asInt v) fun _ _ => bind freshSerial fun _ _ => pure nothing
  | caused cause => exact bind (eval h cause) fun v hv => bind (asCause hv) fun _ hc => pure hc
  | completed exit => exact bind (eval h exit) fun v hv => bind (asExit hv) fun _ hx => pure hx
  | blockOn body ih => exact bind ih fun _ he => pure (.map nothing he)
  | map source name value ih => exact bind ih fun _ he => pure (.map he h)
  | chain source name next ih _ => exact bind ih fun _ he => pure (.chain he h)
  | fold source name onValue causeName onCause ih _ _ => exact bind ih fun _ he => pure (.fold he h h)
  | chainError source name handler ih _ => exact bind ih fun _ he => pure (.onFailed he h)
  | mapError source name error ih => exact bind ih fun _ he => pure (.fold he nothing h)
  | result source ih => exact bind ih fun _ he => pure (.convert (.result he))
  | unit source ih => exact bind ih fun _ he => pure (.convert (.unit he))
  | uninterruptible source ih => exact bind ih fun _ he => pure he
  | zip left right ihl ihr =>
    exact bind ihl fun _ hl => bind ihr fun _ hr => pure (.convert (.zipWith hl hr nothing))
  | race left right ihl ihr => exact bind ihl fun _ hl => bind ihr fun _ hr => pure (.race hl hr)
  | parZip left right ihl ihr =>
    exact bind ihl fun _ hl => bind ihr fun _ hr => pure (.convert (.parZipWith hl hr nothing))
  | applyFirst left right ihl ihr =>
    exact bind ihl fun _ hl => bind ihr fun _ hr => pure (.zipWith hl hr nothing)
  | applySecond left right ihl ihr => exact bind ihl fun _ hl => bind ihr fun _ hr => pure (.andThen hl hr)
  | zipWith left right leftName rightName value ihl ihr =>
    exact bind ihl fun _ hl => bind ihr fun _ hr => pure (.zipWith hl hr h)
  | parZipWith left right leftName rightName value ihl ihr =>
    exact bind ihl fun _ hl => bind ihr fun _ hr => pure (.parZipWith hl hr h)
  | ap argument function argumentName functionName value iha ihf =>
    exact bind iha fun _ ha => bind ihf fun _ hf => pure (.zipWith ha (.map hf h) nothing)
  | asValue source value ih => exact bind ih fun _ he => bind (eval h value) fun _ hv => pure (.map he hv)
  | flatten source name next ih _ => exact bind ih fun _ he => pure (.chain (.map he h) nothing)
  | onInterrupted source finalizer ihs ihf =>
    exact bind ihs fun _ hs => bind ihf fun _ hf => pure (.onInterrupted hs (.unit hf))
  | bracket acquire releaseName release useName use ih _ _ =>
    exact bind ih fun _ he => pure (.bracketExit he h h)
  | bracketExit acquire releaseName exitName release useName use ih _ _ =>
    exact bind ih fun _ he => pure (.bracketExit he h h)
  | cond condition yes no ihy ihn =>
    refine bind (eval h condition) fun v _ => bind (asBool v) fun b _ => ?_
    split
    · exact ihy
    · exact ihn
  | call definition argument => exact bind (eval h argument) fun v hv => hcall definition v hv
  | chainRepeat count source name next ih _ =>
    exact bind ih fun _ he => pure (.repeatWrap he fun _ he => .chain he h)
  | mapRepeat count source name value ih =>
    exact bind ih fun _ he => pure (.repeatWrap he fun _ he => .map he h)
  | chainErrorRepeat count source name handler ih _ =>
    exact bind ih fun _ he => pure (.repeatWrap he fun _ he => .onFailed he h)
  | maskRepeat count source ih => exact bind ih fun _ he => pure (.repeatWrap he fun _ he => he)
  | fork body ih => exact bind ih fun _ he => pure (.convert (.chain nothing he))
  | fiber request => exact fiberRequest h request
  | cell request => exact cellRequest h request
  | deferred request => exact deferredRequest h request
  | completeFrom deferred source ih =>
    exact bind (eval h deferred) fun v hv => bind (asDeferred hv) fun _ hd => bind ih fun _ he =>
      pure (.convert (.completeFrom hd he))
  | semaphore request => exact semaphoreRequest h request
  | withPermit semaphore body ih =>
    exact bind (eval h semaphore) fun v hv => bind (asSemaphore hv) fun _ hs => bind ih fun _ he =>
      pure (.withPermit hs he)
  | queue request => exact queueRequest h request
  | ticket acquire cleanup iha ihc =>
    exact bind iha fun _ ha => bind ihc fun _ hc =>
      pure (.redeem (Value.in_ticket (.infallible ha) (.unit (.infallible hc))))
  | ticketGranted value cleanup ih =>
    exact bind (eval h value) fun _ hv => bind ih fun _ hc =>
      pure (.redeem (Value.in_ticket hv (.unit (.infallible hc))))
  | ticketParts value cleanup ih =>
    exact bind (eval h value) fun _ hv => bind ih fun _ hc =>
      pure (.convert (.zipWith hv (.unit (.infallible hc)) nothing))

theorem buildCall (depth : Nat) (name : Name) (argument : Value) (h : argument.In V) :
    J Effect (Program.buildCall depth name argument) (Effect.In V) := by
  induction depth generalizing name argument with
  | zero => exact throwText _
  | succ depth ih =>
    refine read (fun _ _ => rfl) fun w _ => ?_
    split
    · exact throwText _
    · exact buildWith ih (Env.in_bind.2 ⟨h, Env.in_empty⟩) _

theorem build {env : Env} (h : env.In V) (p : Program) : J Effect (p.build env) (Effect.In V) :=
  buildWith (buildCall _) h p

end Tracks

end FiberLoop
