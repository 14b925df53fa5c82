import FiberLoop.Proofs.Closures.Tracking

/-!
# Expressions and actions

Evaluating an expression changes nothing but the next serial number; an action completes callbacks, requests
interruptions and notes things in the session. The value of an expression mentions nothing but what the bindings
and the globals mention.
-/

namespace FiberLoop

namespace Observes

variable {V : Scope} {J : Judgement} [observes : Observes V J] {α : Type} {Q : α → Prop}

include observes

/-! ## Operands -/

theorem typeError : J α Value.typeError Q := throwText _

theorem asBool (v : Value) : J Bool v.asBool fun _ => True := by
  cases v with
  | bool b => exact pure trivial
  | _ => exact typeError

theorem asInt (v : Value) : J Int v.asInt fun _ => True := by
  cases v with
  | int n => exact pure trivial
  | _ => exact typeError

theorem asText (v : Value) : J String v.asText fun _ => True := by
  cases v with
  | str s => exact pure trivial
  | _ => exact typeError

theorem asCell (v : Value) : J CellId v.asCell fun _ => True := by
  cases v with
  | cell c => exact pure trivial
  | _ => exact typeError

theorem asQueue {v : Value} (h : v.In V) : J QueueId v.asQueue fun q => V.mentions (.queue q) := by
  cases v with
  | queue q => exact pure (h _ List.mem_cons_self)
  | _ => exact typeError

theorem asFiber (v : Value) : J FiberId v.asFiber fun _ => True := by
  cases v with
  | fiber f => exact pure trivial
  | _ => exact typeError

theorem asList {v : Value} (h : v.In V) : J (List Value) v.asList fun items => ∀ v ∈ items, v.In V := by
  cases v with
  | list items => exact pure (Value.in_list.1 h)
  | _ => exact typeError

theorem asExit {v : Value} (h : v.In V) : J (Exit Value Value) v.asExit (Value.ExitIn V) := by
  cases v with
  | exit x => exact pure h
  | _ => exact typeError

theorem asCause {v : Value} (h : v.In V) : J (Cause Value) v.asCause (Value.CauseIn V) := by
  cases v with
  | cause c => exact pure h
  | _ => exact typeError

theorem asDeferred {v : Value} (h : v.In V) : J DeferredId v.asDeferred fun d => V.mentions (.deferred d) := by
  cases v with
  | deferred d => exact pure (h _ List.mem_cons_self)
  | _ => exact typeError

theorem asSemaphore {v : Value} (h : v.In V) :
    J SemaphoreId v.asSemaphore fun s => V.mentions (.semaphore s) := by
  cases v with
  | semaphore s => exact pure (h _ List.mem_cons_self)
  | _ => exact typeError

theorem ofArith (n : Int) : J Value (Value.ofArith n) (Value.In V) := by
  unfold Value.ofArith
  split
  · exact pure Scope.nothing
  · exact throwText _

theorem length (v : Value) : J Value v.length (Value.In V) := by
  cases v with
  | list items => exact pure Scope.nothing
  | str s => exact pure Scope.nothing
  | _ => exact typeError

theorem item {items : List Value} (h : ∀ v ∈ items, v.In V) (index : Int) :
    J Value (Value.item items index) (Value.In V) := by
  unfold Value.item
  split
  · split
    · rename_i v hv
      exact pure (h v (List.mem_of_getElem? hv))
    · exact throwText _
  · exact throwText _

theorem kind (v : Value) : J Value v.kind (Value.In V) := by
  unfold Value.kind
  split
  · exact pure Scope.nothing
  · exact pure Scope.nothing
  · exact pure Scope.nothing
  · exact typeError

theorem payload {v : Value} (h : v.In V) : J Value v.payload (Value.In V) := by
  unfold Value.payload
  split
  · exact pure h
  · exact pure (Value.in_causePayload h)
  · exact pure (Value.in_causePayload h)
  · exact typeError

theorem toCause {v : Value} (h : v.In V) : J Value v.toCause (Value.In V) := by
  unfold Value.toCause
  split
  · exact pure h
  · exact typeError

theorem resolve {env : Env} (h : env.In V) (name : Name) : J Value (Act.resolve env name) (Value.In V) := by
  unfold Act.resolve
  split
  · rename_i v hv
    exact pure (h.lookup hv)
  · refine read (fun _ _ => rfl) fun w hw => ?_
    split
    · rename_i v hv
      exact pure (hw.session.globals (name, v) (mem_of_lookup hv))
    · exact throwText _

theorem queuePolicy (q : QueueId) : J Overflow (Act.queuePolicy q) fun _ => True :=
  read (fun _ _ => rfl) fun _ _ => pure trivial

/-! ## Expressions -/

mutual

theorem eval {env : Env} (h : env.In V) : ∀ e : Expr, J Value (e.eval env) (Value.In V)
  | .const d => by
    unfold Expr.eval
    exact pure (Value.in_ofDatum d)
  | .var name => by
    unfold Expr.eval
    exact resolve h name
  | .list items => by
    unfold Expr.eval
    exact bind (evalAll h items) fun _ hvs => pure (Value.in_list.2 hvs)
  | .arith operation left right => by
    unfold Expr.eval
    exact bind (eval h left) fun a _ => bind (eval h right) fun b _ =>
      bind (asInt a) fun _ _ => bind (asInt b) fun _ _ => ofArith _
  | .less left right => by
    unfold Expr.eval
    exact bind (eval h left) fun a _ => bind (eval h right) fun b _ =>
      bind (asInt a) fun _ _ => bind (asInt b) fun _ _ => pure Scope.nothing
  | .equal left right => by
    unfold Expr.eval
    exact bind (eval h left) fun _ _ => bind (eval h right) fun _ _ => pure Scope.nothing
  | .not operand => by
    unfold Expr.eval
    exact bind (eval h operand) fun v _ => bind (asBool v) fun _ _ => pure Scope.nothing
  | .cond condition yes no => by
    unfold Expr.eval
    refine bind (eval h condition) fun v _ => bind (asBool v) fun b _ => ?_
    split
    · exact eval h yes
    · exact eval h no
  | .length operand => by
    unfold Expr.eval
    exact bind (eval h operand) fun v _ => length v
  | .item source index => by
    unfold Expr.eval
    exact bind (eval h source) fun items hitems => bind (eval h index) fun i _ =>
      bind (asList hitems) fun _ hvs => bind (asInt i) fun _ _ => item hvs _
  | .append source last => by
    unfold Expr.eval
    exact bind (eval h source) fun items hitems => bind (eval h last) fun _ hv =>
      bind (asList hitems) fun _ hvs => pure (Value.in_list.2 (List.forall_mem_append.2 ⟨hvs, List.forall_mem_singleton.2 hv⟩))
  | .concat texts => by
    unfold Expr.eval
    exact bind (evalAll h texts) fun vs _ => bind (mapM vs fun v _ => asText v) fun _ _ => pure Scope.nothing
  | .kind operand => by
    unfold Expr.eval
    exact bind (eval h operand) fun v _ => kind v
  | .payload operand => by
    unfold Expr.eval
    exact bind (eval h operand) fun _ hv => payload hv
  | .toCause exit => by
    unfold Expr.eval
    exact bind (eval h exit) fun _ hv => toCause hv
  | .toExit cause => by
    unfold Expr.eval
    exact bind (eval h cause) fun v hv => bind (asCause hv) fun _ hc => pure hc
  | .capacity queue => by
    unfold Expr.eval
    refine bind (eval h queue) fun v hv => bind (asQueue hv) fun q _ => bind (queuePolicy q) fun policy _ => ?_
    cases policy.capacity? with
    | none => exact pure Scope.nothing
    | some n => exact pure Scope.nothing
  | .policy queue => by
    unfold Expr.eval
    exact bind (eval h queue) fun v hv => bind (asQueue hv) fun q _ => bind (queuePolicy q) fun _ _ =>
      pure Scope.nothing
  | .throwText message => by
    unfold Expr.eval
    exact bind (eval h message) fun v _ => bind (asText v) fun _ _ => throwText _
  | .throwFixed => by
    unfold Expr.eval
    exact throwText _
  | .throwNumber number => by
    unfold Expr.eval
    exact bind (eval h number) fun v _ => bind (asInt v) fun _ _ => throw _
  | .exitValue value => by
    unfold Expr.eval
    exact bind (eval h value) fun _ hv => pure hv
  | .exitFailed error => by
    unfold Expr.eval
    exact bind (eval h error) fun _ hv => pure hv
  | .exitAborted message => by
    unfold Expr.eval
    exact bind (eval h message) fun v _ => bind (asText v) fun _ _ => pure Scope.nothing
  | .exitSealed number => by
    unfold Expr.eval
    exact bind (eval h number) fun v _ => bind (asInt v) fun _ _ => bind freshSerial fun _ _ =>
      pure Scope.nothing
  | .exitInterrupted => by
    unfold Expr.eval
    exact pure Scope.nothing

theorem evalAll {env : Env} (h : env.In V) :
    ∀ es : List Expr, J (List Value) (Expr.evalAll env es) fun vs => ∀ v ∈ vs, v.In V
  | [] => by
    unfold Expr.evalAll
    exact pure nofun
  | e :: rest => by
    unfold Expr.evalAll
    exact bind (eval h e) fun _ hv => bind (evalAll h rest) fun _ hvs => pure (List.forall_mem_cons.2 ⟨hv, hvs⟩)

end

theorem unexpectedValue : J α Act.unexpectedValue Q := throw _

/-- The function of a pairing evaluates an expression at most. -/
theorem combine {f : Combine} (hf : f.In V) {a b : Value} (ha : a.In V) (hb : b.In V) :
    J Value (f.apply a b) (Value.In V) := by
  cases f with
  | eval leftName rightName value env =>
    exact eval (Env.in_bind.2 ⟨hb, Env.in_bind.2 ⟨ha, hf⟩⟩) value
  | pair => exact pure (Value.in_pair ha hb)
  | first => exact pure ha
  | call =>
    cases b with
    | function param body env => exact eval (Env.in_bind.2 ⟨ha, hb⟩) body
    | _ => exact unexpectedValue

end Observes

namespace Tracks

export Observes (typeError asBool asInt asText asCell asQueue asFiber asList asExit asCause asDeferred asSemaphore
  ofArith length item kind payload toCause resolve queuePolicy eval evalAll unexpectedValue combine)

variable {V : Scope} {J : Judgement} [tracks : TracksReading V J]

include tracks

/-! ## Actions -/

theorem settlementExit (how : Settlement) {v : Value} (h : v.In V) :
    J (Exit Value Value) (how.exit v) (Value.ExitIn V) := by
  unfold Settlement.exit
  split
  · exact pure h
  · exact pure h
  · exact pure h
  · exact pure h
  · exact bind (asText v) fun _ _ => pure Scope.nothing
  · exact asExit h

theorem log (entry : LogEntry) : J _ (Act.update (World.log entry)) fun _ => True :=
  updateSession (fun s => { s with log := entry :: s.log }) (fun _ => rfl) fun _ hs =>
    ⟨hs.globals, hs.kept, hs.cancelers⟩

theorem keep (key : Name) {callback : Callback} (h : V.callback callback) :
    J _ (Act.update (World.keep key callback)) fun _ => True :=
  updateSession (fun s => { s with kept := s.kept ++ [(key, callback)] }) (fun _ => rfl) fun _ hs =>
    ⟨hs.globals, List.forall_mem_append.2 ⟨hs.kept, List.forall_mem_singleton.2 h⟩, hs.cancelers⟩

theorem takeKept (key : Name) :
    J _ (Act.updateGet (World.takeKept key)) fun found => ∀ callback ∈ found, V.callback callback :=
  session (fun s => (s.kept.lookup key, { s with kept := s.kept.eraseP (·.1 == key) })) (fun _ => rfl) fun _ hs =>
    ⟨⟨hs.globals, fun e he => hs.kept e (List.mem_of_mem_eraseP he), hs.cancelers⟩,
      fun callback hfound => hs.kept (key, callback) (mem_of_lookup hfound)⟩

theorem settleKept (key : Name) (how : Settlement) {v : Value} (h : v.In V) :
    J Bool (Act.settleKept key how v) fun _ => True := by
  refine bind (takeKept key) fun found hfound => ?_
  cases found with
  | none => exact pure trivial
  | some callback =>
    exact bind (settlementExit how h) fun exit hexit => bind (settle (hfound callback rfl) hexit) fun _ _ =>
      pure trivial

theorem fiberNamed (name : Name) : J FiberId (World.fiberNamed name) fun _ => True := by
  refine read (fun _ _ => rfl) fun w _ => ?_
  split
  · exact pure trivial
  · exact throwText _

theorem action {env : Env} (h : env.In V) {callback : Option Callback}
    (hcallback : ∀ cb ∈ callback, V.callback cb) (a : Action) :
    J (Option Callback) (a.run env callback) fun left => ∀ cb ∈ left, V.callback cb := by
  cases a with
  | log value => exact bind (eval h value) fun v _ => bind (log _) fun _ _ => pure hcallback
  | throwText message =>
    exact bind (eval h message) fun v _ => bind (asText v) fun _ _ => throwText _
  | interrupt fiber =>
    exact bind (fiberNamed fiber) fun f _ => bind (interrupt f) fun _ _ => pure hcallback
  | keep key =>
    cases callback with
    | none => exact pure nofun
    | some cb => exact bind (keep key (hcallback cb rfl)) fun _ _ => pure nofun
  | settle how value =>
    cases callback with
    | none => exact pure nofun
    | some cb =>
      exact bind (eval h value) fun v hv => bind (settlementExit how hv) fun exit hexit =>
        bind (settle (hcallback cb rfl) hexit) fun _ _ => pure nofun
  | settleKept key how value =>
    exact bind (eval h value) fun v hv => bind (settleKept key how hv) fun found _ =>
      bind (log _) fun _ _ => pure hcallback

theorem actions {env : Env} (h : env.In V) {callback : Option Callback}
    (hcallback : ∀ cb ∈ callback, V.callback cb) (list : List Action) :
    J Unit (Action.runAll env callback list) fun _ => True := by
  induction list generalizing callback with
  | nil => exact pure trivial
  | cons a rest ih => exact bind (action h hcallback a) fun left hleft => ih hleft

end Tracks

end FiberLoop
