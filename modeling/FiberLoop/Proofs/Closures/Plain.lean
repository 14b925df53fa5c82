import FiberLoop.Proofs.Closures.Nodes

/-!
# Plain programs

A plain program neither waits nor opens a region, and all that it recovers from is an expected failure. It may fail,
throw, loop and call definitions, as long as these are plain too. So nothing that it does keeps an interrupt from
ending it, apart from steps that do not look for one.

The main results of this module are `Program.isPlain_build`, `Continuation.isPlain_apply`, `Recovery.isPlain_apply`
and `Thunk.isPlain_run`: whatever is built or said by a closure of a plain effect is plain.
-/

namespace FiberLoop

/-- A program that neither waits nor opens a region and recovers from expected failures only; the definitions that it
calls are on the list. -/
def Program.isPlain (calls : List Name) : Program → Bool
  | .succeed _ | .fail _ | .abort _ | .abortFixed | .abortSealed _ | .interrupted | .caused _ | .completed _ => true
  | .sync _ | .trySync .. | .unitValue | .log _ | .settleKept .. | .cell _ => true
  | .budget | .onLoop | .dispatch _ => true
  | .suspend body => body.isPlain calls
  | .map source _ _ | .mapRepeat _ source _ _ | .mapError source _ _ | .asValue source _ | .unit source =>
    source.isPlain calls
  | .chain source _ next | .chainRepeat _ source _ next => source.isPlain calls && next.isPlain calls
  | .chainError source _ handler | .chainErrorRepeat _ source _ handler =>
    source.isPlain calls && handler.isPlain calls
  | .zip left right | .zipWith left right _ _ _ | .ap left right _ _ _ | .applyFirst left right
  | .applySecond left right | .cond _ left right => left.isPlain calls && right.isPlain calls
  | .call definition _ => calls.contains definition
  | _ => false

/-- The definitions on the list are plain. -/
def areClosed (calls : List Name) (definitions : List (Name × Definition)) : Bool :=
  calls.all fun name => (definitions.lookup name).all fun d => d.body.isPlain calls

/-- The closure of a suspended step of a plain effect. -/
def Thunk.isPlain (calls : List Name) : Thunk → Bool
  | .build body _ => body.isPlain calls
  | .continue .. => false
  | _ => true

mutual

/-- A description of a plain program. -/
def Effect.isPlain (calls : List Name) : Effect → Bool
  | .succeeded _ | .caused _ | .complete _ | .currentLoop => true
  | .suspend thunk => thunk.isPlain calls
  | .chain source next => source.isPlain calls && next.isPlain calls
  | .fold source onValue onCause => source.isPlain calls && (onValue.isPlain calls && onCause.isPlain calls)
  | .async _ | .region .. => false

/-- A continuation that goes on with plain effects. -/
def Continuation.isPlain (calls : List Name) : Continuation → Bool
  | .transform _ | .combineLeft .. => true
  | .build _ body _ => body.isPlain calls
  | .proceed next => next.isPlain calls
  | .combineWith right _ => right.isPlain calls
  | _ => false

/-- A recovery that takes up expected failures only. -/
def Recovery.isPlain (calls : List Name) : Recovery → Bool
  | .onFailed handler => handler.isPlain calls
  | .mapFailed _ => true
  | _ => false

end

def Next.isPlain (calls : List Name) : Next → Bool
  | .eval e => e.isPlain calls
  | .value _ | .cause _ => true

def Frame.isPlain (calls : List Name) : Frame → Bool
  | .chain next => next.isPlain calls
  | .fold onValue onCause => onValue.isPlain calls && onCause.isPlain calls
  | .region => false

namespace Effect

variable {calls : List Name} {e left right : Effect}

theorem isPlain_chain {k : Continuation} (he : e.isPlain calls = true) (hk : k.isPlain calls = true) :
    (Effect.chain e k).isPlain calls = true := Bool.and_eq_true_iff.2 ⟨he, hk⟩

theorem isPlain_map (f : Transform) (he : e.isPlain calls = true) : (e.map f).isPlain calls = true :=
  isPlain_chain he rfl

theorem isPlain_onFailed {handler : Continuation} (he : e.isPlain calls = true)
    (hhandler : handler.isPlain calls = true) : (e.onFailed handler).isPlain calls = true :=
  Bool.and_eq_true_iff.2 ⟨he, hhandler⟩

theorem isPlain_mapError (f : Transform) (he : e.isPlain calls = true) : (e.mapError f).isPlain calls = true :=
  Bool.and_eq_true_iff.2 ⟨he, rfl⟩

theorem isPlain_zipWith (f : Combine) (hl : left.isPlain calls = true) (hr : right.isPlain calls = true) :
    (left.zipWith right f).isPlain calls = true := isPlain_chain hl hr

theorem isPlain_repeatWrap {wrap : Effect → Effect} (n : Nat) (he : e.isPlain calls = true)
    (hwrap : ∀ e : Effect, e.isPlain calls = true → (wrap e).isPlain calls = true) :
    (repeatWrap wrap n e).isPlain calls = true := by
  induction n generalizing e with
  | zero => exact he
  | succ n ih => exact ih (hwrap e he)

end Effect

/-! ## Building -/

/-- The judgement of what is computed in a world with the given definitions. -/
def Given (definitions : List (Name × Definition)) : Judgement := fun _ act Q =>
  ∀ w, w.session.definitions = definitions → (act.run w).2.session.definitions = definitions ∧
    ∀ a, (act.run w).1 = .ok a → Q a

theorem Given.bind {definitions : List (Name × Definition)} {α β : Type} {act : Act α} {k : α → Act β} {Q : α → Prop}
    {P : β → Prop} (h : Given definitions α act Q) (hk : ∀ a, Q a → Given definitions β (k a) P) :
    Given definitions β (act >>= k) P := by
  intro w hw
  obtain ⟨hdefinitions, hresult⟩ := h w hw
  rw [Act.run_bind]
  cases hrun : act.run w with
  | mk result v =>
    rw [hrun] at hdefinitions hresult
    cases result with
    | ok a => exact hk a (hresult a rfl) v hdefinitions
    | error d => exact ⟨hdefinitions, nofun⟩

instance (definitions : List (Name × Definition)) : Observes .everything (Given definitions) where
  pure h _ hw := ⟨hw, fun _ ha => Except.ok.inj ha ▸ h⟩
  throw _ _ hw := ⟨hw, nofun⟩
  bind := Given.bind
  read _ h w hw := h w w.confined_everything w hw
  freshSerial _ hw := ⟨hw, fun _ _ => trivial⟩

namespace Given

export Observes (pure throwText freshSerial eval asBool asInt asText asCause asExit asCell)

variable {calls : List Name} {definitions : List (Name × Definition)} {env : Env} {p : Program}

theorem cellRequest (request : CellRequest) :
    Given definitions Effect (request.build env) fun e => e.isPlain calls = true := by
  have henv : env.In .everything := fun _ _ => trivial
  cases request with
  | make initial => exact bind (eval henv initial) fun _ _ => pure rfl
  | get cell => exact bind (eval henv cell) fun v _ => bind (asCell v) fun _ _ => pure rfl
  | set cell value =>
    exact bind (eval henv cell) fun v _ => bind (asCell v) fun _ _ => bind (eval henv value) fun _ _ => pure rfl
  | update cell name value => exact bind (eval henv cell) fun v _ => bind (asCell v) fun _ _ => pure rfl
  | updateAndGet cell name value => exact bind (eval henv cell) fun v _ => bind (asCell v) fun _ _ => pure rfl
  | modify cell name value result => exact bind (eval henv cell) fun v _ => bind (asCell v) fun _ _ => pure rfl

/-- A plain program builds something plain if the calls inside do. -/
theorem buildWith {call : Name → Value → Act Effect}
    (hcall : ∀ name ∈ calls, ∀ v, Given definitions Effect (call name v) fun e => e.isPlain calls = true)
    (hp : p.isPlain calls = true) :
    Given definitions Effect (p.buildWith call env) fun e => e.isPlain calls = true := by
  have henv : env.In .everything := fun _ _ => trivial
  induction p with
  | succeed value | fail value => exact bind (eval henv value) fun _ _ => pure rfl
  | abort message => exact bind (eval henv message) fun v _ => bind (asText v) fun _ _ => pure rfl
  | abortFixed | interrupted | unitValue | budget | onLoop => exact pure rfl
  | abortSealed number =>
    exact bind (eval henv number) fun v _ => bind (asInt v) fun _ _ => bind freshSerial fun _ _ => pure rfl
  | caused cause => exact bind (eval henv cause) fun v hv => bind (asCause hv) fun _ _ => pure rfl
  | completed exit => exact bind (eval henv exit) fun v hv => bind (asExit hv) fun _ _ => pure rfl
  | sync _ | trySync _ _ | log _ | settleKept _ _ _ | dispatch _ => exact pure rfl
  | suspend body _ => exact pure hp
  | cell request => exact cellRequest request
  | map source name value ih => exact bind (ih hp) fun _ he => pure (Effect.isPlain_map _ he)
  | mapError source name value ih => exact bind (ih hp) fun _ he => pure (Effect.isPlain_mapError _ he)
  | asValue source value ih =>
    exact bind (ih hp) fun _ he => bind (eval henv value) fun _ _ => pure (Effect.isPlain_map _ he)
  | unit source ih => exact bind (ih hp) fun _ he => pure (Effect.isPlain_map _ (Effect.isPlain_map _ he))
  | mapRepeat count source name value ih =>
    exact bind (ih hp) fun _ he => pure (Effect.isPlain_repeatWrap count he fun _ => Effect.isPlain_map _)
  | chain source name next ih _ =>
    obtain ⟨hs, hnext⟩ := Bool.and_eq_true_iff.1 hp
    exact bind (ih hs) fun _ he => pure (Effect.isPlain_chain he hnext)
  | chainRepeat count source name next ih _ =>
    obtain ⟨hs, hnext⟩ := Bool.and_eq_true_iff.1 hp
    exact bind (ih hs) fun _ he =>
      pure (Effect.isPlain_repeatWrap count he fun _ he => Effect.isPlain_chain he hnext)
  | chainError source name handler ih _ =>
    obtain ⟨hs, hhandler⟩ := Bool.and_eq_true_iff.1 hp
    exact bind (ih hs) fun _ he => pure (Effect.isPlain_onFailed he hhandler)
  | chainErrorRepeat count source name handler ih _ =>
    obtain ⟨hs, hhandler⟩ := Bool.and_eq_true_iff.1 hp
    exact bind (ih hs) fun _ he =>
      pure (Effect.isPlain_repeatWrap count he fun _ he => Effect.isPlain_onFailed he hhandler)
  | zip left right ihl ihr =>
    obtain ⟨hl, hr⟩ := Bool.and_eq_true_iff.1 hp
    exact bind (ihl hl) fun _ hl => bind (ihr hr) fun _ hr =>
      pure (Effect.isPlain_map _ (Effect.isPlain_zipWith _ hl hr))
  | zipWith left right leftName rightName value ihl ihr =>
    obtain ⟨hl, hr⟩ := Bool.and_eq_true_iff.1 hp
    exact bind (ihl hl) fun _ hl => bind (ihr hr) fun _ hr => pure (Effect.isPlain_zipWith _ hl hr)
  | applyFirst left right ihl ihr =>
    obtain ⟨hl, hr⟩ := Bool.and_eq_true_iff.1 hp
    exact bind (ihl hl) fun _ hl => bind (ihr hr) fun _ hr => pure (Effect.isPlain_zipWith _ hl hr)
  | applySecond left right ihl ihr =>
    obtain ⟨hl, hr⟩ := Bool.and_eq_true_iff.1 hp
    exact bind (ihl hl) fun _ hl => bind (ihr hr) fun _ hr => pure (Effect.isPlain_chain hl hr)
  | ap argument function argumentName functionName value iha ihf =>
    obtain ⟨ha, hf⟩ := Bool.and_eq_true_iff.1 hp
    exact bind (iha ha) fun _ ha => bind (ihf hf) fun _ hf =>
      pure (Effect.isPlain_zipWith _ ha (Effect.isPlain_map _ hf))
  | cond condition yes no ihy ihn =>
    obtain ⟨hy, hn⟩ := Bool.and_eq_true_iff.1 hp
    refine bind (eval henv condition) fun v _ => bind (asBool v) fun b _ => ?_
    split
    · exact ihy hy
    · exact ihn hn
  | call definition argument =>
    exact bind (eval henv argument) fun v _ => hcall definition (List.contains_iff_mem.1 hp) v
  | _ => exact nomatch hp

/-- A call of a definition on the list builds something plain. -/
theorem buildCall (hclosed : areClosed calls definitions = true) (depth : Nat) {name : Name} (hname : name ∈ calls)
    (argument : Value) :
    Given definitions Effect (Program.buildCall depth name argument) fun e => e.isPlain calls = true := by
  induction depth generalizing name argument with
  | zero => exact throwText _
  | succ depth ih =>
    have hbody := List.all_eq_true.1 hclosed name hname
    -- the definitions are read from the world, so the judgement of what is read does not say enough
    rintro w rfl
    rw [Program.buildCall, Act.run_bind, Act.run_get]
    dsimp only
    cases hd : w.session.definitions.lookup name with
    | none => exact throwText (J := Given w.session.definitions) _ w rfl
    | some d =>
      rw [hd] at hbody
      exact buildWith (fun _ hname v => ih hname v) hbody w rfl

end Given

/-- **A plain program builds a plain description.** -/
theorem Program.isPlain_build {calls : List Name} {p : Program} {env : Env} {w : World} {e : Effect}
    (hp : p.isPlain calls = true) (hclosed : areClosed calls w.session.definitions = true)
    (he : ((p.build env).run w).1 = .ok e) : e.isPlain calls = true :=
  (Given.buildWith (fun _ hname v => Given.buildCall hclosed _ hname v) hp w rfl).2 e he

/-! ## Closures -/

/-- All that a closure can say in a world is plain. -/
def Act.SaysPlain (calls : List Name) (w : World) (act : Act Next) : Prop :=
  ∀ next, (act.run w).1 = .ok next → next.isPlain calls = true

namespace Act.SaysPlain

variable {calls : List Name} {w : World}

theorem pure {next : Next} (h : next.isPlain calls = true) : SaysPlain calls w (return next) :=
  fun _ hnext => Except.ok.inj hnext ▸ h

theorem bind {α : Type} {act : Act α} {k : α → Act Next}
    (h : ∀ a v, act.run w = (.ok a, v) → SaysPlain calls v (k a)) : SaysPlain calls w (act >>= k) := by
  intro next hnext
  rw [Act.run_bind] at hnext
  cases hrun : act.run w with
  | mk result v =>
    rw [hrun] at hnext
    cases result with
    | ok a => exact h a v hrun next hnext
    | error d => cases hnext

/-- What is said depends on a result. -/
theorem of_result {α : Type} {act : Act α} {k : α → Next}
    (h : ∀ a, (act.run w).1 = .ok a → (k a).isPlain calls = true) : SaysPlain calls w (do return k (← act)) :=
  bind fun a _ hrun => pure (h a (congrArg Prod.fst hrun))

/-- A throw is plain too. -/
theorem ofExcept {act : Act Next} (h : SaysPlain calls w act) :
    (Next.ofExcept (act.caught w).1).isPlain calls = true := by
  rw [Act.caught_fst]
  cases hresult : (act.run w).1 with
  | ok next => exact h next hresult
  | error d => rfl

theorem build {p : Program} {env : Env} (hp : p.isPlain calls = true)
    (hclosed : areClosed calls w.session.definitions = true) : SaysPlain calls w (do return .eval (← p.build env)) :=
  of_result fun _ he => Program.isPlain_build hp hclosed he

theorem continuation {k : Continuation} (hk : k.isPlain calls = true)
    (hclosed : areClosed calls w.session.definitions = true) (v : Value) : SaysPlain calls w (k.apply v) := by
  cases k with
  | transform f => exact of_result fun _ _ => rfl
  | build name body env => exact build hk hclosed
  | proceed next => exact pure hk
  | combineWith right f => exact pure (Effect.isPlain_chain hk rfl)
  | combineLeft left f => exact of_result fun _ _ => rfl
  | _ => exact nomatch hk

theorem recovery {r : Recovery} (hr : r.isPlain calls = true)
    (hclosed : areClosed calls w.session.definitions = true) (c : Cause Value) : SaysPlain calls w (r.apply c) := by
  cases r with
  | onFailed handler =>
    cases c with
    | failed e => exact continuation hr hclosed e
    | aborted d => exact pure rfl
    | interrupted => exact pure rfl
  | mapFailed f =>
    cases c with
    | failed e => exact of_result fun _ _ => rfl
    | aborted d => exact pure rfl
    | interrupted => exact pure rfl
  | _ => exact nomatch hr

theorem thunk {t : Thunk} (ht : t.isPlain calls = true) (hclosed : areClosed calls w.session.definitions = true) :
    SaysPlain calls w t.run := by
  cases t with
  | eval value env => exact of_result fun _ _ => rfl
  | tryEval condition value env =>
    refine bind fun _ _ _ => bind fun succeeds _ _ => of_result fun _ _ => ?_
    cases succeeds <;> rfl
  | build body env => exact build ht hclosed
  | resume x =>
    refine pure ?_
    cases x <;> rfl
  | yield value => exact pure rfl
  | perform operation => exact of_result fun _ _ => rfl
  | «continue» next value => exact nomatch ht

end Act.SaysPlain

end FiberLoop
