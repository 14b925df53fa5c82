import FiberLoop.Proofs.Closures.Mentions
import FiberLoop.Scenario

/-!
# Scopes

A scope says what a computation may mention, which queues it may use, which races and pairings it may end, which
callbacks it may hold, and which fibers it may hold the run of. It also says whose callbacks may wait in the lines of
the deferreds, whether a computation may change these lines by more than a completion, whether it may start races
and pairings, and whether the fibers whose runs are hidden are shielded: nobody then holds a callback of theirs that is
not over.

A world is `Confined` to a scope if everything that is kept in it is inside: the rows of the stores, the session,
the listeners, the waiting tasks and the fibers.

What is outside a scope is hidden from the computations inside: they never get hold of a deferred, a callback or
the run of a fiber that the scope does not have.
-/

namespace FiberLoop

/-- A race or a pairing: two fibers side by side, and the callback that waits for them. -/
inductive Joint where
  | race (race : RaceId)
  | pairing (pairing : PairingId)
deriving DecidableEq

/-- The race or the pairing of which a fiber with that hook is a side. -/
def ExitHook.joint? : ExitHook → Option Joint
  | .race r _ => some (.race r)
  | .parZip p _ => some (.pairing p)
  | .report .. | .publish | .deliver _ => none

/-- What a computation may know. -/
structure Scope where
  mentions : Mention → Prop
  /-- The queues that a computation may use. -/
  queue : QueueId → Prop
  /-- The races and pairings that a computation may end. -/
  joint : Joint → Prop
  callback : Callback → Prop
  fiber : FiberId → Prop
  /-- The callbacks that may wait in the line of a deferred. -/
  waiter : Callback → Prop
  /-- Whether a computation may join the line of a deferred or leave it. -/
  lines : Prop
  /-- Whether a computation may start a race or a pairing. -/
  starts : Prop
  /-- Whether the callbacks of a hidden fiber are hidden too. -/
  shields : Prop
  /-- Who waits is known, or the run of the fiber is. -/
  known : ∀ cb, waiter cb → callback cb ∨ fiber cb.fiber
  joins : lines → ∀ cb, callback cb → waiter cb
  /-- Whoever may complete a deferred may wait for it. -/
  waits : ∀ d, mentions (.deferred d) → mentions (.wait d)
  /-- Whoever may use a queue that has no gate may use it with any semaphore as its gate. -/
  gates : ∀ q s, mentions (.through q none) → mentions (.semaphore s) → mentions (.through q (some s))

/-- The scope in which nothing is hidden. -/
def Scope.everything : Scope where
  mentions _ := True
  queue _ := True
  joint _ := True
  callback _ := True
  fiber _ := True
  waiter _ := True
  lines := True
  starts := True
  shields := True
  known _ _ := Or.inl trivial
  joins _ _ _ := trivial
  waits _ _ := trivial
  gates _ _ _ _ := trivial

section In

variable (V : Scope)

abbrev Value.In (v : Value) : Prop := ∀ d ∈ v.mentions, V.mentions d
abbrev Value.ExitIn (x : Exit Value Value) : Prop := ∀ d ∈ Value.mentionsExit x, V.mentions d
abbrev Value.CauseIn (c : Cause Value) : Prop := ∀ d ∈ Value.mentionsCause c, V.mentions d
abbrev Env.In (env : Env) : Prop := ∀ d ∈ env.mentions, V.mentions d
abbrev Effect.In (e : Effect) : Prop := ∀ d ∈ e.mentions, V.mentions d
abbrev Thunk.In (t : Thunk) : Prop := ∀ d ∈ t.mentions, V.mentions d
abbrev Operation.In (o : Operation) : Prop := ∀ d ∈ o.mentions, V.mentions d
abbrev Continuation.In (k : Continuation) : Prop := ∀ d ∈ k.mentions, V.mentions d
abbrev Recovery.In (r : Recovery) : Prop := ∀ d ∈ r.mentions, V.mentions d
abbrev Transform.In (f : Transform) : Prop := ∀ d ∈ f.mentions, V.mentions d
abbrev Combine.In (f : Combine) : Prop := ∀ d ∈ f.mentions, V.mentions d
abbrev Release.In (r : Release) : Prop := ∀ d ∈ r.mentions, V.mentions d
abbrev Registration.In (r : Registration) : Prop := ∀ d ∈ r.mentions, V.mentions d

/-! ## Runs -/

@[simp] def Next.mentions : Next → List Mention
  | .eval e => e.mentions
  | .value v => v.mentions
  | .cause c => Value.mentionsCause c

@[simp] def Frame.mentions : Frame → List Mention
  | .chain next => next.mentions
  | .fold onValue onCause => onValue.mentions ++ onCause.mentions
  | .region => []

def Run.mentions (run : Run) : List Mention := run.frames.flatMap Frame.mentions

@[simp] def Canceler.mentions : Canceler → List Mention
  | .actions _ env => env.mentions
  | .waiter d _ => [.wait d]
  | .none | .timer _ | .listener .. | .interrupt _ => []

/-- Whether a canceler gives up a place in the line of a deferred. -/
def Canceler.isWaiter : Canceler → Bool
  | .waiter .. => true
  | _ => false

/-- Whether a registration waits for a deferred. -/
def Registration.isWait : Registration → Bool
  | .deferred _ => true
  | _ => false

/-- Whether a registration starts a race or a pairing. -/
def Registration.isJoint : Registration → Bool
  | .race .. | .parZip .. => true
  | _ => false

abbrev Next.In (next : Next) : Prop := ∀ d ∈ next.mentions, V.mentions d
abbrev Run.In (run : Run) : Prop := ∀ d ∈ run.mentions, V.mentions d
abbrev Canceler.In (c : Canceler) : Prop := ∀ d ∈ c.mentions, V.mentions d

@[simp] def Phase.mentions : Phase → List Mention
  | .created root => root.mentions
  | .registering (some x) => Value.mentionsExit x
  | .suspended run canceler => run.mentions ++ canceler.mentions
  | .running | .registering none | .done => []

abbrev Phase.In (p : Phase) : Prop := ∀ d ∈ p.mentions, V.mentions d

/-! ## What waits -/

def Listener.In : Listener → Prop
  | .resume callback => V.callback callback
  | .actions _ env => env.In V
  | .report _ | .note _ => True

def ExitNotice.In : ExitNotice → Prop
  | .pending listeners _ => ∀ l ∈ listeners, l.2.In V
  | .done x => Value.ExitIn V x

/-- A task may hold the run of a fiber that is hidden, but nothing else. -/
def Task.In : Task → Prop
  | .start _ => True
  | .resume f run next => V.fiber f → run.In V ∧ next.In V
  | .unwind f canceler run => V.fiber f → run.In V ∧ canceler.In V
  | .succeed callback v => V.callback callback ∧ v.In V
  | .actions _ env => env.In V

def Message.In : Message → Prop
  | .task t | .timer _ _ t => t.In V
  | .shutdown => True

structure EventLoop.In (l : EventLoop) : Prop where
  inbox : ∀ m ∈ l.inbox, m.In V
  timers : ∀ t ∈ l.timers, t.task.In V

/-! ## Stores -/

def Deferred.In : Deferred → Prop
  | .pending waiters _ => ∀ w ∈ waiters, V.waiter w.2
  | .done x => Value.ExitIn V x

/-- A queue that may be used holds the latches of those who wait, and whoever offers completes them. -/
def QueueState.In (used : Prop) : QueueState → Prop
  | .waiting latches => used → ∀ l ∈ latches, V.mentions (.deferred l)
  | .ready items => ∀ v ∈ items, v.In V

/-- The gate of a queue, if it is there and has one. -/
def Stores.gate? (q : QueueId) (s : Stores) : Option SemaphoreId := (s.queues.get? q.index).bind Queue.gate

def Race.In (r : Race) : Prop := ∀ callback, r.callback = some callback → V.callback callback

structure Pairing.In (p : Pairing) : Prop where
  callback : ∀ callback, p.callback = some callback → V.callback callback
  left : ∀ v, p.left = some v → v.In V
  right : ∀ v, p.right = some v → v.In V
  combine : p.combine.In V

structure Stores.In (s : Stores) : Prop where
  cells : ∀ i v, s.cells.get? i = some v → v.In V
  deferreds : ∀ i row, s.deferreds.get? i = some row → V.mentions (.wait ⟨i⟩) → row.In V
  queues : ∀ i row, s.queues.get? i = some row → row.state.In V (V.queue ⟨i⟩)
  races : ∀ i row, s.races.get? i = some row → V.joint (.race ⟨i⟩) → row.In V
  pairings : ∀ i row, s.pairings.get? i = some row → V.joint (.pairing ⟨i⟩) → row.In V
  /-- Whoever has a queue may use it through its gate. -/
  gates : ∀ q, V.mentions (.queue q) → V.mentions (.through q (s.gate? q))

structure Session.In (s : Session) : Prop where
  globals : ∀ e ∈ s.globals, e.2.In V
  kept : ∀ e ∈ s.kept, V.callback e.2
  cancelers : ∀ e ∈ s.cancelers, e.2.In V ∧ (e.2.isWaiter = true → V.lines)

end In

/-- Everything that is kept in the world is inside the scope. -/
structure World.Confined (V : Scope) (w : World) : Prop where
  loop : w.loop.In V
  aside : w.aside.In V
  fibers : ∀ f r, w.fiber? f = some r → V.fiber f → r.phase.In V
  notices : ∀ f notice, w.notice? f = some notice → notice.In V
  hidden : ∀ f, ¬ V.fiber f → (w.fiber? f).isSome = true
  /-- A callback of a shielded fiber that is known belongs to a registration that is over. -/
  stale : V.shields → ∀ callback r, V.callback callback → ¬ V.fiber callback.fiber →
    w.fiber? callback.fiber = some r → callback.epoch < r.epoch
  stores : w.stores.In V
  session : w.session.In V

section Everything

theorem Listener.in_everything (l : Listener) : l.In .everything := by
  cases l with
  | actions body env => exact fun _ _ => trivial
  | _ => exact trivial

theorem ExitNotice.in_everything (n : ExitNotice) : n.In .everything := by
  cases n with
  | pending listeners key => exact fun l _ => l.2.in_everything
  | done x => exact fun _ _ => trivial

theorem Task.in_everything (t : Task) : t.In .everything := by
  cases t with
  | start f => exact trivial
  | resume f run next => exact fun _ => ⟨fun _ _ => trivial, fun _ _ => trivial⟩
  | unwind f canceler run => exact fun _ => ⟨fun _ _ => trivial, fun _ _ => trivial⟩
  | succeed callback v => exact ⟨trivial, fun _ _ => trivial⟩
  | actions body env => exact fun _ _ => trivial

theorem Message.in_everything (m : Message) : m.In .everything := by
  cases m with
  | shutdown => exact trivial
  | task t => exact t.in_everything
  | timer deadline timer t => exact t.in_everything

theorem EventLoop.in_everything (l : EventLoop) : l.In .everything :=
  ⟨fun m _ => m.in_everything, fun t _ => t.task.in_everything⟩

theorem Deferred.in_everything (d : Deferred) : d.In .everything := by
  cases d <;> exact fun _ _ => trivial

/-- A scope that mentions everything has every state of a queue. -/
theorem QueueState.in_of_all {V : Scope} (h : ∀ d, V.mentions d) (s : QueueState) (used : Prop) : s.In V used := by
  cases s with
  | waiting latches => exact fun _ _ _ => h _
  | ready items => exact fun _ _ _ _ => h _

theorem Stores.in_everything (s : Stores) : s.In .everything where
  cells _ _ _ _ _ := trivial
  deferreds _ row _ _ := row.in_everything
  queues _ row _ := row.state.in_of_all (fun _ => trivial) True
  races _ _ _ _ _ _ := trivial
  pairings _ _ _ _ := ⟨fun _ _ => trivial, fun _ _ _ _ => trivial, fun _ _ _ _ => trivial, fun _ _ => trivial⟩
  gates _ _ := trivial

/-- Every world is confined to the scope in which nothing is hidden. -/
theorem World.confined_everything (w : World) : w.Confined .everything where
  loop := w.loop.in_everything
  aside := w.aside.in_everything
  fibers _ _ _ _ _ _ := trivial
  notices _ n _ := n.in_everything
  hidden _ h := absurd trivial h
  stale _ _ _ _ h := absurd trivial h
  stores := w.stores.in_everything
  session := ⟨fun _ _ _ _ => trivial, fun _ _ => trivial, fun _ _ => ⟨fun _ _ => trivial, fun _ => trivial⟩⟩

end Everything

/-- What is found under a key is in the list. -/
theorem mem_of_lookup {α : Type} {entries : List (Name × α)} {name : Name} {a : α}
    (h : entries.lookup name = some a) : (name, a) ∈ entries := by
  obtain ⟨before, after, rfl, _⟩ := List.lookup_eq_some_iff.1 h
  simp

theorem Pairing.In.store {V : Scope} {row : Pairing} (h : row.In V) (side : Side) {v : Value} (hv : v.In V) :
    (row.store side v).In V := by
  cases side with
  | left => exact ⟨h.callback, fun _ hstored => Option.some.inj hstored ▸ hv, h.right, h.combine⟩
  | right => exact ⟨h.callback, h.left, fun _ hstored => Option.some.inj hstored ▸ hv, h.combine⟩

theorem Pairing.In.value? {V : Scope} {row : Pairing} (h : row.In V) {side : Side} {v : Value}
    (hv : row.value? side = some v) : v.In V := by
  cases side with
  | left => exact h.left v hv
  | right => exact h.right v hv

/-- The exit of a deferred in scope is in scope. -/
theorem World.Confined.poll {V : Scope} {w : World} (hw : w.Confined V) {d : DeferredId}
    (hd : V.mentions (.wait d)) : ∀ x ∈ w.pollDeferred d, Value.ExitIn V x := by
  intro x hx
  obtain ⟨row, hrow, hexit⟩ := Option.bind_eq_some_iff.1 hx
  cases row with
  | pending waiters key => cases hexit
  | done y =>
    cases hexit
    exact hw.stores.deferreds d.index _ hrow hd

theorem Stores.gate?_push (s : Stores) (row : Queue) (q : QueueId) :
    Stores.gate? q { s with queues := s.queues.push row } = if q.index = s.queues.size then row.gate else s.gate? q := by
  unfold Stores.gate?
  rw [Table.get?_push]
  split <;> rfl

/-- A new queue is empty; whoever has it may use it through its gate. -/
theorem Stores.In.pushQueue {V : Scope} {s : Stores} (h : s.In V) (policy : Overflow) {gate : Option SemaphoreId}
    (hgate : V.mentions (.queue ⟨s.queues.size⟩) → V.mentions (.through ⟨s.queues.size⟩ gate)) :
    Stores.In V { s with queues := s.queues.push { policy := policy, gate := gate } } where
  cells := h.cells
  deferreds := h.deferreds
  queues i row hrow := by
    rw [Table.get?_push] at hrow
    split at hrow
    · cases hrow
      exact List.forall_mem_nil _
    · exact h.queues i row hrow
  races := h.races
  pairings := h.pairings
  gates q hq := by
    rw [Stores.gate?_push]
    split
    · rename_i hindex
      obtain rfl : q = ⟨s.queues.size⟩ := congrArg QueueId.mk hindex
      exact hgate hq
    · exact h.gates q hq

/-! ## Parts of a tree -/

section Parts

variable {V : Scope}

/-- A tree that mentions nothing is in every scope. -/
theorem Scope.nothing : ∀ d ∈ ([] : List Mention), V.mentions d := nofun

theorem Scope.noCallback : ∀ cb ∈ (none : Option Callback), V.callback cb := by simp

theorem Value.mem_mentionsAll {d : Mention} {items : List Value} :
    d ∈ Value.mentionsAll items ↔ ∃ v ∈ items, d ∈ v.mentions := by
  induction items with
  | nil => simp
  | cons v rest ih => simp [ih]

theorem Value.in_list {items : List Value} : (Value.list items).In V ↔ ∀ v ∈ items, v.In V := by
  simp only [Value.In, Value.mentions, Value.mem_mentionsAll]
  constructor
  · exact fun h v hv d hd => h d ⟨v, hv, hd⟩
  · rintro h d ⟨v, hv, hd⟩
    exact h v hv d hd

theorem Value.in_pair {a b : Value} (ha : a.In V) (hb : b.In V) : (Value.pair a b).In V :=
  Value.in_list.2 (List.forall_mem_cons.2 ⟨ha, List.forall_mem_singleton.2 hb⟩)

theorem Operation.in_of_offerItem {q : QueueId} {item : Value} (h : (Operation.offerItem q item).In V) : item.In V :=
  (List.forall_mem_cons.1 (List.forall_mem_cons.1 h).2).2

theorem Effect.in_takeItem {q : QueueId} {gate : Option SemaphoreId} :
    (Effect.takeItem q gate).In V ↔ V.mentions (.queue q) ∧ V.mentions (.through q gate) := by
  rw [Effect.In, Effect.mentions_takeItem, List.forall_mem_cons, List.forall_mem_singleton]

theorem Effect.in_offerItem {q : QueueId} {g : SemaphoreId} {item : Value} :
    (Effect.offerItem q (some g) item).In V ↔ V.mentions (.queue q) ∧ V.mentions (.through q (some g)) ∧ item.In V := by
  rw [Effect.In, Effect.mentions_offerItem, List.forall_mem_cons, List.forall_mem_cons]

theorem Value.in_ofOption {v : Option Value} (h : ∀ v' ∈ v, v'.In V) : (Value.ofOption v).In V := by
  cases v with
  | none => exact Scope.nothing
  | some v => exact h v rfl

theorem Value.in_causePayload {c : Cause Value} (h : Value.CauseIn V c) : (Value.causePayload c).In V := by
  cases c with
  | failed e => exact h
  | interrupted => exact Scope.nothing
  | aborted d =>
    simp only [Value.causePayload]
    cases d.message? with
    | none => exact Scope.nothing
    | some message => exact Scope.nothing

/-- A constant mentions nothing. -/
theorem Value.in_ofDatum : ∀ d : Datum, (Value.ofDatum d).In V
  | .null | .bool _ | .int _ | .str _ => by
    rw [Value.ofDatum]
    exact Scope.nothing
  | .list items => by
    rw [Value.ofDatum, Value.in_list]
    intro v hv
    obtain ⟨d, _, rfl⟩ := List.mem_map.1 hv
    exact Value.in_ofDatum d

theorem Env.in_bind {name : Name} {v : Value} {env : Env} : (Env.bind name v env).In V ↔ v.In V ∧ env.In V := by
  simp only [Env.In, Env.mentions, List.forall_mem_append]

theorem Env.in_empty : Env.empty.In V := nofun

/-- What a binding holds is in the scope of its environment. -/
theorem Env.In.lookup {env : Env} (h : env.In V) {name : Name} {v : Value} (hv : env.lookup name = some v) :
    v.In V := by
  induction env using Env.lookup.induct name with
  | case1 => cases hv
  | case2 v' outer =>
    rw [Env.lookup_bind_self] at hv
    cases hv
    exact (Env.in_bind.1 h).1
  | case3 n v' outer hn ih =>
    rw [Env.lookup_bind_of_ne hn] at hv
    exact ih (Env.in_bind.1 h).2 hv

theorem Canceler.in_ofActions {env : Env} (body : Option (List Action)) (h : env.In V) :
    (Canceler.ofActions body env).In V := by
  cases body with
  | none => exact Scope.nothing
  | some list => exact h

theorem Canceler.isWaiter_ofActions (body : Option (List Action)) (env : Env) :
    (Canceler.ofActions body env).isWaiter = false := by
  cases body <;> rfl

theorem Run.in_push {run : Run} {frame : Frame} :
    (run.push frame).In V ↔ (∀ d ∈ frame.mentions, V.mentions d) ∧ run.In V := by
  simp only [Run.In, Run.mentions, Run.push, List.flatMap_cons, List.forall_mem_append]

theorem Run.in_enter {run : Run} {status : Interruptibility} : (run.enter status).In V ↔ run.In V := by
  simp [Run.In, Run.mentions, Run.enter]

end Parts

end FiberLoop
