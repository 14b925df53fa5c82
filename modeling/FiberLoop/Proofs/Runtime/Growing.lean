import FiberLoop.Proofs.Runtime.Coverage

/-!
# Scopes that grow

A world that is confined to a scope is confined to every larger scope, as long as what is new there holds nothing: a
fiber that is hidden no more runs, and a deferred that is hidden no more has no waiters.
-/

namespace FiberLoop

/-- One scope knows more than another one. -/
structure Scope.Grows (V V' : Scope) : Prop where
  mentions : ∀ d, V.mentions d → V'.mentions d
  queue : ∀ q, V'.queue q → V.queue q
  joint : ∀ j, V'.joint j → V.joint j
  callback : ∀ callback, V.callback callback → V'.callback callback
  waiter : ∀ callback, V.waiter callback → V'.waiter callback
  lines : V.lines → V'.lines

section Grows

variable {V V' : Scope} (h : V.Grows V')

include h

theorem Listener.In.mono {l : Listener} (hl : l.In V) : l.In V' := by
  cases l with
  | resume callback => exact h.callback callback hl
  | actions body env => exact fun d hd => h.mentions d (hl d hd)
  | report name | note tag => exact trivial

theorem ExitNotice.In.mono {n : ExitNotice} (hn : n.In V) : n.In V' := by
  cases n with
  | pending listeners key => exact fun l hl => (hn l hl).mono h
  | done x => exact fun d hd => h.mentions d (hn d hd)

/-- A task may hold the run of a fiber that is still hidden. -/
theorem Task.In.mono {t : Task} (ht : t.In V) (hfiber : ∀ f, t.fiber? = some f → V'.fiber f → V.fiber f) : t.In V' := by
  cases t with
  | start f => exact trivial
  | resume f run next =>
    intro hf
    obtain ⟨hrun, hnext⟩ := ht (hfiber f rfl hf)
    exact ⟨fun d hd => h.mentions d (hrun d hd), fun d hd => h.mentions d (hnext d hd)⟩
  | unwind f canceler run =>
    intro hf
    obtain ⟨hrun, hcanceler⟩ := ht (hfiber f rfl hf)
    exact ⟨fun d hd => h.mentions d (hrun d hd), fun d hd => h.mentions d (hcanceler d hd)⟩
  | succeed callback v => exact ⟨h.callback callback ht.1, fun d hd => h.mentions d (ht.2 d hd)⟩
  | actions body env => exact fun d hd => h.mentions d (ht d hd)

theorem Deferred.In.mono {row : Deferred} (hrow : row.In V) : row.In V' := by
  cases row with
  | pending waiters key => exact fun waiter hw => h.waiter _ (hrow waiter hw)
  | done x => exact fun d hd => h.mentions d (hrow d hd)

theorem QueueState.In.mono {used used' : Prop} {state : QueueState} (hstate : state.In V used) (hused : used' → used) :
    state.In V' used' := by
  cases state with
  | waiting latches => exact fun hq l hl => h.mentions _ (hstate (hused hq) l hl)
  | ready items => exact fun v hv d hd => h.mentions d (hstate v hv d hd)

theorem Pairing.In.mono {row : Pairing} (hrow : row.In V) : row.In V' :=
  ⟨fun cb hcb => h.callback cb (hrow.callback cb hcb), fun v hv d hd => h.mentions d (hrow.left v hv d hd),
    fun v hv d hd => h.mentions d (hrow.right v hv d hd), fun d hd => h.mentions d (hrow.combine d hd)⟩

theorem Session.In.mono {s : Session} (hs : s.In V) : s.In V' :=
  ⟨fun e he d hd => h.mentions d (hs.globals e he d hd), fun e he => h.callback _ (hs.kept e he),
    fun e he => ⟨fun d hd => h.mentions d ((hs.cancelers e he).1 d hd),
      fun hwaiter => h.lines ((hs.cancelers e he).2 hwaiter)⟩⟩

end Grows

namespace World

/-- A fiber that runs, held by the activity of the moment. -/
structure Bare (f : FiberId) (w : World) : Prop where
  running : ∀ r, w.fiber? f = some r → r.phase = .running
  tokens : w.tokens f = []

section Confined

variable {V V' : Scope} {w w' : World}

theorem Confined.loops_mono (h : V.Grows V') (hquiet : w.TimersQuiet) (hloop : w.loop.In V) (haside : w.aside.In V)
    (hfiber : ∀ f, V'.fiber f → V.fiber f ∨ w.Bare f) : w.loop.In V' ∧ w.aside.In V' := by
  have herrand (t : Task) (ht : t.In V) (herrand : t.isErrand = true) : t.In V' :=
    ht.mono h fun f hf => by
      rw [Task.fiber?_of_isErrand herrand] at hf
      cases hf
  have hmessage (l : EventLoop) (hl : l.TimersQuiet) (htokens : ∀ f, w.Bare f → l.tokens f = []) (m : Message)
      (hm : m ∈ l.inbox) (hin : m.In V) : m.In V' := by
    cases m with
    | shutdown => exact trivial
    | timer deadline timer t => exact herrand t hin (hl.inbox deadline timer t hm)
    | task t =>
      refine Task.In.mono h hin fun f hf hvisible => (hfiber f hvisible).resolve_right fun hbare => ?_
      have htoken : t ∈ l.tokens f := List.mem_filterMap.2 ⟨_, hm, token?_task_self hf⟩
      rw [htokens f hbare] at htoken
      cases htoken
  have hnone (f : FiberId) (hbare : w.Bare f) := List.append_eq_nil_iff.1 hbare.tokens
  exact ⟨⟨fun m hm => hmessage _ hquiet.loop (fun f hf => (hnone f hf).1) m hm (hloop.inbox m hm),
      fun t ht => herrand _ (hloop.timers t ht) (hquiet.loop.timers t ht)⟩,
    ⟨fun m hm => hmessage _ hquiet.aside (fun f hf => (hnone f hf).2) m hm (haside.inbox m hm),
      fun t ht => herrand _ (haside.timers t ht) (hquiet.aside.timers t ht)⟩⟩

/-- A world that is confined to a scope is confined to a larger one. A fiber that is hidden no more runs, and a
deferred that is new to the scope has no waiters. -/
theorem Confined.mono (hw : w.Confined V) (h : V.Grows V') (hquiet : w.TimersQuiet)
    (hfiber : ∀ f, V'.fiber f → V.fiber f ∨ w.Bare f)
    (hfresh : ∀ d row, w.deferred? d = some row → V'.mentions (.wait d) → V.mentions (.wait d) ∨ row = .fresh)
    (hhidden : ∀ f, ¬ V'.fiber f → (w.fiber? f).isSome = true)
    (hstale : V'.shields → ∀ callback r, V'.callback callback → ¬ V'.fiber callback.fiber →
      w.fiber? callback.fiber = some r → callback.epoch < r.epoch)
    (hgates : ∀ q, V'.mentions (.queue q) → V.mentions (.queue q) ∨ V'.mentions (.through q (w.stores.gate? q))) :
    w.Confined V' where
  loop := (loops_mono h hquiet hw.loop hw.aside hfiber).1
  aside := (loops_mono h hquiet hw.loop hw.aside hfiber).2
  fibers f r hr hf := by
    rcases hfiber f hf with hvisible | hbare
    · exact fun d hd => h.mentions d (hw.fibers f r hr hvisible d hd)
    · rw [hbare.running r hr]
      exact Scope.nothing
  notices f notice hn := (hw.notices f notice hn).mono h
  hidden := hhidden
  stale := hstale
  stores := {
    cells := fun i v hv d hd => h.mentions d (hw.stores.cells i v hv d hd)
    deferreds := fun i row hrow hd => by
      rcases hfresh ⟨i⟩ row hrow hd with hknown | rfl
      · exact (hw.stores.deferreds i row hrow hknown).mono h
      · exact List.forall_mem_nil _
    queues := fun i row hrow => (hw.stores.queues i row hrow).mono h (h.queue ⟨i⟩)
    races := fun i row hrow hj cb hcb => h.callback cb (hw.stores.races i row hrow (h.joint _ hj) cb hcb)
    pairings := fun i row hrow hj => (hw.stores.pairings i row hrow (h.joint _ hj)).mono h
    gates := fun q hq => (hgates q hq).elim (fun hknown => h.mentions _ (hw.stores.gates q hknown)) id }
  session := hw.session.mono h

end Confined

end World

end FiberLoop
