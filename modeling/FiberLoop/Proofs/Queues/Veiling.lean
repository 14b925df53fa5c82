import FiberLoop.Proofs.Queues.Withholding

/-!
# Fibers behind a veil

While some fibers are veiled, nobody else can ask for an item of a queue, undo a ticket of it, or use its gate. The
scope `Scope.veil` says so: it hides the runs of these fibers, and the right to do such a thing is nobody's. It hides
nothing else, and until the queue is made nobody knows it. The gate may be veiled or left alone; if it is veiled, others
use the queue only through its gate, and the gate only for this queue, and whoever begins to do so has to be veiled.

The main result of this module is `Scene.Veiled.play`: every stroke keeps the veil, as long as the veiled fibers
themselves do no more than ask for tickets, undo them and offer items (`Call.Modest`).
-/

namespace FiberLoop

/-- What may be known while some fibers are veiled. -/
def Scope.veil (q : QueueId) (gate : Option SemaphoreId) (made : Prop) (veiled : FiberId → Prop) : Scope where
  mentions
    | .queue q' => q' = q → made
    | .draw q' | .undo q' => q' ≠ q
    | .semaphore s => some s ≠ gate
    | .through q' gate' => ∀ g ∈ gate, q' = q ↔ gate' = some g
    | _ => True
  queue _ := True
  joint _ := True
  callback _ := True
  fiber f := ¬ veiled f
  waiter _ := True
  lines := True
  starts := True
  shields := False
  known _ _ := Or.inl trivial
  joins _ _ _ := trivial
  waits _ _ := trivial
  gates q' s hbare hs g hg := by
    have hother : q' ≠ q := fun he => nomatch (hbare g hg).1 he
    have hne : s ≠ g := fun he => hs (he ▸ hg.symm)
    exact iff_of_false hother fun he => hne (Option.some.inj he)

/-- A queue that is made has the gate; until then nobody can know the queue, and the gate is not made either. -/
def World.Hangs (q : QueueId) (g : SemaphoreId) (made : Prop) (w : World) : Prop :=
  w.stores.gate? q = some g ∧ g.index < w.stores.semaphores.size ∨
    ¬ made ∧ w.queue? q = none ∧ w.stores.semaphores.size ≤ g.index

section

variable {q : QueueId} {gate : Option SemaphoreId} {made made' : Prop} {veiled veiled' : FiberId → Prop}

theorem Scope.free_veil (q : QueueId) (gate : Option SemaphoreId) (made : Prop) (veiled : FiberId → Prop) :
    (Scope.veil q gate made veiled).Free :=
  ⟨fun _ => trivial, fun _ => trivial, trivial, trivial, trivial⟩

/-- What uses another queue than the veiled one uses another gate. -/
theorem Scope.opens_veil {q' : QueueId} {g' : SemaphoreId}
    (h : (Scope.veil q gate made veiled).mentions (.through q' (some g'))) (hother : q' = q → g' ∈ gate → False) :
    (Scope.veil q gate made veiled).mentions (.semaphore g') ∧ (Scope.veil q gate made veiled).mentions (.through q' none) := by
  refine ⟨fun hg => hother ((h g' hg.symm).2 rfl) hg.symm, fun g hg => iff_of_false (fun he => hother he ?_) nofun⟩
  rwa [Option.some.inj ((h g hg).1 he)]

/-- What may be known does not depend on who is veiled, and grows when the queue is made. -/
theorem Scope.veil_grows (h : made → made') : (Scope.veil q gate made veiled).Grows (.veil q gate made' veiled') := by
  refine ⟨fun d hd => ?_, fun _ => id, fun _ => id, fun _ => id, fun _ => id, id⟩
  cases d with
  | queue q' => exact fun he => h (hd he)
  | _ => exact hd

/-! ## What veiled fibers do -/

/-- A closure that leaves the world alone, asks for a ticket or undoes one, or offers an item. -/
inductive Call.Modest (V : Scope) : Call → Prop where
  | still {c : Call} (h : ∀ w, (c.act.caught w).2 = w) : Modest V c
  | requestItem (q : QueueId) : Modest V (.thunk (.perform (.requestItem q)))
  | putBackItem (q : QueueId) {v : Value} (hv : v.In V) : Modest V (.thunk (.perform (.putBackItem q v)))
  | abandonItem (q : QueueId) (latch : DeferredId) : Modest V (.thunk (.perform (.abandonItem q latch)))
  | offerItem (q : QueueId) {v : Value} (hv : v.In V) : Modest V (.thunk (.perform (.offerItem q v)))
  | requestPermit (s : SemaphoreId) : Modest V (.thunk (.perform (.requestPermit s)))
  | releasePermit (s : SemaphoreId) : Modest V (.thunk (.perform (.releasePermit s)))
  | abandonPermit (s : SemaphoreId) (latch : DeferredId) : Modest V (.thunk (.perform (.abandonPermit s latch)))

/-- A fiber that does nothing but call such closures and wait. -/
def Activity.Modest (V : Scope) : Activity → Prop
  | .running _ _ stand => ∀ c run, stand.deed = .call c run → c.Modest V
  | .registering _ _ _ r _ => r.In V
  | .canceling _ _ _ canceler => canceler.In V
  | .exiting .. => False
  | .idle | .returning .. => True

namespace World

variable {V : Scope} {w : World} {f : FiberId} {c : Call} {run : Run}

theorem Confined.newDeferred (hw : w.Confined V) : w.makeDeferred.2.Confined V :=
  hw.withStores ⟨hw.stores.cells, Table.forall_push hw.stores.deferreds fun _ => List.forall_mem_nil _,
    hw.stores.queues, hw.stores.races, hw.stores.pairings, hw.stores.gates⟩

/-- A new queue is empty, and its gate is a new semaphore. -/
theorem Confined.makeQueue (hw : w.Confined V) (policy : Overflow)
    (hgate : V.mentions (.queue (w.makeQueue policy).1) →
      V.mentions (.through (w.makeQueue policy).1 ((w.makeQueue policy).2.stores.gate? (w.makeQueue policy).1))) :
    (w.makeQueue policy).2.Confined V := by
  have hpush {v : World} (hv : v.Confined V) (gate : Option SemaphoreId)
      (hgate : V.mentions (.queue ⟨v.stores.queues.size⟩) → V.mentions (.through ⟨v.stores.queues.size⟩ gate)) :
      World.Confined V { v with stores := { v.stores with
        queues := v.stores.queues.push { policy := policy, gate := gate } } } :=
    hv.withStores (hv.stores.pushQueue policy hgate)
  unfold World.makeQueue at hgate ⊢
  cases policy with
  | bounded n =>
    refine hpush (hw.abides_semaphores _).confined (some ⟨w.stores.semaphores.size⟩) fun hq => ?_
    have hthrough := hgate hq
    rwa [Stores.gate?_push, if_pos rfl] at hthrough
  | _ =>
    refine hpush hw none fun hq => ?_
    have hthrough := hgate hq
    rwa [Stores.gate?_push, if_pos rfl] at hthrough

theorem queue?_makeQueue (policy : Overflow) (w : World) :
    ((w.makeQueue policy).2.queue? (w.makeQueue policy).1).isSome = true := by
  cases policy <;> exact (congrArg Option.isSome ((Table.get?_push ..).trans (if_pos rfl)))

section Hangs

variable {q : QueueId} {g : SemaphoreId} {made made' : Prop}

/-- A new semaphore is the gate of no queue. -/
theorem Hangs.of_makeSemaphore {n : Nat} (h : w.Hangs q g made) (h' : (w.makeSemaphore n).2.Hangs q g made') :
    (w.makeSemaphore n).1 ≠ g := by
  rintro rfl
  rcases h with ⟨-, hlt⟩ | ⟨-, hnone, -⟩
  · exact Nat.lt_irrefl _ hlt
  · rcases h' with ⟨hgate, -⟩ | ⟨-, -, hle⟩
    · cases (congrArg (Option.bind · Queue.gate) hnone).symm.trans hgate
    · exact Nat.not_succ_le_self _ (Nat.le_trans (Nat.le_of_eq (Table.size_push ..).symm) hle)

theorem gate?_makeQueue_of_ne (policy : Overflow) {q : QueueId} (h : (w.makeQueue policy).1 ≠ q) :
    (w.makeQueue policy).2.stores.gate? q = w.stores.gate? q := by
  have hne : q.index ≠ w.stores.queues.size := by
    rintro he
    refine h ?_
    cases policy <;> exact congrArg QueueId.mk he.symm
  cases policy <;> exact (Stores.gate?_push ..).trans (if_neg hne)

/-- A new queue has the gate if it is the one for which the gate is made, and only then. -/
theorem Hangs.of_makeQueue {policy : Overflow} (h : w.Hangs q g made) (h' : (w.makeQueue policy).2.Hangs q g made') :
    (w.makeQueue policy).1 = q ↔ (w.makeQueue policy).2.stores.gate? (w.makeQueue policy).1 = some g := by
  constructor
  · rintro rfl
    rcases h' with ⟨hgate, -⟩ | ⟨-, hnone, -⟩
    · exact hgate
    · have hfound := queue?_makeQueue policy w
      rw [hnone] at hfound
      cases hfound
  · intro hgate
    refine Classical.byContradiction fun hne => ?_
    have hsame := gate?_makeQueue_of_ne policy hne
    cases policy with
    | bounded n =>
      cases ((Stores.gate?_push ..).trans (if_pos rfl)).symm.trans hgate
      rcases h with ⟨-, hlt⟩ | ⟨-, hnone, -⟩
      · exact Nat.lt_irrefl _ hlt
      · rcases h' with ⟨hothers, -⟩ | ⟨-, -, hle⟩
        · cases (congrArg (Option.bind · Queue.gate) hnone).symm.trans (hsame.symm.trans hothers)
        · exact Nat.not_succ_le_self _ (Nat.le_trans (Nat.le_of_eq (Table.size_push ..).symm) hle)
    | _ => cases ((Stores.gate?_push ..).trans (if_pos rfl)).symm.trans hgate

end Hangs

theorem Confined.requestPermit (hw : w.Confined V) (s : SemaphoreId) : (w.requestPermit s).2.Confined V := by
  have hacquire := hw.abides_tryAcquire s
  unfold World.requestPermit
  split
  · rename_i v hresult
    exact (hresult ▸ hacquire).confined
  · rename_i v hresult
    obtain rfl : v = w := tryAcquire_of_false hresult
    unfold World.joinLine
    dsimp only
    split
    · exact (hw.newDeferred.abides_semaphores _).confined
    · exact hw.newDeferred

/-- A request for an item hands out the right to undo it. -/
theorem Confined.requestItem (hw : w.Confined V) (q : QueueId) (hlatches : ∀ l, V.mentions (.deferred l)) :
    (w.requestItem q).2.Confined V ∧ (V.mentions (.undo q) → (w.requestItem q).1.In V) := by
  unfold World.requestItem
  split
  · rename_i item items hstate
    obtain ⟨row, hrow, hready⟩ := Option.map_eq_some_iff.1 hstate
    have hin := hw.stores.queues q.index row hrow
    rw [hready] at hin
    obtain ⟨hitem, hitems⟩ := List.forall_mem_cons.1 hin
    exact ⟨hw.setQueueState q (.ready items) hitems, fun hundo => Value.in_grantedItem hundo hitem⟩
  · refine ⟨?_, fun hundo => Value.in_awaitedItem hundo (V.waits _ (hlatches _))⟩
    unfold World.joinQueue
    dsimp only
    split
    · exact hw.newDeferred.setQueueState q (.waiting _) fun _ l _ => hlatches l
    · exact hw.newDeferred.setQueueState q (.waiting _) fun _ l _ => hlatches l
    · exact hw.newDeferred

theorem Confined.unveil (hw : w.Confined (.veil q gate made veiled)) (hquiet : w.TimersQuiet) (h : made → made')
    (hgate : ∀ g ∈ gate, w.Hangs q g made') : w.Confined (.veil q gate made' veiled) := by
  refine hw.mono (Scope.veil_grows h) hquiet (fun _ hf => Or.inl hf) (fun _ _ _ _ => Or.inl trivial) hw.hidden nofun ?_
  intro q' hq'
  by_cases he : q' = q
  · subst he
    refine Or.inr fun g hg => iff_of_true rfl ?_
    rcases hgate g hg with ⟨hsame, -⟩ | ⟨hunmade, -⟩
    · exact hsame
    · exact absurd (hq' rfl) hunmade
  · exact Or.inl fun he' => absurd he' he

section Veil

variable (hw : w.Confined (.veil q gate made veiled))

include hw

theorem Confined.called_of_modest (hc : c.Modest (.veil q gate made veiled)) (run : Run) :
    (w.called c run).2.Confined (.veil q gate made veiled) := by
  cases hc with
  | still h =>
    rw [World.called, h w]
    exact hw
  | requestItem q => exact (hw.requestItem q fun _ => trivial).1
  | @putBackItem q v hv =>
    have hback : w.Stays (.veil _ gate made veiled) (w.putBackItem q v) :=
      hw.stays_deliver trivial hv fun _ _ _ => mem_restore
    exact hback.confined
  | abandonItem q latch => exact (hw.stays_abandonItem trivial trivial).confined
  | @offerItem q v hv =>
    have hoffer : w.Stays (.veil _ gate made veiled) (w.offerItem q v) :=
      hw.stays_deliver trivial hv fun _ _ _ => mem_push
    exact hoffer.confined
  | requestPermit s => exact hw.requestPermit s
  | releasePermit s => exact (hw.abides_releasePermit fun _ _ _ _ => trivial).confined
  | abandonPermit s latch => exact (hw.abides_abandonPermit (fun _ _ _ _ => trivial) latch).confined

/-- The next moment, if the fiber that is in the middle of something is veiled. -/
theorem Confined.next_of_veiled {a : Activity} (ha : a.fiber? = some f) (hf : veiled f)
    (hmodest : a.Modest (.veil q gate made veiled)) :
    Moment.Within (.veil q gate made veiled) (Moment.next ⟨w, a⟩) := by
  have hhidden : ¬ (Scope.veil q gate made veiled).fiber f := not_not_intro hf
  have hin {m : Moment} (hm : m.world.Confined (.veil q gate made veiled)) (hactivity : m.activity.fiber? = some f) :
      m.Within (.veil q gate made veiled) := ⟨hm, Activity.in_of_hidden hactivity hhidden⟩
  cases a with
  | idle => cases ha
  | exiting => exact hmodest.elim
  | running g left stand =>
    cases ha
    cases left with
    | zero => exact ⟨hw.dispatch fun hvisible => absurd hvisible hhidden, trivial⟩
    | succ left =>
      simp only [Moment.next, World.act]
      split
      · exact hin hw rfl
      · rename_i c run hdeed
        split
        · exact hin hw rfl
        · exact hin (hw.called_of_modest (hmodest c run hdeed) run) rfl
      · split
        · exact hin hw rfl
        · have hnothing : (Phase.registering none).In (.veil q gate made veiled) := Scope.nothing
          exact hin (hw.abides_advanceEpoch f hnothing).confined rfl
      · rename_i x hdeed
        have hmark : (w.markDone f x).Confined (.veil q gate made veiled) :=
          hw.modifyPhase f _ (fun _ _ _ => Scope.nothing) (fun _ => rfl) fun r => Nat.le_refl r.epoch
        split
        · exact hin hmark rfl
        · exact ⟨hmark, trivial⟩
  | registering g left run r epoch =>
    cases ha
    have hleads : w.Leads _ (w.beginRegistration f left run r epoch) :=
      hw.leads_beginRegistration (Scope.free_veil ..) (fun hvisible => absurd hvisible hhidden) hmodest left epoch
    exact ⟨hleads.abides.confined, hleads.activity⟩
  | returning g left run canceler =>
    cases ha
    have hleads : w.Leads _ (w.leaveRegistration f left run canceler) :=
      hw.leads_leaveRegistration (fun hvisible => absurd hvisible hhidden) left
    exact ⟨hleads.abides.confined, hleads.activity⟩
  | canceling g left run canceler =>
    cases ha
    exact hin (hw.abides_attempt (Tracks.canceler (J := Confining (.veil q gate made veiled)) hmodest fun _ => trivial)).confined rfl

/-! ## What others do -/

/-- A closure that any other fiber may call hands out nothing that is hidden, but for a queue that it makes. -/
theorem Confined.veils_call (hc : c.In (.veil q gate made veiled)) (run : Run)
    (hgate : ∀ g ∈ gate, w.Hangs q g made ∧ (w.called c run).2.Hangs q g made') :
    (w.called c run).2.Confined (.veil q gate made veiled) ∧
      ((w.called c run).1.next.In (.veil q gate made veiled) ∨ ∃ policy, c = .thunk (.perform (.makeQueue policy))) := by
  by_cases hordinary : c.isOrdinary = true
  · obtain ⟨hstays, hresult⟩ := Confining.caught
      (Tracks.call (J := Confining (.veil q gate made veiled)) hc (fun _ _ => trivial) hordinary) hw
    refine ⟨hstays.confined, Or.inl ?_⟩
    simp only [World.called]
    cases hnext : (c.act.caught w).1 with
    | ok next => exact hresult next hnext
    | error d => exact Scope.nothing
  · cases c with
    | thunk t =>
      cases t with
      | perform o =>
        cases o with
        | makeDeferred => exact ⟨hw.newDeferred, Or.inl (List.forall_mem_singleton.2 trivial)⟩
        | makeSemaphore n =>
          refine ⟨(hw.abides_semaphores _).confined, Or.inl (List.forall_mem_singleton.2 fun he => ?_)⟩
          obtain ⟨hbefore, hafter⟩ := hgate _ he.symm
          exact hbefore.of_makeSemaphore hafter rfl
        | makeQueue policy =>
          refine ⟨hw.makeQueue policy fun _ g hg => ?_, Or.inr ⟨policy, rfl⟩⟩
          obtain ⟨hbefore, hafter⟩ := hgate g hg
          exact hbefore.of_makeQueue hafter
        | requestPermit s =>
          have hs : (Scope.veil q gate made veiled).mentions (.semaphore s) := hc _ List.mem_cons_self
          refine ⟨hw.requestPermit s, Or.inl ?_⟩
          show (w.requestPermit s).1.In _
          unfold World.requestPermit
          split
          · exact Value.in_ticket Scope.nothing (List.forall_mem_singleton.2 hs)
          · exact Value.in_ticket (List.forall_mem_singleton.2 trivial)
              (List.forall_mem_cons.2 ⟨hs, List.forall_mem_singleton.2 trivial⟩)
        | tryAcquire s => exact ⟨(hw.abides_tryAcquire s).confined, Or.inl Scope.nothing⟩
        | releasePermit s =>
          exact ⟨(hw.abides_releasePermit fun _ _ _ _ => trivial).confined, Or.inl Scope.nothing⟩
        | abandonPermit s latch =>
          exact ⟨(hw.abides_abandonPermit (fun _ _ _ _ => trivial) latch).confined, Or.inl Scope.nothing⟩
        | requestItem q' =>
          obtain ⟨hrequest, hticket⟩ := hw.requestItem q' fun _ => trivial
          have hother : (Scope.veil q gate made veiled).mentions (.draw q') :=
            hc _ (List.mem_cons_of_mem _ (List.mem_cons_of_mem _ (List.mem_singleton_self _)))
          exact ⟨hrequest, Or.inl (hticket hother)⟩
        | _ => exact absurd rfl hordinary
      | _ => exact absurd rfl hordinary
    | _ => exact absurd rfl hordinary

end Veil

end World

/-! ## Strokes -/

namespace Scene

variable {s : Scene} {stroke : Stroke} {f : FiberId} {c : Call} {run : Run} {V : Scope}

/-- A scene inside a scope. -/
structure Veiled (V : Scope) (s : Scene) : Prop where
  within : s.moment.Within V
  kept : ∀ e ∈ s.kept, e.In V

section Veil

variable (h : s.Veiled (.veil q gate made veiled))

include h

theorem Veiled.unveil (hquiet : s.moment.world.TimersQuiet) (hmade : made → made')
    (hgate : ∀ g ∈ gate, s.moment.world.Hangs q g made') : s.Veiled (.veil q gate made' veiled) where
  within := ⟨h.within.confined.unveil hquiet hmade hgate, h.within.activity.mono (Scope.veil_grows hmade) fun _ _ => id⟩
  kept e he d hd :=
    have hgrows : (Scope.veil q gate made veiled).Grows (.veil q gate made' veiled) := Scope.veil_grows hmade
    hgrows.mentions d (h.kept e he d hd)

/-- Other fibers are veiled. Those that are veiled no more run, and nothing is kept of theirs. -/
theorem Veiled.rescope (hquiet : s.moment.world.TimersQuiet)
    (hmore : ∀ f, veiled' f → veiled f ∨ (s.moment.world.fiber? f).isSome = true)
    (hless : ∀ f, veiled f → veiled' f ∨ s.moment.world.Bare f)
    (hactivity : s.moment.activity.In (.veil q gate made veiled')) : s.Veiled (.veil q gate made veiled') where
  within := by
    refine ⟨h.within.confined.mono (Scope.veil_grows id) hquiet (fun f hf => ?_) (fun _ _ _ _ => Or.inl trivial)
      (fun f hf => ?_) nofun fun _ hq => Or.inl hq, hactivity⟩
    · by_cases hveiled : veiled f
      · exact Or.inr ((hless f hveiled).resolve_left hf)
      · exact Or.inl hveiled
    · rcases hmore f (Classical.not_not.1 hf) with hveiled | hthere
      · exact h.within.confined.hidden f (not_not_intro hveiled)
      · exact hthere
  kept := h.kept

/-- A fiber that is not veiled calls a closure. -/
theorem Veiled.call (hcalls : s.calls? stroke = some (f, run, c)) (hf : ¬ veiled f) (hquiet : (s.play stroke).moment.world.TimersQuiet)
    (hgate : ∀ g ∈ gate, s.moment.world.Hangs q g made ∧ (s.play stroke).moment.world.Hangs q g made')
    (hmade : made → made') (hnew : ((s.play stroke).moment.world.queue? q).isSome = true → made') :
    (s.play stroke).Veiled (.veil q gate made' veiled) := by
  obtain ⟨-, left, stand, hstand, hdeed, -⟩ := of_calls? hcalls
  have hactivity := h.within.activity
  rw [hstand] at hactivity
  obtain ⟨hrun, hnext⟩ := hactivity hf
  obtain ⟨hc, hrest⟩ := Stand.in_of_call hrun hnext hdeed
  obtain ⟨left', hmoment, hkept⟩ := moment_of_calls? hcalls
  rw [hmoment] at hquiet hnew hgate
  obtain ⟨hworld, hresult⟩ := h.within.confined.veils_call hc run hgate
  have hgrows : (Scope.veil q gate made veiled).Grows (.veil q gate made' veiled) := Scope.veil_grows hmade
  refine ⟨?_, fun e he d hd => hgrows.mentions d (h.kept e (hkept ▸ he) d hd)⟩
  rw [hmoment]
  refine ⟨hworld.unveil hquiet hmade fun g hg => (hgate g hg).2, fun _ => ⟨fun d hd => hgrows.mentions d (hrest d hd), ?_⟩⟩
  rcases hresult with hresult | ⟨policy, rfl⟩
  · exact fun d hd => hgrows.mentions d (hresult d hd)
  · refine List.forall_mem_singleton.2 fun he => hnew ?_
    exact he ▸ World.queue?_makeQueue policy s.moment.world

/-- The next moment, if no closure is called. -/
theorem Veiled.next (ho : s.Occurs) (hcalls : s.calls? .next = none)
    (hdraws : ∀ f left stand, s.moment.activity = .running f (left + 1) stand → stand.Draws q → veiled f)
    (hopens : ∀ f left stand, s.moment.activity = .running f (left + 1) stand → ∀ g ∈ gate, stand.Opens q g → veiled f)
    (hmodest : ∀ f, s.moment.activity.fiber? = some f → veiled f → s.moment.activity.Modest (.veil q gate made veiled)) :
    (s.play .next).Veiled (.veil q gate made veiled) := by
  refine ⟨?_, h.kept⟩
  by_cases hveiled : ∃ f, s.moment.activity.fiber? = some f ∧ veiled f
  · obtain ⟨f, ha, hf⟩ := hveiled
    exact h.within.confined.next_of_veiled ha hf (hmodest f ha hf)
  · have hopen (f : FiberId) (ha : s.moment.activity.fiber? = some f) : ¬ veiled f := fun hf => hveiled ⟨f, ha, hf⟩
    have hleads := h.within.proceed (Scope.free_veil ..) ho.timersQuiet
      (fun f left stand c run hstand _ hdeed hcuts =>
        nomatch (calls?_of_deed hstand hdeed hcuts).symm.trans hcalls)
      (fun f left stand q' hstand hf hdraws' he => hf (hdraws f left stand hstand (he ▸ hdraws')))
      (fun f left stand q' g' hstand hf hopens' hthrough => Scope.opens_veil hthrough fun hq hg =>
        hf (hopens f left stand hstand g' hg (hq ▸ hopens')))
      fun f ha hf => absurd (hopen f ha) hf
    exact ⟨hleads.abides.confined, hleads.activity⟩

/-- What is done between two tasks. -/
theorem Veiled.between (change : World → World)
    (hchange : (change s.moment.world).Confined (.veil q gate made veiled)) :
    (s.between change).Veiled (.veil q gate made veiled) := by
  unfold Scene.between
  split
  · exact ⟨⟨hchange, trivial⟩, h.kept⟩
  · exact h

/-- What is asked for from outside. -/
theorem Veiled.demand (ho : s.Occurs) (d : Demand)
    (hgate : ∀ g ∈ gate, s.moment.world.Hangs q g made ∧ (s.play (.demand d)).moment.world.Hangs q g made')
    (hmade : made → made') (hnew : ((s.play (.demand d)).moment.world.queue? q).isSome = true → made') :
    (s.play (.demand d)).Veiled (.veil q gate made' veiled) := by
  have hw := h.within.confined
  have hbefore : s.moment.world.TimersQuiet := ho.timersQuiet
  have hquiet : (s.play (.demand d)).moment.world.TimersQuiet := (ho.after [.demand d]).timersQuiet
  have hgrows : (Scope.veil q gate made veiled).Grows (.veil q gate made' veiled) := Scope.veil_grows hmade
  have hactivity : s.moment.activity.In (.veil q gate made' veiled) := h.within.activity.mono hgrows fun _ _ => id
  have hkept (e : Effect) (he : e ∈ s.kept) : e.In (.veil q gate made' veiled) := fun d hd =>
    hgrows.mentions d (h.kept e he d hd)
  by_cases hordinary : d.isOrdinary = true
  · obtain ⟨hstays, hresult⟩ :=
      (Tracks.demand (J := Confining (.veil q gate made veiled)) h.kept hordinary) _ hw
    have hafter : ∀ g ∈ gate, (s.play (.demand d)).moment.world.Hangs q g made' := fun g hg => (hgate g hg).2
    simp only [Scene.play] at hquiet hafter ⊢
    cases hrun : (d.act s.kept).run s.moment.world with
    | mk result v =>
      rw [hrun] at hquiet hafter hstays hresult
      cases result with
      | ok more =>
        refine ⟨⟨hstays.confined.unveil hquiet hmade hafter, hactivity⟩, fun e he => ?_⟩
        rcases List.mem_append.1 he with hold | hnew
        · exact hkept e hold
        · exact fun d hd => hgrows.mentions d (hresult more rfl e hnew d hd)
      | error defect => exact ⟨⟨hstays.confined.unveil hquiet hmade hafter, hactivity⟩, hkept⟩
  · have hset {w : World} (hw : w.Confined (.veil q gate made veiled)) (hloop : w.loop = s.moment.world.loop)
        (haside : w.aside = s.moment.world.aside) (hafter : ∀ g ∈ gate, w.Hangs q g made') (name : Name) {v : Value}
        (hv : v.In (.veil q gate made' veiled)) : (w.setGlobal name v).Confined (.veil q gate made' veiled) :=
      ((Tracks.setGlobal (J := Confining (.veil q gate made' veiled)) name hv) w
        (hw.unveil ⟨hloop ▸ hbefore.loop, haside ▸ hbefore.aside⟩ hmade hafter)).1.confined
    have hnothing (e : Effect) (he : e ∈ s.kept ++ []) : e.In (.veil q gate made' veiled) :=
      hkept e ((List.append_nil s.kept) ▸ he)
    cases d with
    | scenario op =>
      cases op with
      | newDeferred name =>
        have hafter : ∀ g ∈ gate, s.moment.world.makeDeferred.2.Hangs q g made' := fun g hg => (hgate g hg).2
        exact ⟨⟨hset hw.newDeferred rfl rfl hafter name (List.forall_mem_singleton.2 trivial), hactivity⟩, hnothing⟩
      | newSemaphore name n =>
        have hnew : (s.moment.world.makeSemaphore n).2.Confined (.veil q gate made veiled) := (hw.abides_semaphores _).confined
        have hafter : ∀ g ∈ gate, (s.moment.world.makeSemaphore n).2.Hangs q g made' := fun g hg => (hgate g hg).2
        refine ⟨⟨hset hnew rfl rfl hafter name (List.forall_mem_singleton.2 fun he => ?_), hactivity⟩, hnothing⟩
        exact (hgate _ he.symm).1.of_makeSemaphore (hafter _ he.symm) rfl
      | newQueue name policy =>
        have hafter : ∀ g ∈ gate, (s.moment.world.makeQueue policy).2.Hangs q g made' := fun g hg => (hgate g hg).2
        have hmake : (s.moment.world.makeQueue policy).2.Confined (.veil q gate made veiled) :=
          hw.makeQueue policy fun _ g hg => (hgate g hg).1.of_makeQueue (hafter g hg)
        refine ⟨⟨hset hmake (by cases policy <;> rfl) (by cases policy <;> rfl) hafter name
          (List.forall_mem_singleton.2 fun he => hnew ?_), hactivity⟩, hnothing⟩
        exact he ▸ World.queue?_makeQueue policy s.moment.world
      | _ => exact absurd rfl hordinary
    | _ => exact absurd rfl hordinary

/-- **Every stroke keeps the veil.** -/
theorem Veiled.play (ho : s.Occurs) (stroke : Stroke)
    (hgate : ∀ g ∈ gate, s.moment.world.Hangs q g made ∧ (s.play stroke).moment.world.Hangs q g made')
    (hmade : made → made') (hnew : ((s.play stroke).moment.world.queue? q).isSome = true → made')
    (hdraws : stroke = .next → ∀ f left stand, s.moment.activity = .running f (left + 1) stand → stand.Draws q → veiled f)
    (hopens : stroke = .next → ∀ f left stand, s.moment.activity = .running f (left + 1) stand → ∀ g ∈ gate,
      stand.Opens q g → veiled f)
    (hmodest : ∀ f, s.moment.activity.fiber? = some f → veiled f → s.moment.activity.Modest (.veil q gate made veiled)) :
    (s.play stroke).Veiled (.veil q gate made' veiled) := by
  have hquiet : (s.play stroke).moment.world.TimersQuiet := (ho.after [stroke]).timersQuiet
  have hafter : ∀ g ∈ gate, (s.play stroke).moment.world.Hangs q g made' := fun g hg => (hgate g hg).2
  have hw := h.within.confined
  cases stroke with
  | next =>
    cases hcalls : s.calls? .next with
    | none => exact (h.next ho hcalls (hdraws rfl) (hopens rfl) hmodest).unveil hquiet hmade hafter
    | some call =>
      obtain ⟨f, run, c⟩ := call
      obtain ⟨-, left, stand, hstand, -⟩ := of_calls? hcalls
      by_cases hf : veiled f
      · have ha : s.moment.activity.fiber? = some f := by
          rw [hstand]
          rfl
        have hnext : (s.play .next).Veiled (.veil q gate made veiled) :=
          ⟨hw.next_of_veiled ha hf (hmodest f ha hf), h.kept⟩
        exact hnext.unveil hquiet hmade hafter
      · exact h.call hcalls hf hquiet hgate hmade hnew
  | fire =>
    have hfired : (s.play .fire).Veiled (.veil q gate made veiled) := h.between (fun w => if w.loop.stopped then w else w.fireDue) (by
      split
      · exact hw
      · exact (hw.abides_fireDue ho.timersQuiet).confined)
    exact hfired.unveil hquiet hmade hafter
  | switch =>
    have hswitched : (s.play .switch).Veiled (.veil q gate made veiled) := h.between _
      (hw.besides hw.aside hw.loop hw.stores hw.session _ s.moment.world.clock s.moment.world.caughtThrows)
    exact hswitched.unveil hquiet hmade hafter
  | clock time =>
    have hset : (s.play (.clock time)).Veiled (.veil q gate made veiled) := h.between (fun w => { w with clock := time })
      (hw.besides hw.loop hw.aside hw.stores hw.session s.moment.world.here time s.moment.world.caughtThrows)
    exact hset.unveil hquiet hmade hafter
  | demand d => exact h.demand ho d hgate hmade hnew

end Veil

end Scene

end

end FiberLoop
