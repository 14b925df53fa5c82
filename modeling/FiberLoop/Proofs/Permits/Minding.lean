import FiberLoop.Proofs.Permits.Orderly

/-!
# What leaves the acquires alone

A closure in scope leaves the acquires alone if it does not touch the permits: what it does to a fiber in an acquire
is to request its interruption. So do the changes of a fiber that is in no acquire, and the handling of messages.

The main result of this module is `World.Calm.call`.
-/

namespace FiberLoop

namespace World

/-- A world in which everybody knows only what can be known, with its books. -/
structure Calm (σ : Engagements) (b : Books) (w : World) : Prop where
  confined : w.Confined (w.scope σ b)
  quiet : w.TimersQuiet
  books : b.Kept σ w

section Calm

variable {σ : Engagements} {b : Books} {X : FiberId → Prop} {w w' : World} {f : FiberId}

theorem Minds.calm (hminds : w.Minds σ b X w') (h : w.Calm σ b) : w'.Calm σ b :=
  ⟨hminds.confined, hminds.quiet, hminds.kept h.books⟩

theorem Calm.refl (h : w.Calm σ b) : w.Minds σ b X w := .refl h.confined h.quiet

theorem Calm.there (h : w.Calm σ b) (hf : σ f ≠ none) : (w.fiber? f).isSome = true := h.confined.hidden f hf

/-- The latch of a ticket is hidden. -/
theorem Calm.hidden_latch (h : w.Calm σ b) {c : Claim} (hc : c ∈ b.claims) {l : DeferredId}
    (hl : c.latch? = some l) : ¬ (w.scope σ b).mentions (.deferred l) :=
  fun hmentions => hmentions.2 (h.books.claimed c hc l hl)

/-- A change by requests that stays in the scope in which it was made, and leaves the latches of others alone. -/
theorem Calm.within (h : w.Calm σ b) (hconfined : w'.Confined (w.scope σ b)) (hrequested : Requested w w')
    (hnudges : ∀ g, σ g ≠ none → ¬ X g → w.Nudges g w')
    (hsize : w'.stores.deferreds.size = w.stores.deferreds.size)
    (hsemaphores : w'.stores.semaphores = w.stores.semaphores)
    (hrows : ∀ c ∈ b.claims, ¬ X c.fiber → ∀ l, c.latch? = some l → w'.deferred? l = w.deferred? l) :
    w.Minds σ b X w' := by
  obtain ⟨es, hrequests⟩ := hrequested
  have hlater := Later.requests hrequests
  have hquiet := h.quiet.requests hrequests
  have hsemaphore : ∀ s, w'.semaphore? s = w.semaphore? s := fun s =>
    congrArg (fun t => Table.get? t s.index) hsemaphores
  exact {
    confined := hconfined.rescope hlater hquiet (Nat.le_of_eq hsize.symm)
      (Nat.le_of_eq (congrArg Table.size hsemaphores.symm)) (fun _ hl => Or.inl hl) (fun _ hl => hl)
      (fun d row hrow hnew _ => by
        have hsome : (w'.stores.deferreds.get? d.index).isSome = true := Option.isSome_of_eq_some hrow
        rw [Table.isSome_get?_iff, hsize] at hsome
        exact absurd hsome (Nat.not_lt_of_le hnew))
      (fun _ hf => Or.inl hf) (fun _ hf => Or.inl hf) (fun f hf => hconfined.hidden f hf)
    later := hlater
    quiet := hquiet
    nudges := hnudges
    deferreds := Nat.le_of_eq hsize.symm
    semaphores_size := Nat.le_of_eq (congrArg Table.size hsemaphores.symm)
    semaphores := fun s row hrow => (hsemaphore s).trans hrow
    made := fun s row hnone hrow => nomatch ((hsemaphore s).trans hnone).symm.trans hrow
    rows := hrows }

/-- What is done in the scope of the others leaves the acquires alone. -/
theorem Calm.stays (h : w.Calm σ b) (hstays : w.Stays (w.scope σ b) w') : w.Minds σ b X w' := by
  obtain ⟨es, hrequests, -⟩ := hstays.apart.requests
  exact h.within hstays.confined ⟨es, hrequests⟩ (fun g hg _ => .of_apart hstays.apart trivial hg) hstays.apart.size
    hstays.apart.semaphores fun c hc _ l hl => hstays.apart.rows l (h.hidden_latch hc hl)

/-- A computation that stays in scope, and what it yields. -/
theorem Calm.caught (h : w.Calm σ b) {α : Type} {act : Act α} {Q : α → Prop}
    (hact : Confining (w.scope σ b) α act Q) :
    w.Minds σ b X (act.caught w).2 ∧ ∀ a, (act.caught w).1 = .ok a → Q a := by
  obtain ⟨hstays, hresult⟩ := hact.caught h.confined
  exact ⟨h.stays hstays, hresult⟩

theorem Calm.attempt (h : w.Calm σ b) {α : Type} {act : Act α} {Q : α → Prop}
    (hact : Confining (w.scope σ b) α act Q) : w.Minds σ b X (act.attempt w) := (h.caught hact).1

/-! ## What is new -/

/-- New stores with more rows. -/
theorem Calm.make (h : w.Calm σ b) {stores : Stores} (hin : stores.In (w.scope σ b))
    (hdeferreds : stores.deferreds = w.stores.deferreds ∨ stores.deferreds = w.stores.deferreds.push .fresh)
    (hsemaphores : stores.semaphores = w.stores.semaphores ∨
      ∃ n, stores.semaphores = w.stores.semaphores.push { permits := n }) :
    w.Minds σ b X { w with stores := stores } := by
  have hrequest : Requests w [] { w with stores := stores } := .one (.quiet (.stores w stores))
  have hlater := Later.requests hrequest
  have hquiet := h.quiet.requests hrequest
  have hold (d : DeferredId) (hd : d.index < w.stores.deferreds.size) :
      stores.deferreds.get? d.index = w.stores.deferreds.get? d.index := by
    rcases hdeferreds with hsame | hpush
    · rw [hsame]
    · rw [hpush, Table.get?_push, if_neg (Nat.ne_of_lt hd)]
  have hnew (d : DeferredId) (row : Deferred) (hrow : stores.deferreds.get? d.index = some row)
      (hd : w.stores.deferreds.size ≤ d.index) : row = .fresh := by
    have hnone : w.stores.deferreds.get? d.index = none := by
      rw [← Option.not_isSome_iff_eq_none, Table.isSome_get?_iff]
      exact Nat.not_lt_of_le hd
    rcases hdeferreds with hsame | hpush
    · rw [hsame, hnone] at hrow
      cases hrow
    · rw [hpush, Table.get?_push, hnone] at hrow
      split at hrow
      · exact (Option.some.inj hrow).symm
      · cases hrow
  have hdeferreds_size : w.stores.deferreds.size ≤ stores.deferreds.size := by
    rcases hdeferreds with hsame | hpush
    · exact Nat.le_of_eq (congrArg Table.size hsame.symm)
    · rw [hpush, Table.size_push]
      exact Nat.le_succ _
  have hsemaphores_size : w.stores.semaphores.size ≤ stores.semaphores.size := by
    rcases hsemaphores with hsame | ⟨n, hpush⟩
    · exact Nat.le_of_eq (congrArg Table.size hsame.symm)
    · rw [hpush, Table.size_push]
      exact Nat.le_succ _
  have hconfined : World.Confined (w.scope σ b) { w with stores := stores } := h.confined.withStores hin
  exact {
    confined := hconfined.rescope hlater hquiet hdeferreds_size hsemaphores_size (fun _ hl => Or.inl hl)
      (fun _ hl => hl) (fun d row hrow hd _ => hnew d row hrow hd) (fun _ hf => Or.inl hf) (fun _ hf => Or.inl hf)
      fun f hf => h.there hf
    later := hlater
    quiet := hquiet
    nudges := fun g _ _ => .of_view fun _ => rfl
    deferreds := hdeferreds_size
    semaphores_size := hsemaphores_size
    semaphores := fun s row hrow => by
      rcases hsemaphores with hsame | ⟨n, hpush⟩
      · exact (congrArg (fun t => Table.get? t s.index) hsame).trans hrow
      · have hlt : s.index < w.stores.semaphores.size :=
          (Table.isSome_get?_iff _ _).1 (Option.isSome_of_eq_some hrow)
        refine (congrArg (fun t => Table.get? t s.index) hpush).trans ?_
        rw [Table.get?_push, if_neg (Nat.ne_of_lt hlt)]
        exact hrow
    made := fun s row hnone hrow => by
      have hrow' : stores.semaphores.get? s.index = some row := hrow
      have hnone' : w.stores.semaphores.get? s.index = none := hnone
      rcases hsemaphores with hsame | ⟨n, hpush⟩
      · rw [hsame, hnone'] at hrow'
        cases hrow'
      · rw [hpush, Table.get?_push, hnone'] at hrow'
        split at hrow'
        · rw [← Option.some.inj hrow']
        · cases hrow'
    rows := fun c hc _ l hl => hold l (h.books.latches l (h.books.claimed c hc l hl)) }

theorem Calm.makeDeferred (h : w.Calm σ b) :
    w.Minds σ b X w.makeDeferred.2 ∧ (w.makeDeferred.2.scope σ b).mentions (.deferred w.makeDeferred.1) := by
  have hin := h.confined.stores
  refine ⟨h.make ⟨hin.cells, Table.forall_push hin.deferreds fun _ => List.forall_mem_nil _, hin.queues, hin.races,
    hin.pairings, hin.gates⟩ (Or.inr rfl) (Or.inl rfl), ?_, fun hl => ?_⟩
  · show w.stores.deferreds.size < (w.stores.deferreds.push Deferred.fresh).size
    rw [Table.size_push]
    exact Nat.lt_succ_self _
  · exact Nat.lt_irrefl _ (h.books.latches _ hl)

theorem Calm.makeSemaphore (h : w.Calm σ b) (n : Nat) :
    w.Minds σ b X (w.makeSemaphore n).2 ∧
      ((w.makeSemaphore n).2.scope σ b).mentions (.semaphore (w.makeSemaphore n).1) := by
  have hin := h.confined.stores
  refine ⟨h.make ⟨hin.cells, hin.deferreds, hin.queues, hin.races, hin.pairings, hin.gates⟩ (Or.inl rfl) (Or.inr ⟨n, rfl⟩), ?_⟩
  show w.stores.semaphores.size < (w.stores.semaphores.push { permits := n }).size
  rw [Table.size_push]
  exact Nat.lt_succ_self _

/-- A new queue whose gate is known. -/
theorem Calm.pushQueue (h : w.Calm σ b) (policy : Overflow) {gate : Option SemaphoreId}
    (hgate : ∀ q, (w.scope σ b).mentions (.through q gate)) :
    w.Minds σ b X { w with stores := { w.stores with
      queues := w.stores.queues.push { policy := policy, gate := gate } } } :=
  h.make (h.confined.stores.pushQueue policy fun _ => hgate _) (Or.inl rfl) (Or.inl rfl)

theorem Calm.makeQueue (h : w.Calm σ b) (policy : Overflow) : w.Minds σ b X (w.makeQueue policy).2 := by
  unfold World.makeQueue
  cases policy with
  | bounded n =>
    obtain ⟨hmake, hgate⟩ := h.makeSemaphore (X := X) n
    exact hmake.trans ((hmake.calm h).pushQueue _ fun _ => hgate)
  | _ => exact h.pushQueue _ fun _ => trivial

theorem Calm.joinQueue (h : w.Calm σ b) (q : QueueId) :
    w.Minds σ b X (w.joinQueue q).2 ∧ ((w.joinQueue q).2.scope σ b).mentions (.deferred (w.joinQueue q).1) := by
  obtain ⟨hmake, hlatch⟩ := h.makeDeferred (X := X)
  have hcalm := hmake.calm h
  have hjoin (latches : List DeferredId)
      (hlatches : ∀ l ∈ latches, (w.makeDeferred.2.scope σ b).mentions (.deferred l)) :
      w.Minds σ b X (w.makeDeferred.2.setQueueState q (.waiting latches)) ∧
        ((w.makeDeferred.2.setQueueState q (.waiting latches)).scope σ b).mentions (.deferred w.makeDeferred.1) :=
    ⟨hmake.trans (hcalm.stays (hcalm.confined.stays_setQueueState trivial _ fun _ => hlatches)), hlatch⟩
  unfold World.joinQueue
  dsimp only
  split
  · rename_i latches hstate
    refine hjoin _ (List.forall_mem_append.2 ⟨?_, List.forall_mem_singleton.2 hlatch⟩)
    obtain ⟨row, hrow, hline⟩ := Option.map_eq_some_iff.1 hstate
    have hin := hcalm.confined.stores.queues q.index row hrow
    rw [hline] at hin
    exact hin trivial
  · exact hjoin _ (List.forall_mem_singleton.2 hlatch)
  · exact ⟨hmake, hlatch⟩

theorem Calm.requestItem (h : w.Calm σ b) (q : QueueId) :
    w.Minds σ b X (w.requestItem q).2 ∧ (w.requestItem q).1.In ((w.requestItem q).2.scope σ b) := by
  unfold World.requestItem
  split
  · rename_i item items hstate
    obtain ⟨row, hrow, hready⟩ := Option.map_eq_some_iff.1 hstate
    have hin := h.confined.stores.queues q.index row hrow
    rw [hready] at hin
    obtain ⟨hitem, hitems⟩ := List.forall_mem_cons.1 hin
    have hset : w.Minds σ b X (w.setQueueState q (.ready items)) :=
      h.stays (h.confined.stays_setQueueState trivial (.ready items) hitems)
    have hticket : (Value.ticket (.succeed item) (.perform (.putBackItem q item))).In (w.scope σ b) :=
      Value.in_grantedItem trivial hitem
    exact ⟨hset, fun d hd => hset.grows.mentions d (hticket d hd)⟩
  · obtain ⟨hjoin, hlatch⟩ := h.joinQueue (X := X) q
    exact ⟨hjoin, Value.in_awaitedItem trivial hlatch⟩

end Calm

end World

/-! ## Calls -/

/-- What the closure that is called mentions. -/
def Call.mentions : Call → List Mention
  | .value v => v.mentions
  | .cause c => Value.mentionsCause c
  | .exit x => Value.mentionsExit x
  | .thunk t => t.mentions
  | .bind k v => k.mentions ++ v.mentions
  | .recover r c => r.mentions ++ Value.mentionsCause c

abbrev Call.In (V : Scope) (c : Call) : Prop := ∀ d ∈ c.mentions, V.mentions d

/-- Whether a closure may take or release a permit. -/
def Call.deals : Call → Bool
  | .thunk (.perform (.tryAcquire _)) | .thunk (.perform (.releasePermit _)) => true
  | _ => false

/-- The queue to which a closure brings an item, or out of whose line it takes a latch. -/
def Call.queue? : Call → Option QueueId
  | .thunk t => t.queue?
  | _ => none

/-- Whether a closure hands out nothing new and leaves permits alone. -/
def Call.isOrdinary : Call → Bool
  | .thunk t => t.isOrdinary
  | _ => true

namespace Tracks

variable {V : Scope} {J : Judgement} [tracks : Tracks V J]

include tracks

theorem call {c : Call} (h : c.In V) (hqueue : ∀ q ∈ c.queue?, V.queue q) (hc : c.isOrdinary = true) :
    J Next c.act (Next.In V) := by
  cases c with
  | value v | cause c => exact pure h
  | exit x =>
    cases x with
    | value v | cause c => exact pure h
  | thunk t => exact thunk h hqueue hc
  | bind k v =>
    obtain ⟨hk, hv⟩ := List.forall_mem_append.1 h
    exact continuation hk hv
  | recover r c =>
    obtain ⟨hr, hc⟩ := List.forall_mem_append.1 h
    exact recovery hr hc

end Tracks

namespace World

variable {σ : Engagements} {b : Books} {X : FiberId → Prop} {w : World}

/-- **A closure in scope that does not deal with permits leaves the acquires alone.** What it yields is in scope. -/
theorem Calm.call (h : w.Calm σ b) {c : Call} (hc : c.In (w.scope σ b)) (hdeals : c.deals = false) (run : Run) :
    w.Minds σ b X (w.called c run).2 ∧ (w.called c run).1.next.In ((w.called c run).2.scope σ b) := by
  by_cases hordinary : c.isOrdinary = true
  · obtain ⟨hminds, hresult⟩ := h.caught (X := X) (Tracks.call (J := Confining (w.scope σ b)) hc (fun _ _ => trivial) hordinary)
    refine ⟨hminds, ?_⟩
    simp only [World.called]
    cases hnext : (c.act.caught w).1 with
    | ok next => exact fun d hd => hminds.grows.mentions d (hresult next hnext d hd)
    | error d => exact Scope.nothing
  · cases c with
    | thunk t =>
      cases t with
      | perform o =>
        cases o with
        | makeDeferred =>
          obtain ⟨hmake, hnew⟩ := h.makeDeferred (X := X)
          exact ⟨hmake, List.forall_mem_singleton.2 hnew⟩
        | makeSemaphore n =>
          obtain ⟨hmake, hnew⟩ := h.makeSemaphore (X := X) n
          exact ⟨hmake, List.forall_mem_singleton.2 hnew⟩
        | makeQueue policy => exact ⟨h.makeQueue policy, List.forall_mem_singleton.2 trivial⟩
        | requestItem q => exact h.requestItem q
        | requestPermit s => exact (hc .request (by simp [Call.mentions])).elim
        | abandonPermit s l => exact (hc (.place l) (by simp [Call.mentions])).elim
        | tryAcquire s => cases hdeals
        | releasePermit s => cases hdeals
        | _ => exact absurd rfl hordinary
      | _ => exact absurd rfl hordinary
    | _ => exact absurd rfl hordinary

end World

end FiberLoop
