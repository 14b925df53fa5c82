import FiberLoop.Proofs.Permits.Ledger
import FiberLoop.Proofs.Permits.Visible

/-!
# Permits that change hands

A fiber takes a permit, joins a line, or puts a permit back. `World.Trades` says what that does to the world: the row
of one semaphore changes. If a permit comes back while somebody waits, it goes to the first in line, whose latch is
completed: a fiber that is parked on it goes on, and any other finds the latch completed
(`Engagement.Acquiring.woken`).
-/

namespace FiberLoop

open Engagement

namespace World

section Rows

variable {w : World} {s s' : SemaphoreId} {row : Semaphore}

theorem semaphore?_setSemaphore_self {old : Semaphore} (h : w.semaphore? s = some old) :
    (w.setSemaphore s row).semaphore? s = some row := by
  show (w.stores.semaphores.set s.index row).get? s.index = _
  rw [Table.get?_set, if_pos rfl]
  exact congrArg (Option.map fun _ => row) h

theorem semaphore?_setSemaphore_of_ne (h : s' ≠ s) : (w.setSemaphore s row).semaphore? s' = w.semaphore? s' := by
  show (w.stores.semaphores.set s.index row).get? s'.index = _
  rw [Table.get?_set, if_neg fun he => h (congrArg SemaphoreId.mk he).symm]
  rfl

theorem tryAcquire_of_free {p : Nat} (hrow : w.semaphore? s = some ⟨p + 1, []⟩) :
    w.tryAcquire s = (true, w.setSemaphore s ⟨p, []⟩) := by
  simp only [tryAcquire, hrow, Nat.zero_lt_succ, and_self, if_true]
  rfl

theorem tryAcquire_of_taken (hrow : w.semaphore? s = some row) (h : ¬ (0 < row.permits ∧ row.waiters = [])) :
    w.tryAcquire s = (false, w) := by
  simp only [tryAcquire, hrow, if_neg h]

end Rows

/-! ## The row of a semaphore -/

/-- The row of one semaphore changes, and the books with it. -/
structure Trades (σ : Engagements) (b b' : Books) (sem : SemaphoreId) (row' : Semaphore) (w w' : World) : Prop where
  confined : w'.Confined (w'.scope σ b')
  grows : (w.scope σ b).Grows (w'.scope σ b')
  deferreds : w.stores.deferreds.size ≤ w'.stores.deferreds.size
  row : w'.semaphore? sem = some row'
  rows : ∀ s, s ≠ sem → w'.semaphore? s = w.semaphore? s

section Trades

variable {σ : Engagements} {b b' : Books} {w w' : World} {sem : SemaphoreId} {row row' : Semaphore}

/-- A change by requests that stays in the scope in which it was made. -/
theorem Calm.trades (h : w.Calm σ b) (hconfined : w'.Confined (w.scope σ b)) (hrequested : Requested w w')
    (hdeferreds : w.stores.deferreds.size ≤ w'.stores.deferreds.size)
    (hsemaphores : w.stores.semaphores.size ≤ w'.stores.semaphores.size) {added : List DeferredId}
    (hlatches : b'.latches = b.latches ++ added) (hadded : ∀ l ∈ added, w.stores.deferreds.size ≤ l.index)
    (hfresh : ∀ d row, w'.deferred? d = some row → w.stores.deferreds.size ≤ d.index → d ∉ added → row = .fresh)
    (hrow : w'.semaphore? sem = some row') (hrows : ∀ s, s ≠ sem → w'.semaphore? s = w.semaphore? s) :
    Trades σ b b' sem row' w w' := by
  obtain ⟨es, hrequests⟩ := hrequested
  have hlater := Later.requests hrequests
  have hnew : ∀ l ∈ b'.latches, l ∈ b.latches ∨ w.stores.deferreds.size ≤ l.index := fun l hl =>
    (List.mem_append.1 (hlatches ▸ hl)).imp id (hadded l)
  refine ⟨?_, scope_grows hlater hdeferreds hsemaphores hnew fun _ hf => Or.inl hf, hdeferreds, hrow, hrows⟩
  refine hconfined.rescope hlater (h.quiet.requests hrequests) hdeferreds hsemaphores hnew
    (fun l hl => hlatches ▸ List.mem_append_left _ hl) (fun d x hx hsize hd => ?_) (fun _ hf => Or.inl hf)
    (fun _ hf => Or.inl hf) fun f hf => hconfined.hidden f hf
  exact hfresh d x hx hsize fun hmem => hd (hlatches ▸ List.mem_append_right _ hmem)

/-- There is no row yet for a deferred that will be made. -/
theorem absent_of_size_le {d : DeferredId} {x : Deferred} (hx : w.deferred? d = some x) :
    ¬ w.stores.deferreds.size ≤ d.index :=
  Nat.not_le_of_lt ((Table.isSome_get?_iff _ _).1 (Option.isSome_of_eq_some hx))

theorem Calm.trades_refl (h : w.Calm σ b) (hrow : w.semaphore? sem = some row) (hlatches : b'.latches = b.latches) :
    Trades σ b b' sem row w w :=
  h.trades h.confined (.refl w) (Nat.le_refl _) (Nat.le_refl _) (hlatches.trans (List.append_nil _).symm)
    (List.forall_mem_nil _) (fun _ _ hx hsize => absurd hsize (absent_of_size_le hx)) hrow fun _ _ => rfl

theorem Calm.trades_setSemaphore (h : w.Calm σ b) (hrow : w.semaphore? sem = some row) (row' : Semaphore)
    (hlatches : b'.latches = b.latches) : Trades σ b b' sem row' w (w.setSemaphore sem row') := by
  have hin := h.confined.stores
  refine h.trades (h.confined.withStores ⟨hin.cells, hin.deferreds, hin.queues, hin.races, hin.pairings, hin.gates⟩)
    ⟨[], .one (.quiet (.stores w _))⟩ (Nat.le_refl _) (Nat.le_of_eq (Table.size_set _ _ _).symm)
    (hlatches.trans (List.append_nil _).symm) (List.forall_mem_nil _) (fun _ _ hx hsize => ?_)
    (semaphore?_setSemaphore_self hrow) fun s hs => semaphore?_setSemaphore_of_ne hs
  exact absurd hsize (absent_of_size_le (w := w) hx)

/-- A new latch joins a line. -/
theorem Calm.trades_join (h : w.Calm σ b) (hrow : w.semaphore? sem = some row) (row' : Semaphore)
    (hlatches : b'.latches = b.latches ++ [⟨w.stores.deferreds.size⟩]) :
    Trades σ b b' sem row' w (w.makeDeferred.2.setSemaphore sem row') := by
  have hin := h.confined.stores
  have hfresh (d : DeferredId) (x : Deferred) (hx : (w.stores.deferreds.push .fresh).get? d.index = some x)
      (hsize : w.stores.deferreds.size ≤ d.index) : x = .fresh := by
    rw [Table.get?_push] at hx
    split at hx
    · exact (Option.some.inj hx).symm
    · exact absurd hsize (absent_of_size_le (w := w) hx)
  refine h.trades (h.confined.withStores ⟨hin.cells, Table.forall_push hin.deferreds fun _ => List.forall_mem_nil _,
      hin.queues, hin.races, hin.pairings, hin.gates⟩) ⟨[], .one (.quiet (.stores w _))⟩ ?_
    (Nat.le_of_eq (Table.size_set _ _ _).symm) hlatches (List.forall_mem_singleton.2 (Nat.le_refl _))
    (fun d x hx hsize _ => hfresh d x hx hsize) (semaphore?_setSemaphore_self (w := w.makeDeferred.2) hrow)
    fun s hs => semaphore?_setSemaphore_of_ne (w := w.makeDeferred.2) hs
  exact Nat.le_of_lt (Nat.lt_of_lt_of_eq (Nat.lt_succ_self _) (Table.size_push _ _).symm)

end Trades

/-! ## The first in line -/

/-- Tell those who wait on a latch. -/
def wake (waiters : List (Nat × Callback)) (w : World) : World :=
  waiters.foldl (fun w waiter => w.settle waiter.2 (.value .null)) w

section Waking

variable {V : Scope} {w : World} {sem : SemaphoreId} {ws : List (Nat × Callback)} {key p : Nat} {l : DeferredId}
  {rest : List DeferredId}

theorem stores_wake (ws : List (Nat × Callback)) (w : World) : (wake ws w).stores = w.stores := by
  induction ws generalizing w with
  | nil => rfl
  | cons waiter rest ih => exact (ih _).trans (stores_settle w _ _)

theorem Confined.wake (hw : w.Confined V) (ws : List (Nat × Callback)) : (World.wake ws w).Confined V := by
  induction ws generalizing w with
  | nil => exact hw
  | cons waiter rest ih => exact ih (hw.settle waiter.2 Scope.nothing)

theorem view_wake_of_ne {g : FiberId} (h : ∀ waiter ∈ ws, waiter.2.fiber ≠ g) (w : World) (a : Activity) :
    (wake ws w).view g a = w.view g a := by
  induction ws generalizing w with
  | nil => rfl
  | cons waiter rest ih =>
    obtain ⟨hne, hrest⟩ := List.forall_mem_cons.1 h
    refine (ih hrest _).trans ?_
    rw [view, view, record_settle_of_ne hne, tokens_settle_of_ne hne]

theorem releasePermit_of_idle (hrow : w.semaphore? sem = some ⟨p, []⟩) :
    w.releasePermit sem = w.setSemaphore sem ⟨(p + 1) % wordLimit, []⟩ := by
  simp only [releasePermit, hrow, wakeFirst]

theorem releasePermit_of_pending (hrow : w.semaphore? sem = some ⟨p, l :: rest⟩)
    (hl : w.deferred? l = some (.pending ws key)) :
    w.releasePermit sem = (wake ws (w.setDeferred l (.done (.value .null)))).setSemaphore sem ⟨p, rest⟩ := by
  simp only [releasePermit, hrow, wakeFirst, completeDeferred, hl, wake]

theorem nextInLine?_of_idle (hrow : w.semaphore? sem = some ⟨p, []⟩) : w.nextInLine? sem = none := by
  rw [nextInLine?, hrow]
  rfl

theorem nextInLine?_of_pending (hrow : w.semaphore? sem = some ⟨p, l :: rest⟩)
    (hl : w.deferred? l = some (.pending ws key)) : w.nextInLine? sem = some l := by
  have hopen : w.isOpen l = true := by rw [isOpen, hl]
  rw [nextInLine?, hrow, Option.bind_some, List.find?_cons_of_pos hopen]

/-- What happened to the deferreds when the first in line was woken. -/
theorem deferred?_releasePermit_self (hrow : w.semaphore? sem = some ⟨p, l :: rest⟩)
    (hl : w.deferred? l = some (.pending ws key)) :
    (w.releasePermit sem).deferred? l = some (.done (.value .null)) := by
  rw [releasePermit_of_pending hrow hl]
  show (wake ws (w.setDeferred l _)).stores.deferreds.get? l.index = _
  rw [stores_wake]
  exact deferred?_setDeferred_self hl

theorem deferred?_releasePermit_of_ne {d : DeferredId} (hrow : w.semaphore? sem = some ⟨p, l :: rest⟩)
    (hl : w.deferred? l = some (.pending ws key)) (hd : d ≠ l) : (w.releasePermit sem).deferred? d = w.deferred? d := by
  rw [releasePermit_of_pending hrow hl]
  show (wake ws (w.setDeferred l _)).stores.deferreds.get? d.index = _
  rw [stores_wake]
  exact deferred?_setDeferred_of_ne hd

/-- The first latch in line is completed. -/
theorem Calm.trades_wake {σ : Engagements} {b b' : Books} (h : w.Calm σ b)
    (hrow : w.semaphore? sem = some ⟨p, l :: rest⟩) (hl : w.deferred? l = some (.pending ws key))
    (hlatches : b'.latches = b.latches) : Trades σ b b' sem ⟨p, rest⟩ w (w.releasePermit sem) := by
  have hin := h.confined.stores
  have hdone : World.Confined (w.scope σ b) (w.setDeferred l (.done (.value .null))) :=
    h.confined.withStores ⟨hin.cells, Table.forall_set hin.deferreds fun _ => Scope.nothing, hin.queues, hin.races,
      hin.pairings, hin.gates⟩
  have hwake := hdone.wake ws
  have hwoken := hwake.stores
  have hstores := stores_wake ws (w.setDeferred l (.done (.value .null)))
  have hsize : (w.releasePermit sem).stores.deferreds.size = w.stores.deferreds.size := by
    rw [releasePermit_of_pending hrow hl]
    exact (congrArg (Table.size ∘ Stores.deferreds) hstores).trans (Table.size_set _ _ _)
  have hsemaphores : (wake ws (w.setDeferred l (.done (.value .null)))).stores.semaphores = w.stores.semaphores :=
    (congrArg Stores.semaphores hstores).trans rfl
  have hsemaphore (s : SemaphoreId) :
      (wake ws (w.setDeferred l (.done (.value .null)))).semaphore? s = w.semaphore? s :=
    congrArg (Table.get? · s.index) hsemaphores
  have hrequested := PermitsStores.releasePermit (R := Requested) w sem
  refine h.trades ?_ hrequested (Nat.le_of_eq hsize.symm) ?_ (hlatches.trans (List.append_nil _).symm)
    (List.forall_mem_nil _) (fun d x hx hle => absurd (hsize ▸ hle) (absent_of_size_le hx)) ?_ ?_
  · rw [releasePermit_of_pending hrow hl]
    exact hwake.withStores ⟨hwoken.cells, hwoken.deferreds, hwoken.queues, hwoken.races, hwoken.pairings, hwoken.gates⟩
  · rw [releasePermit_of_pending hrow hl]
    refine Nat.le_of_eq (Eq.symm ((Table.size_set _ _ _).trans ?_))
    exact congrArg Table.size hsemaphores
  · rw [releasePermit_of_pending hrow hl]
    exact semaphore?_setSemaphore_self ((hsemaphore sem).trans hrow)
  · intro s hs
    rw [releasePermit_of_pending hrow hl]
    exact (semaphore?_setSemaphore_of_ne hs).trans (hsemaphore s)

end Waking

end World

namespace Engagement

variable {E : Engagement} {f g : FiberId} {σ : Engagements} {b b' : Books} {w w' : World} {a a' : Activity} {ask : Ask}
  {ws : List (Nat × Callback)} {p : Place} {l : DeferredId} {sem : SemaphoreId} {row row' : Semaphore}
  {new : List Booking} {done done' : DeferredId → Prop}

/-- Only the fiber itself waits on its latch. -/
theorem Acquiring.waits (h : E.Acquiring f done ask ws p) : ∀ waiter ∈ ws, waiter.2.fiber = f := by
  cases h with
  | ready | registering | answered => exact List.forall_mem_nil _
  | returned | parked | unwinding => exact List.forall_mem_singleton.2 rfl

/-- A fiber that is in the middle of nothing goes on with its acquire when its latch is completed. -/
theorem Acquiring.woken (h : E.Acquiring f done ask ws p) (hfits : Fits f (w.view f .idle) p)
    (hl : ask.latch? = some l) (hdone : ∀ d, done d → done' d) (hnew : done' l) :
    ∃ ws' q, Fits f ((w.wake ws).view f .idle) q ∧ E.Acquiring f done' ask ws' q ∧
      ∀ waiter ∈ ws', waiter.2.epoch < q.epoch := by
  obtain ⟨home, hshown⟩ := hfits.record
  have hrecord : w.record f = some (p.record home) := hshown
  have hheld : Held f p.epoch p.hook p.standing (w.tokens f) .idle := hfits.held
  cases h with
  | ready hp h => exact ⟨[], p, hfits, .ready hp (h.mono id hdone), List.forall_mem_nil _⟩
  | registering hp => exact ⟨[], p, hfits, .registering hp, List.forall_mem_nil _⟩
  | answered h hp => exact ⟨[], p, hfits, .answered (hdone _ h) hp, List.forall_mem_nil _⟩
  | returned hp =>
    rw [hp] at hheld
    generalize w.tokens f = tokens at hheld
    cases hheld
  | @parked l' key p hp =>
    cases hl
    have hphase : (p.record home).phase = .suspended (E.inner (some l)) (.waiter l key) :=
      congrArg Standing.phase hp
    obtain ⟨q, hmoves, hq⟩ := (Request.settle w ⟨f, p.epoch⟩ (.value .null)).fits hfits
    have hcallback : w.record (Callback.mk f p.epoch).fiber = some (p.record home) := hrecord
    rw [(World.settle_of_suspended hcallback rfl hphase (.value .null)).2, history_cons_self,
      history_cons_self] at hmoves
    exact ⟨[], q, hq, .answer hnew hmoves, List.forall_mem_nil _⟩
  | @unwinding l' key epoch p hepoch hrequested hp =>
    refine ⟨_, p, ?_, .unwinding hepoch hrequested hp, List.forall_mem_singleton.2 hepoch⟩
    have hcallback : w.record (Callback.mk f epoch).fiber = some (p.record home) := hrecord
    have hsame := World.settle_of_record_epoch hcallback (Nat.ne_of_gt hepoch) (.value .null)
    show Fits f ((w.settle ⟨f, epoch⟩ (.value .null)).view f .idle) p
    rw [hsame.1]
    exact hfits

end Engagement

end FiberLoop
