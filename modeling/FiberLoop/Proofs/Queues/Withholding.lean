import FiberLoop.Proofs.Permits.Nesting
import FiberLoop.Proofs.Queues.Abiding

/-!
# Latches that are withheld

While the latches of a queue are withheld, nobody can complete them but by the use of the queue. The scope
`World.withholding` says so: it hides no fiber, everybody may wait for every deferred, and only the right to complete
a latch of the queue is nobody's. `World.Withholds` is what every closure does that does not use the queue
(`Confined.withholds_call`).
-/

namespace FiberLoop

/-- Whether a closure uses a queue: takes a ticket, or changes its items or its line. -/
def Call.uses (q : QueueId) (c : Call) : Prop := c.queue? = some q ∨ c = .thunk (.perform (.requestItem q))

namespace World

/-- What may be known while some latches are withheld and one queue, or none, is not used. Nobody has the right to
complete a withheld latch, or a deferred that is not made yet. -/
def withholding (q? : Option QueueId) (L : List DeferredId) (w : World) : Scope where
  mentions
    | .deferred d => d.index < w.stores.deferreds.size ∧ d ∉ L
    | _ => True
  queue q := some q ≠ q?
  joint _ := True
  callback _ := True
  fiber _ := True
  waiter _ := True
  lines := True
  starts := True
  shields := True
  known _ _ := Or.inl trivial
  joins _ _ _ := trivial
  waits _ _ := trivial
  gates _ _ _ _ := trivial

section Withholding

variable {q? : Option QueueId} {q : QueueId} {L L' : List DeferredId} {u v w w' : World} {f : FiberId} {left : Nat} {run : Run}

theorem open_withholding (q? : Option QueueId) (L : List DeferredId) (w : World) : (w.withholding q? L).Open :=
  { joint := fun _ => trivial, callback := fun _ => trivial, lines := trivial, starts := trivial, request := trivial
    fiber := fun _ => trivial, draw := fun _ => trivial, semaphore := fun _ => trivial, through := fun _ => trivial }

theorem withholding_congr (h : w'.stores.deferreds.size = w.stores.deferreds.size) :
    w'.withholding q? L = w.withholding q? L := by
  unfold withholding
  rw [h]

/-- What may be known grows with the deferreds; a latch is withheld from its first moment on. -/
theorem withholding_grows (hsize : w.stores.deferreds.size ≤ w'.stores.deferreds.size)
    (hL : ∀ l ∈ L', l ∈ L ∨ w.stores.deferreds.size ≤ l.index) :
    (w.withholding q? L).Grows (w'.withholding q? L') := by
  refine ⟨fun d hd => ?_, fun _ => id, fun _ => id, fun _ => id, fun _ => id, id⟩
  cases d with
  | deferred d =>
    refine ⟨Nat.lt_of_lt_of_le hd.1 hsize, fun hl => ?_⟩
    rcases hL d hl with hold | hnew
    · exact hd.2 hold
    · exact Nat.lt_irrefl _ (Nat.lt_of_lt_of_le hd.1 hnew)
  | _ => trivial

theorem Confined.regrow (hw : w'.Confined (w.withholding q? L)) (hquiet : w'.TimersQuiet)
    (hgrows : (w.withholding q? L).Grows (w'.withholding q? L')) : w'.Confined (w'.withholding q? L') :=
  hw.mono hgrows hquiet (fun _ _ => Or.inl trivial) (fun _ _ _ _ => Or.inl trivial)
    (fun _ hf => absurd trivial hf) (fun _ _ _ _ hf => absurd trivial hf) fun _ _ => Or.inl trivial

/-- What is done while some latches are withheld and one queue is not used; that queue may be made. -/
structure Withholds (q? : Option QueueId) (L : List DeferredId) (w w' : World) : Prop where
  confined : w'.Confined (w'.withholding q? L)
  size : w.stores.deferreds.size ≤ w'.stores.deferreds.size
  polls : ∀ l ∈ L, w'.pollDeferred l = w.pollDeferred l
  queue : ∀ q ∈ q?, w'.queue? q = w.queue? q ∨
    w.queue? q = none ∧ ∃ policy gate, w'.queue? q = some { policy := policy, gate := gate }

theorem Withholds.grows (h : w.Withholds q? L w') : (w.withholding q? L).Grows (w'.withholding q? L) :=
  withholding_grows h.size fun _ hl => Or.inl hl

theorem Abides.withholds (h : w.Abides (w.withholding q? L) w') : w.Withholds q? L w' where
  confined := withholding_congr h.size ▸ h.confined
  size := Nat.le_of_eq h.size.symm
  polls l hl := h.polls l fun hd => hd.2 hl
  queue q hq := Or.inl (h.queues q fun hne => hne hq.symm)

theorem Withholds.abides (h : u.Withholds q? L v) (h' : v.Abides (v.withholding q? L) w) : u.Withholds q? L w :=
  have hlast := h'.withholds
  ⟨hlast.confined, Nat.le_trans h.size hlast.size, fun l hl => (hlast.polls l hl).trans (h.polls l hl), by
    intro q hq
    have hsame : w.queue? q = v.queue? q := h'.queues q fun hne => hne hq.symm
    rw [hsame]
    exact h.queue q hq⟩

/-! ## What is new -/

/-- A try without success changes nothing. -/
theorem tryAcquire_of_false {s : SemaphoreId} (h : w.tryAcquire s = (false, v)) : v = w := by
  unfold World.tryAcquire at h
  split at h
  · split at h
    · cases h
    · cases h
      rfl
  · cases h
    rfl

section New

variable (hw : w.Confined (w.withholding q? L)) (hquiet : w.TimersQuiet)
  (hL : ∀ l ∈ L, l.index < w.stores.deferreds.size)

include hw

/-- A new queue. -/
theorem Confined.withholds_pushQueue (policy : Overflow) (gate : Option SemaphoreId) :
    w.Withholds q? L { w with stores := { w.stores with
      queues := w.stores.queues.push { policy := policy, gate := gate } } } := by
  have hpush : World.Confined (w.withholding q? L) { w with stores := { w.stores with
      queues := w.stores.queues.push { policy := policy, gate := gate } } } :=
    hw.withStores (hw.stores.pushQueue policy fun _ => trivial)
  refine ⟨hpush, Nat.le_refl _, fun _ _ => rfl, fun q _ => ?_⟩
  have hrow := Table.get?_push w.stores.queues { policy := policy, gate := gate } q.index
  split at hrow
  · rename_i hq
    exact Or.inr ⟨Option.not_isSome_iff_eq_none.1 fun hsome =>
      Nat.lt_irrefl _ (hq ▸ (Table.isSome_get?_iff _ _).1 hsome), policy, gate, hrow⟩
  · exact Or.inl hrow

theorem Confined.withholds_makeQueue (policy : Overflow) : w.Withholds q? L (w.makeQueue policy).2 := by
  unfold World.makeQueue
  cases policy with
  | bounded n =>
    have hgate : w.Abides (w.withholding q? L) (w.makeSemaphore n).2 := hw.abides_semaphores _
    have hpush := hgate.withholds.confined.withholds_pushQueue (.bounded n) (some (w.makeSemaphore n).1)
    exact ⟨hpush.confined, hpush.size, hpush.polls, hpush.queue⟩
  | _ => exact hw.withholds_pushQueue _ none

include hquiet

theorem Confined.makeDeferred (hL' : ∀ l ∈ L', l ∈ L ∨ w.stores.deferreds.size ≤ l.index) :
    w.makeDeferred.2.Confined (w.makeDeferred.2.withholding q? L') := by
  have hpush : w.makeDeferred.2.Confined (w.withholding q? L) := hw.withStores
    ⟨hw.stores.cells, Table.forall_push hw.stores.deferreds fun _ => List.forall_mem_nil _, hw.stores.queues,
      hw.stores.races, hw.stores.pairings, hw.stores.gates⟩
  refine hpush.regrow ⟨hquiet.loop, hquiet.aside⟩ (withholding_grows ?_ hL')
  exact Nat.le_of_lt (Nat.lt_of_lt_of_eq (Nat.lt_succ_self _) (Table.size_push _ _).symm)

include hL

theorem Confined.withholds_makeDeferred : w.Withholds q? L w.makeDeferred.2 := by
  refine ⟨hw.makeDeferred hquiet fun _ hl => Or.inl hl, ?_, fun l hl => ?_, fun _ _ => Or.inl rfl⟩
  · exact Nat.le_of_lt (Nat.lt_of_lt_of_eq (Nat.lt_succ_self _) (Table.size_push _ _).symm)
  · exact congrArg (Option.bind · Deferred.exit?) ((Table.get?_push ..).trans (if_neg (Nat.ne_of_lt (hL l hl))))

omit hw hquiet in
/-- A new deferred may be completed. -/
theorem mentions_makeDeferred : (w.makeDeferred.2.withholding q? L).mentions (.deferred w.makeDeferred.1) :=
  ⟨Nat.lt_of_lt_of_eq (Nat.lt_succ_self _) (Table.size_push _ _).symm, fun hl => Nat.lt_irrefl _ (hL _ hl)⟩

theorem Confined.withholds_requestPermit (s : SemaphoreId) :
    w.Withholds q? L (w.requestPermit s).2 ∧ (w.requestPermit s).1.In (w.withholding q? L) := by
  have hacquire := hw.abides_tryAcquire s
  unfold World.requestPermit
  split
  · rename_i v hresult
    rw [hresult] at hacquire
    exact ⟨hacquire.withholds, Value.in_ticket Scope.nothing (List.forall_mem_singleton.2 trivial)⟩
  · rename_i v hresult
    rw [hresult] at hacquire
    refine ⟨?_, Value.in_ticket (List.forall_mem_singleton.2 trivial)
      (List.forall_mem_cons.2 ⟨trivial, List.forall_mem_singleton.2 trivial⟩)⟩
    obtain rfl : v = w := tryAcquire_of_false hresult
    have hmake := hw.withholds_makeDeferred hquiet hL
    unfold World.joinLine
    dsimp only
    split
    · exact hmake.abides (hmake.confined.abides_semaphores _)
    · exact hmake

/-- A request for an item of another queue. -/
theorem Confined.withholds_requestItem (hq : some q ≠ q?) :
    w.Withholds q? L (w.requestItem q).2 ∧ (w.requestItem q).1.In (w.withholding q? L) := by
  unfold World.requestItem
  split
  · rename_i item items hstate
    obtain ⟨row, hrow, hready⟩ := Option.map_eq_some_iff.1 hstate
    have hin := hw.stores.queues q.index row hrow
    rw [hready] at hin
    obtain ⟨hitem, hitems⟩ := List.forall_mem_cons.1 hin
    exact ⟨(hw.stays_setQueueState hq (.ready items) hitems).abides.withholds,
      Value.in_grantedItem trivial hitem⟩
  · refine ⟨?_, Value.in_awaitedItem trivial trivial⟩
    have hmake := hw.withholds_makeDeferred hquiet hL
    have hnew : (w.makeDeferred.2.withholding q? L).mentions (.deferred w.makeDeferred.1) := mentions_makeDeferred hL
    unfold World.joinQueue
    dsimp only
    split
    · rename_i latches hstate
      obtain ⟨row, hrow, hline⟩ := Option.map_eq_some_iff.1 hstate
      have hin := hmake.confined.stores.queues q.index row hrow
      rw [hline] at hin
      exact hmake.abides (hmake.confined.stays_setQueueState hq (.waiting _) fun hused =>
        List.forall_mem_append.2 ⟨hin hused, List.forall_mem_singleton.2 hnew⟩).abides
    · exact hmake.abides (hmake.confined.stays_setQueueState hq (.waiting _) fun _ =>
        List.forall_mem_singleton.2 hnew).abides
    · exact hmake

end New

/-- The lines of the semaphores, with nobody's latch that is withheld. -/
def Unlined (L : List DeferredId) (w : World) : Prop :=
  ∀ s row, w.semaphore? s = some row → ∀ l ∈ row.waiters, l.index < w.stores.deferreds.size ∧ l ∉ L

/-! ## Calls -/

theorem Confined.withholds_call (hw : w.Confined (w.withholding q? L)) (hquiet : w.TimersQuiet)
    (hL : ∀ l ∈ L, l.index < w.stores.deferreds.size) (hlines : w.Unlined L) {c : Call} (hc : c.In (w.withholding q? L))
    (huses : ∀ q ∈ q?, ¬ c.uses q) (run : Run) :
    w.Withholds q? L (w.called c run).2 ∧ (w.called c run).1.next.In ((w.called c run).2.withholding q? L) := by
  by_cases hordinary : c.isOrdinary = true
  · obtain ⟨hstays, hresult⟩ :=
      Confining.caught (Tracks.call (J := Confining (w.withholding q? L)) hc (fun q hq he => huses q he.symm (Or.inl hq)) hordinary) hw
    have hwithholds := hstays.abides.withholds
    refine ⟨hwithholds, ?_⟩
    simp only [called]
    cases hnext : (c.act.caught w).1 with
    | ok next => exact fun d hd => hwithholds.grows.mentions d (hresult next hnext d hd)
    | error d => exact Scope.nothing
  · cases c with
    | thunk t =>
      cases t with
      | perform o =>
        cases o with
        | makeDeferred =>
          exact ⟨hw.withholds_makeDeferred hquiet hL, List.forall_mem_singleton.2 (mentions_makeDeferred hL)⟩
        | makeSemaphore n => exact ⟨(hw.abides_semaphores _).withholds, List.forall_mem_singleton.2 trivial⟩
        | makeQueue policy => exact ⟨hw.withholds_makeQueue policy, List.forall_mem_singleton.2 trivial⟩
        | requestPermit s =>
          obtain ⟨hwithholds, hticket⟩ := hw.withholds_requestPermit hquiet hL s
          exact ⟨hwithholds, fun d hd => hwithholds.grows.mentions d (hticket d hd)⟩
        | tryAcquire s => exact ⟨(hw.abides_tryAcquire s).withholds, Scope.nothing⟩
        | releasePermit s => exact ⟨(hw.abides_releasePermit (hlines s)).withholds, Scope.nothing⟩
        | abandonPermit s latch => exact ⟨(hw.abides_abandonPermit (hlines s) latch).withholds, Scope.nothing⟩
        | requestItem q =>
          obtain ⟨hwithholds, hticket⟩ := hw.withholds_requestItem hquiet hL fun he => huses q he.symm (Or.inr rfl)
          exact ⟨hwithholds, fun d hd => hwithholds.grows.mentions d (hticket d hd)⟩
        | _ => exact absurd rfl hordinary
      | _ => exact absurd rfl hordinary
    | _ => exact absurd rfl hordinary

end Withholding

end World

/-! ## Runs -/

/-- A latch joins the line of a semaphore when it is made. -/
theorem Books.latches_record {b : Books} {f : FiberId} {c : Call} {w : World} :
    ∀ l ∈ (b.record f c w).latches, l ∈ b.latches ∨
      w.stores.deferreds.size ≤ l.index ∧ ∃ s, c = .thunk (.perform (.requestPermit s)) := by
  have hwrite (s : SemaphoreId) (new : List Booking) (b' : Books) (hb : b'.latches = b.latches)
      (hnew : Semaphore.joined new = []) : ∀ l ∈ (b'.write s new).latches, l ∈ b.latches ∨
        w.stores.deferreds.size ≤ l.index ∧ ∃ s, c = .thunk (.perform (.requestPermit s)) := by
    intro l hl
    rw [latches_write, hnew, List.append_nil, hb] at hl
    exact Or.inl hl
  have hdelivered (e : Booking) (he : e.joins? = none) (s : SemaphoreId) :
      Semaphore.joined (e :: (w.nextInLine? s).toList.map .delivered) = [] := by
    rw [Semaphore.joined, List.filterMap_cons_none he]
    cases w.nextInLine? s <;> rfl
  unfold Books.record
  split
  · split
    · exact hwrite _ _ b rfl rfl
    · exact fun _ hl => Or.inl hl
  · rename_i s
    split
    · exact hwrite _ _ _ rfl rfl
    · intro l hl
      rw [latches_write] at hl
      rcases List.mem_append.1 hl with hl | hl
      · exact Or.inl hl
      · obtain rfl : l = ⟨w.stores.deferreds.size⟩ := by simpa [Semaphore.joined, Booking.joins?] using hl
        exact Or.inr ⟨Nat.le_refl _, s, rfl⟩
  · split
    · exact hwrite _ _ _ rfl (hdelivered _ rfl _)
    · exact hwrite _ _ b rfl (hdelivered _ rfl _)
  · split
    · exact hwrite _ _ _ rfl rfl
    · split
      · exact hwrite _ _ _ rfl (hdelivered _ rfl _)
      · exact fun _ hl => Or.inl hl
  · split
    · exact fun _ hl => Or.inl hl
    · split
      · exact fun _ hl => Or.inl hl
      · exact hwrite _ _ _ rfl rfl
  · exact fun _ hl => Or.inl hl

/-- Whoever waits in the line of a semaphore does so with a latch of the books. -/
theorem Recorded.unlined {b : Books} {s : Scene} (h : Recorded b s) {L : List DeferredId} (hapart : ∀ l ∈ L, l ∉ b.latches) :
    s.moment.world.Unlined L := by
  obtain ⟨σ, horderly⟩ := h.orderly
  intro sem row hrow l hl
  obtain ⟨c, hc, -, hlatch⟩ := horderly.books.owned sem row hrow l hl
  have hmem := horderly.books.claimed c hc l hlatch
  exact ⟨horderly.books.latches l hmem, fun hL => hapart l hL hmem⟩

namespace Scene

variable {s : Scene} {q? : Option QueueId} {L : List DeferredId} {b : Books} {f : FiberId} {c : Call} {run : Run}
  {stroke : Stroke} {left : Nat} {stand : Stand}

/-- The closure that a stroke calls, with the fiber that calls it and the run in which it goes on. -/
def calls? (s : Scene) (stroke : Stroke) : Option (FiberId × Run × Call) :=
  match stroke, s.moment.activity with
  | .next, .running f (_ + 1) stand =>
    match stand.deed with
    | .call c run => if s.moment.world.cuts f c run then none else some (f, run, c)
    | _ => none
  | _, _ => none

/-- A scene of a run in which some latches are withheld. -/
structure Withheld (q? : Option QueueId) (L : List DeferredId) (b : Books) (s : Scene) : Prop where
  recorded : Recorded b s
  within : s.moment.Within (s.moment.world.withholding q? L)
  kept : ∀ e ∈ s.kept, e.In (s.moment.world.withholding q? L)
  made : ∀ l ∈ L, l.index < s.moment.world.stores.deferreds.size
  apart : ∀ l ∈ L, l ∉ b.latches

theorem calls?_of_deed (hstand : s.moment.activity = .running f (left + 1) stand) (hdeed : stand.deed = .call c run)
    (hcuts : s.moment.world.cuts f c run = false) : s.calls? .next = some (f, run, c) := by
  simp [calls?, hstand, hdeed, hcuts]

/-- Where a closure is called. -/
theorem of_calls? (h : s.calls? stroke = some (f, run, c)) :
    stroke = .next ∧ ∃ left stand, s.moment.activity = .running f (left + 1) stand ∧ stand.deed = .call c run ∧
      s.moment.world.cuts f c run = false := by
  unfold calls? at h
  split at h
  · rename_i g left stand hstand
    split at h
    · rename_i c' run' hdeed
      split at h
      · cases h
      · rename_i hcuts
        cases h
        exact ⟨rfl, left, stand, hstand, hdeed, Bool.eq_false_iff.2 hcuts⟩
    · cases h
  · cases h

/-- The moment after a closure was called. -/
theorem moment_of_calls? (h : s.calls? stroke = some (f, run, c)) :
    ∃ left, (s.play stroke).moment = ⟨(s.moment.world.called c run).2, .running f left (s.moment.world.called c run).1⟩ ∧
      (s.play stroke).kept = s.kept := by
  obtain ⟨rfl, left, stand, hstand, hdeed, hcuts⟩ := of_calls? h
  exact ⟨left, (play_of_call hstand {} hdeed hcuts).1, rfl⟩

/-- What a stroke calls is booked. -/
theorem book_of_calls? (b : Books) (h : s.calls? stroke = some (f, run, c)) :
    s.book stroke b = b.record f c s.moment.world := by
  obtain ⟨rfl, left, stand, hstand, hdeed, hcuts⟩ := of_calls? h
  exact (play_of_call hstand b hdeed hcuts).2

theorem book_of_no_call (b : Books) (h : s.calls? stroke = none) : s.book stroke b = b := by
  cases hstep : s.stepper? stroke with
  | none => exact book_of_quiet hstep
  | some f =>
    obtain ⟨rfl, left, stand, hstand⟩ := of_stepper? hstep
    cases hdeed : stand.deed with
    | call c run =>
      cases hcuts : s.moment.world.cuts f c run with
      | true => simp only [book, hstand, hdeed, hcuts, if_true]
      | false => cases (calls?_of_deed hstand hdeed hcuts).symm.trans h
    | move s' => simp only [book, hstand, hdeed]
    | register r => simp only [book, hstand, hdeed]
    | exit x => simp only [book, hstand, hdeed]

theorem latches_book (s : Scene) (stroke : Stroke) (b : Books) : ∀ l ∈ (s.book stroke b).latches, l ∈ b.latches ∨
    s.moment.world.stores.deferreds.size ≤ l.index ∧
      ∃ f run sem, s.calls? stroke = some (f, run, .thunk (.perform (.requestPermit sem))) := by
  cases hcalls : s.calls? stroke with
  | none =>
    rw [book_of_no_call b hcalls]
    exact fun _ hl => Or.inl hl
  | some call =>
    obtain ⟨f, run, c⟩ := call
    rw [book_of_calls? b hcalls]
    intro l hl
    rcases Books.latches_record l hl with hold | ⟨hnew, sem, rfl⟩
    · exact Or.inl hold
    · exact Or.inr ⟨hnew, f, run, sem, rfl⟩

theorem Withheld.quiet (h : s.Withheld q? L b) : s.moment.world.TimersQuiet := by
  obtain ⟨σ, horderly⟩ := h.recorded.orderly
  exact horderly.quiet

/-- What is asked for from outside uses no queue. -/
theorem Withheld.demand (h : s.Withheld q? L b) (d : Demand) :
    s.moment.world.Withholds q? L ((d.act s.kept).run s.moment.world).2 ∧
      ∀ more, ((d.act s.kept).run s.moment.world).1 = .ok more →
        ∀ e ∈ more, e.In (((d.act s.kept).run s.moment.world).2.withholding q? L) := by
  have hw := h.within.confined
  by_cases hordinary : d.isOrdinary = true
  · obtain ⟨hstays, hresult⟩ := (Tracks.demand (J := Confining (s.moment.world.withholding q? L)) h.kept hordinary) _ hw
    have hwithholds := hstays.abides.withholds
    exact ⟨hwithholds, fun more hmore e he d hd => hwithholds.grows.mentions d (hresult more hmore e he d hd)⟩
  · have hnone (w : World) : ∀ more : List Effect, (.ok [] : Except Defect (List Effect)) = .ok more →
        ∀ e ∈ more, e.In (w.withholding q? L) := by
      rintro more ⟨⟩
      exact List.forall_mem_nil _
    have hset {w : World} (hwithholds : s.moment.world.Withholds q? L w) (name : Name) {v : Value}
        (hv : v.In (w.withholding q? L)) : s.moment.world.Withholds q? L (w.setGlobal name v) :=
      hwithholds.abides ((Tracks.setGlobal (J := Confining (w.withholding q? L)) name hv) w hwithholds.confined).1.abides
    cases d with
    | scenario op =>
      cases op with
      | newDeferred name =>
        exact ⟨hset (hw.withholds_makeDeferred h.quiet h.made) name
          (List.forall_mem_singleton.2 (World.mentions_makeDeferred h.made)), hnone _⟩
      | newSemaphore name n =>
        exact ⟨hset (hw.abides_semaphores _).withholds name (List.forall_mem_singleton.2 trivial), hnone _⟩
      | newQueue name policy =>
        exact ⟨hset (hw.withholds_makeQueue policy) name (List.forall_mem_singleton.2 trivial), hnone _⟩
      | _ => exact absurd rfl hordinary
    | _ => exact absurd rfl hordinary

/-- The next moment, unless the queue is used. -/
theorem Withheld.next (h : s.Withheld q? L b)
    (huses : ∀ f run c, s.calls? .next = some (f, run, c) → ∀ q ∈ q?, ¬ c.uses q) :
    s.moment.world.Withholds q? L s.moment.next.world ∧
      s.moment.next.activity.In (s.moment.next.world.withholding q? L) := by
  by_cases hcall : ∃ f run c, s.calls? .next = some (f, run, c)
  · obtain ⟨f, run, c, hcalls⟩ := hcall
    have huses' := huses f run c hcalls
    obtain ⟨-, left, stand, hstand, hdeed, hcuts⟩ := of_calls? hcalls
    obtain ⟨hmoment, -⟩ := play_of_call hstand b hdeed hcuts
    have hmoment' : s.moment.next = ⟨(s.moment.world.called c run).2, .running f left (s.moment.world.called c run).1⟩ :=
      hmoment
    have hactivity := h.within.activity
    rw [hstand] at hactivity
    obtain ⟨hrun, hnext⟩ := hactivity trivial
    obtain ⟨hc, hrest⟩ := Stand.in_of_call hrun hnext hdeed
    obtain ⟨hwithholds, hresult⟩ :=
      h.within.confined.withholds_call h.quiet h.made (h.recorded.unlined h.apart) hc huses' run
    rw [hmoment']
    exact ⟨hwithholds, fun _ => ⟨fun d hd => hwithholds.grows.mentions d (hrest d hd), hresult⟩⟩
  · have hleads := h.within.next (World.open_withholding q? L s.moment.world) h.quiet
      fun f left stand c run hstand hdeed hcuts => absurd ⟨f, run, c, calls?_of_deed hstand hdeed hcuts⟩ hcall
    exact ⟨hleads.abides.withholds, World.withholding_congr hleads.abides.size ▸ hleads.activity⟩

/-- What is done between two tasks. -/
theorem Withheld.between (h : s.Withheld q? L b) (change : World → World)
    (habides : s.moment.world.Abides (s.moment.world.withholding q? L) (change s.moment.world)) :
    s.moment.world.Withholds q? L (s.between change).moment.world ∧
      (s.between change).moment.activity.In ((s.between change).moment.world.withholding q? L) ∧
      (s.between change).kept = s.kept := by
  have hstay : s.moment.world.Withholds q? L s.moment.world := (World.Abides.refl h.within.confined).withholds
  have hactivity := h.within.activity
  unfold Scene.between
  split
  · exact ⟨habides.withholds, trivial, rfl⟩
  · exact ⟨hstay, hactivity, rfl⟩

/-- **A stroke that does not use the queue leaves its latches withheld.** -/
theorem Withheld.play (h : s.Withheld q? L b)
    (huses : ∀ f run c, s.calls? stroke = some (f, run, c) → ∀ q ∈ q?, ¬ c.uses q) :
    (s.play stroke).Withheld q? L (s.book stroke b) ∧ s.moment.world.Withholds q? L (s.play stroke).moment.world := by
  have hw := h.within.confined
  have hall : s.moment.world.Withholds q? L (s.play stroke).moment.world ∧
      (s.play stroke).moment.activity.In ((s.play stroke).moment.world.withholding q? L) ∧
      ∀ e ∈ (s.play stroke).kept, e ∈ s.kept ∨ e.In ((s.play stroke).moment.world.withholding q? L) := by
    cases stroke with
    | next =>
      obtain ⟨hwithholds, hactivity⟩ := h.next huses
      exact ⟨hwithholds, hactivity, fun _ he => Or.inl he⟩
    | fire =>
      obtain ⟨hwithholds, hactivity, hkept⟩ := h.between (fun w => if w.loop.stopped then w else w.fireDue) (by
        split
        · exact .refl hw
        · exact hw.abides_fireDue h.quiet)
      exact ⟨hwithholds, hactivity, fun _ he => Or.inl (hkept ▸ he)⟩
    | switch =>
      obtain ⟨hwithholds, hactivity, hkept⟩ := h.between World.switch (.of_stores
        (hw.besides hw.aside hw.loop hw.stores hw.session _ s.moment.world.clock s.moment.world.caughtThrows) rfl)
      exact ⟨hwithholds, hactivity, fun _ he => Or.inl (hkept ▸ he)⟩
    | clock time =>
      obtain ⟨hwithholds, hactivity, hkept⟩ := h.between (fun w => { w with clock := time }) (.of_stores
        (hw.besides hw.loop hw.aside hw.stores hw.session _ time s.moment.world.caughtThrows) rfl)
      exact ⟨hwithholds, hactivity, fun _ he => Or.inl (hkept ▸ he)⟩
    | demand d =>
      obtain ⟨hwithholds, hresult⟩ := h.demand d
      have hactivity : s.moment.activity.In (((d.act s.kept).run s.moment.world).2.withholding q? L) :=
        h.within.activity.mono hwithholds.grows fun f _ hf => hf
      simp only [Scene.play]
      cases hrun : (d.act s.kept).run s.moment.world with
      | mk result v =>
        rw [hrun] at hwithholds hresult hactivity
        cases result with
        | ok more =>
          exact ⟨hwithholds, hactivity, fun e he => (List.mem_append.1 he).imp_right (hresult more rfl e)⟩
        | error defect => exact ⟨hwithholds, hactivity, fun _ he => Or.inl he⟩
  obtain ⟨hwithholds, hactivity, hkept⟩ := hall
  refine ⟨⟨h.recorded.play stroke, ⟨hwithholds.confined, hactivity⟩, fun e he => ?_, fun l hl => ?_, fun l hl hl' => ?_⟩,
    hwithholds⟩
  · rcases hkept e he with hold | hnew
    · exact fun d hd => hwithholds.grows.mentions d (h.kept e hold d hd)
    · exact hnew
  · exact Nat.lt_of_lt_of_le (h.made l hl) hwithholds.size
  · rcases s.latches_book stroke b l hl' with hold | hnew
    · exact h.apart l hl hold
    · exact Nat.lt_irrefl _ (Nat.lt_of_lt_of_le (h.made l hl) hnew.1)

end Scene

end FiberLoop
