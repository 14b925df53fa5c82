import FiberLoop.Proofs.Permits.Orderly

/-!
# Entries in the books

One fiber at a time adds to the books: it is handed a ticket, its ticket serves its purpose, and what happens to the
permits is written down. `Books.Adds` says what that leaves alone, and `Books.Ticketed` is kept: each ticket is held
or has served its purpose.
-/

namespace FiberLoop

namespace Books

variable {σ : Engagements} {b b' : Books} {c c' : Claim} {f g : FiberId} {s sem : SemaphoreId} {new rest : List Booking}
  {e : Booking} {l : DeferredId} {start : Nat}

/-! ## What is held -/

theorem claim?_hold_self : (b.hold c).claim? c.fiber = some c := List.find?_cons_of_pos (decide_eq_true rfl)

theorem claim?_hold_of_ne (h : c.fiber ≠ g) : (b.hold c).claim? g = b.claim? g :=
  List.find?_cons_of_neg fun he => h (of_decide_eq_true he)

theorem claim?_drop_of_ne (h : g ≠ f) : (b.drop f).claim? g = b.claim? g := by
  show (b.claims.eraseP (·.fiber = f)).find? (·.fiber = g) = b.claims.find? (·.fiber = g)
  induction b.claims with
  | nil => rfl
  | cons c rest ih =>
    by_cases hc : c.fiber = f
    · have hg : ¬ c.fiber = g := fun he => h (he.symm.trans hc)
      simp only [List.eraseP_cons, hc, decide_true, cond_true, List.find?_cons, Ne.symm h, decide_false]
    · simp only [List.eraseP_cons, hc, decide_false, cond_false, List.find?_cons, ih]

/-- A cleanup that begins is noted on the ticket. -/
theorem claim?_beginUndo (g : FiberId) : (b.beginUndo f).claim? g =
    (b.claim? g).map fun c => if c.fiber = f then { c with undoing := true } else c := by
  have hfiber : ((fun c : Claim => decide (c.fiber = g)) ∘ fun c : Claim =>
      if c.fiber = f then { c with undoing := true } else c) = fun c => decide (c.fiber = g) := by
    funext c
    by_cases hc : c.fiber = f <;> simp [hc]
  show List.find? _ (List.map _ _) = _
  rw [List.find?_map, hfiber]
  rfl

theorem fiber_of_claim? (h : b.claim? f = some c) : c.fiber = f := by
  have hfound := List.find?_some h
  exact of_decide_eq_true hfound

/-- A ticket that is no longer held was one of those that were. -/
theorem claims_perm (h : b.claim? f = some c) : b.claims.Perm (c :: (b.drop f).claims) := by
  obtain ⟨hc, before, after, hclaims, hbefore⟩ := List.find?_eq_some_iff_append.1 h
  have hneg : ∀ c' ∈ before, ¬ decide (c'.fiber = f) = true := fun c' hc' he => by
    have hnot := hbefore c' hc'
    rw [he] at hnot
    cases hnot
  have hdrop : (b.drop f).claims = before ++ after := by
    show b.claims.eraseP _ = _
    rw [hclaims, List.eraseP_append_right _ hneg, List.eraseP_cons, hc, cond_true]
  rw [hdrop, hclaims]
  exact List.perm_middle

namespace Ticketed

/-- Whoever holds a ticket is known by it. -/
theorem claim?_of_mem (h : b.Ticketed σ) (hc : c ∈ b.claims) : b.claim? c.fiber = some c := by
  cases hclaim : b.claim? c.fiber with
  | none => exact absurd (decide_eq_true rfl) (List.find?_eq_none.1 hclaim c hc)
  | some c' =>
    have hmem := List.mem_of_find?_eq_some hclaim
    have hfibers : (b.claims.filterMap fun c => some c.fiber).Nodup := List.filterMap_eq_map' ▸ h.fibers
    exact congrArg some (eq_of_nodup_filterMap hfibers hmem hc (congrArg some (fiber_of_claim? hclaim)) rfl)

theorem claim?_of_free (h : b.Ticketed σ) (hf : σ f = none) : b.claim? f = none :=
  List.find?_eq_none.2 fun c hc he => h.engaged c hc ((of_decide_eq_true he) ▸ hf)

/-- No two tickets have the same latch. -/
theorem unique (h : b.Ticketed σ) (hc : c ∈ b.claims) (hc' : c' ∈ b.claims) (hl : c.latch? = some l)
    (hl' : c'.latch? = some l) : c = c' := eq_of_nodup_filterMap h.tickets hc hc' hl hl'

theorem of_mem_drop (h : b.Ticketed σ) (hc : b.claim? f = some c) (hmem : c' ∈ (b.drop f).claims) :
    c' ∈ b.claims ∧ c'.fiber ≠ f := by
  have hperm := claims_perm hc
  refine ⟨hperm.symm.subset (List.mem_cons_of_mem _ hmem), fun he => ?_⟩
  have hfibers := (hperm.map Claim.fiber).nodup_iff.1 h.fibers
  rw [List.map_cons, fiber_of_claim? hc] at hfibers
  exact (List.nodup_cons.1 hfibers).1 (List.mem_map.2 ⟨c', hmem, he⟩)

theorem mem_drop (h : b.claim? f = some c) (hmem : c' ∈ b.claims) (hne : c' ≠ c) : c' ∈ (b.drop f).claims :=
  (List.mem_cons.1 ((claims_perm h).subset hmem)).resolve_left hne

theorem claim?_drop_self (h : b.Ticketed σ) (hc : b.claim? f = some c) : (b.drop f).claim? f = none :=
  List.find?_eq_none.2 fun _ hmem he => (h.of_mem_drop hc hmem).2 (of_decide_eq_true he)

end Ticketed

/-! ## What is written down -/

/-- What one fiber adds to the books. -/
structure Adds (f : FiberId) (sem : SemaphoreId) (new : List Booking) (b b' : Books) : Prop where
  entries : b'.entries = b.entries ++ new.map (sem, ·)
  mine : ∀ e ∈ new, ∀ g, e.fiber? = some g → g = f
  others : ∀ g, g ≠ f → b'.claim? g = b.claim? g

theorem filterMap_entries (new : List Booking) (k : Booking → Option DeferredId) :
    (new.map (sem, ·)).filterMap (k ·.2) = new.filterMap k := List.filterMap_map

namespace Adds

theorem refl (b : Books) : Adds f sem [] b b :=
  ⟨(List.append_nil _).symm, List.forall_mem_nil _, fun _ _ => rfl⟩

variable (h : Adds f sem new b b')

include h

theorem of_self : b'.of sem = b.of sem ++ new := by
  unfold Books.of
  rw [h.entries, List.filterMap_append, List.filterMap_map]
  simp [Function.comp_def]

theorem of_ne (hs : s ≠ sem) : b'.of s = b.of s := by
  unfold Books.of
  rw [h.entries, List.filterMap_append, List.filterMap_map]
  simp [Ne.symm hs]

theorem latches : b'.latches = b.latches ++ Semaphore.joined new := by
  unfold Books.latches
  rw [h.entries, List.filterMap_append, filterMap_entries]
  rfl

theorem length_le : b.entries.length ≤ b'.entries.length := by
  rw [h.entries, List.length_append]
  exact Nat.le_add_right _ _

/-- A permit that was granted to a latch before, if the latch has not left the line since. -/
theorem delivered_old (hl : b'.delivered s l) (hstays : l ∉ Semaphore.left new) : b.delivered s l := by
  by_cases hs : s = sem
  · subst hs
    rw [Books.delivered, h.of_self] at hl
    refine (List.mem_append.1 hl).resolve_right fun hnew => hstays ?_
    exact List.mem_filterMap.2 ⟨_, hnew, rfl⟩
  · rwa [Books.delivered, h.of_ne hs] at hl

theorem delivered (hl : b.delivered s l) : b'.delivered s l := by
  by_cases hs : s = sem
  · subst hs
    rw [Books.delivered, h.of_self]
    exact List.mem_append_left new hl
  · rwa [Books.delivered, h.of_ne hs]

theorem since (g : FiberId) (hstart : start ≤ b.entries.length) :
    b'.since g start = b.since g start ++ (new.filter (·.fiber? = some g)).map (sem, ·) := by
  unfold Books.since
  rw [h.entries, List.drop_append_of_le_length hstart, List.filter_append, List.filter_map]
  rfl

theorem since_of_ne (hg : g ≠ f) (hstart : start ≤ b.entries.length) : b'.since g start = b.since g start := by
  have hnone : new.filter (·.fiber? = some g) = [] :=
    List.filter_eq_nil_iff.2 fun e he hfiber => hg (h.mine e he g (of_decide_eq_true hfiber))
  rw [h.since g hstart, hnone, List.map_nil, List.append_nil]

end Adds

theorem mine_singleton (he : e.fiber? = some f) : ∀ e' ∈ [e], ∀ g, e'.fiber? = some g → g = f :=
  List.forall_mem_singleton.2 fun _ hg => (Option.some.inj (he.symm.trans hg)).symm

/-- A permit comes back through a fiber, and nobody else does anything. -/
theorem mine_putBack (he : e.fiber? = some f) (next : Option DeferredId) :
    ∀ e' ∈ e :: next.toList.map Booking.delivered, ∀ g, e'.fiber? = some g → g = f := by
  refine List.forall_mem_cons.2 ⟨fun g hg => (Option.some.inj (he.symm.trans hg)).symm, fun e' he' g hg => ?_⟩
  obtain ⟨l, -, rfl⟩ := List.mem_map.1 he'
  cases hg

/-- Something is written down. -/
theorem adds_write (hmine : ∀ e ∈ new, ∀ g, e.fiber? = some g → g = f) : Adds f sem new b (b.write sem new) :=
  ⟨rfl, hmine, fun _ _ => rfl⟩

/-- A ticket is handed out. -/
theorem adds_hold (hc : c.fiber = f) (hmine : ∀ e ∈ new, ∀ g, e.fiber? = some g → g = f) :
    Adds f sem new b ((b.hold c).write sem new) :=
  ⟨rfl, hmine, fun _ hg => claim?_hold_of_ne fun he => hg (he.symm.trans hc)⟩

/-- A ticket serves its purpose. -/
theorem adds_drop (hmine : ∀ e ∈ new, ∀ g, e.fiber? = some g → g = f) : Adds f sem new b ((b.drop f).write sem new) :=
  ⟨rfl, hmine, fun _ hg => claim?_drop_of_ne hg⟩

/-- A cleanup begins. -/
theorem adds_beginUndo : Adds f sem [] b (b.beginUndo f) := by
  refine ⟨(List.append_nil _).symm, List.forall_mem_nil _, fun g hg => ?_⟩
  rw [claim?_beginUndo]
  cases hclaim : b.claim? g with
  | none => rfl
  | some c => rw [Option.map_some, if_neg fun he => hg ((fiber_of_claim? hclaim).symm.trans he)]

/-- Why a fiber that calls a closure writes something down for a semaphore. -/
inductive Caused (b : Books) (f : FiberId) (c : Call) (sem : SemaphoreId) : Booking → Prop where
  | tried (hc : c = .thunk (.perform (.tryAcquire sem))) : Caused b f c sem (.tried f)
  | granted (hc : c = .thunk (.perform (.requestPermit sem))) : Caused b f c sem (.granted f)
  | queued (hc : c = .thunk (.perform (.requestPermit sem))) (l : DeferredId) : Caused b f c sem (.queued f l)
  | returned (hc : c = .thunk (.perform (.releasePermit sem))) : Caused b f c sem (.returned f)
  | undone (h : (∃ claim, b.claim? f = some claim ∧ claim.undoing = true) ∨
    ∃ l, c = .thunk (.perform (.abandonPermit sem l))) : Caused b f c sem (.undone f)
  | delivered (l : DeferredId) : Caused b f c sem (.delivered l)
  | abandoned {l : DeferredId} (hc : c = .thunk (.perform (.abandonPermit sem l))) : Caused b f c sem (.abandoned f l)
  | kept {claim : Claim} (hclaim : b.claim? f = some claim) (hsem : claim.semaphore = sem) : Caused b f c sem (.kept f)

theorem caused_delivered {c : Call} (w : World) :
    ∀ e ∈ (w.nextInLine? sem).toList.map Booking.delivered, b.Caused f c sem e := by
  intro e he
  obtain ⟨l, -, rfl⟩ := List.mem_map.1 he
  exact .delivered l

/-- **What a closure writes down.** -/
theorem record_adds (b : Books) (f : FiberId) (c : Call) (w : World) :
    ∃ sem new, Adds f sem new b (b.record f c w) ∧ ∀ e ∈ new, b.Caused f c sem e := by
  have hnothing : ∃ sem new, Adds f sem new b b ∧ ∀ e ∈ new, b.Caused f c sem e :=
    ⟨⟨0⟩, [], .refl b, List.forall_mem_nil _⟩
  unfold record
  split
  · rename_i s
    split
    · exact ⟨s, _, adds_write (mine_singleton rfl), List.forall_mem_singleton.2 (.tried rfl)⟩
    · exact hnothing
  · rename_i s
    split
    · exact ⟨s, _, adds_hold rfl (mine_singleton rfl), List.forall_mem_singleton.2 (.granted rfl)⟩
    · exact ⟨s, _, adds_hold rfl (mine_singleton rfl), List.forall_mem_singleton.2 (.queued rfl _)⟩
  · rename_i s
    split
    · rename_i hundoing
      have hclaim : ∃ claim, b.claim? f = some claim ∧ claim.undoing = true := (Option.any_eq_true _ _).1 hundoing
      exact ⟨s, _, adds_drop (mine_putBack rfl _), List.forall_mem_cons.2 ⟨.undone (Or.inl hclaim), caused_delivered w⟩⟩
    · exact ⟨s, _, adds_write (mine_putBack rfl _), List.forall_mem_cons.2 ⟨.returned rfl, caused_delivered w⟩⟩
  · rename_i s latch
    split
    · exact ⟨s, _, adds_drop (mine_singleton rfl), List.forall_mem_singleton.2 (.abandoned rfl)⟩
    · split
      · exact ⟨s, _, adds_drop (mine_putBack rfl _),
          List.forall_mem_cons.2 ⟨.undone (Or.inr ⟨latch, rfl⟩), caused_delivered w⟩⟩
      · exact ⟨s, [], ⟨(List.append_nil _).symm, List.forall_mem_nil _, fun _ hg => claim?_drop_of_ne hg⟩,
          List.forall_mem_nil _⟩
  · split
    · exact hnothing
    · rename_i claim hclaim
      split
      · exact ⟨claim.semaphore, [], adds_beginUndo, List.forall_mem_nil _⟩
      · exact ⟨claim.semaphore, _, adds_drop (mine_singleton rfl), List.forall_mem_singleton.2 (.kept hclaim rfl)⟩
  · exact hnothing

/-! ## Each ticket is held or has served its purpose -/

theorem latches_write (s : SemaphoreId) (new : List Booking) (b : Books) :
    (b.write s new).latches = b.latches ++ Semaphore.joined new := by
  unfold Books.latches Books.write
  rw [List.filterMap_append, filterMap_entries]
  rfl

theorem countP_of_write (p : Booking → Bool) (new : List Booking) (b : Books) (s : SemaphoreId) :
    ((b.write sem new).of s).countP p = (b.of s).countP p + if sem = s then new.countP p else 0 := by
  unfold Books.of Books.write
  rw [List.filterMap_append, List.filterMap_map, List.countP_append]
  by_cases hs : sem = s
  · subst hs
    simp [Function.comp_def]
  · simp [hs, Function.comp_def]

namespace Ticketed

/-- What is written down concerns no ticket. -/
theorem write (h : b.Ticketed σ) (hticket : new.countP Booking.isTicket = 0)
    (hsettled : new.countP Booking.isSettled = 0) : (b.write sem new).Ticketed σ where
  engaged := h.engaged
  claimed c hc l hl := latches_write sem new b ▸ List.mem_append_left _ (h.claimed c hc l hl)
  fibers := h.fibers
  tickets := h.tickets
  count s := by
    rw [countP_of_write, countP_of_write, hticket, hsettled, h.count s, ite_self]
    rfl

/-- A ticket is handed out that nobody has had. -/
theorem hold (h : b.Ticketed σ) (hengaged : σ c.fiber ≠ none) (hfree : b.claim? c.fiber = none)
    (hlatch : ∀ l, c.latch? = some l → l ∉ b.latches) :
    ((b.hold c).write c.semaphore [Ask.ticket c.fiber c.latch?]).Ticketed σ where
  engaged := List.forall_mem_cons.2 ⟨hengaged, h.engaged⟩
  claimed := by
    refine List.forall_mem_cons.2 ⟨fun l hl => ?_, fun c' hc' l hl => ?_⟩
    · rw [latches_write, hl]
      exact List.mem_append_right _ (List.mem_singleton.2 rfl)
    · rw [latches_write]
      exact List.mem_append_left _ (h.claimed c' hc' l hl)
  fibers := by
    refine List.nodup_cons.2 ⟨fun hmem => ?_, h.fibers⟩
    obtain ⟨c', hc', he⟩ := List.mem_map.1 hmem
    exact List.find?_eq_none.1 hfree c' hc' (decide_eq_true he)
  tickets := by
    show ((c :: b.claims).filterMap Claim.latch?).Nodup
    cases hl : c.latch? with
    | none =>
      rw [List.filterMap_cons_none hl]
      exact h.tickets
    | some l =>
      rw [List.filterMap_cons_some hl]
      refine List.nodup_cons.2 ⟨fun hmem => ?_, h.tickets⟩
      obtain ⟨c', hc', hl'⟩ := List.mem_filterMap.1 hmem
      exact hlatch l hl (h.claimed c' hc' l hl')
  count s := by
    have hticket : [Ask.ticket c.fiber c.latch?].countP Booking.isTicket = 1 := by cases c.latch? <;> rfl
    have hsettled : [Ask.ticket c.fiber c.latch?].countP Booking.isSettled = 0 := by cases c.latch? <;> rfl
    have hcount : ((b.hold c).of s).countP Booking.isTicket =
        ((b.hold c).of s).countP Booking.isSettled + b.claims.countP (·.semaphore = s) := h.count s
    have hclaims : ((b.hold c).write c.semaphore [Ask.ticket c.fiber c.latch?]).claims = c :: b.claims := rfl
    rw [countP_of_write, countP_of_write, hticket, hsettled, hcount, hclaims, List.countP_cons]
    by_cases hs : c.semaphore = s
    · simp only [hs, decide_true, if_true]
      omega
    · simp only [hs, decide_false, if_false, ite_self, Bool.false_eq_true, Nat.add_zero]

/-- A ticket serves its purpose. -/
theorem drop (h : b.Ticketed σ) (hc : b.claim? f = some c) (he : e.isSettled = true)
    (hrest : rest.countP Booking.isSettled = 0) (hticket : (e :: rest).countP Booking.isTicket = 0) :
    ((b.drop f).write c.semaphore (e :: rest)).Ticketed σ where
  engaged c' hc' := h.engaged c' (h.of_mem_drop hc hc').1
  claimed c' hc' l hl :=
    latches_write c.semaphore (e :: rest) (b.drop f) ▸
      List.mem_append_left _ (h.claimed c' (h.of_mem_drop hc hc').1 l hl)
  fibers := by
    have hfibers := ((claims_perm hc).map Claim.fiber).nodup_iff.1 h.fibers
    rw [List.map_cons] at hfibers
    exact (List.nodup_cons.1 hfibers).2
  tickets :=
    (((claims_perm hc).filterMap Claim.latch?).nodup_iff.1 h.tickets).sublist ((List.sublist_cons_self _ _).filterMap _)
  count s := by
    have hsettled : (e :: rest).countP Booking.isSettled = 1 := by rw [List.countP_cons_of_pos he, hrest]
    have hcount : ((b.drop f).of s).countP Booking.isTicket =
        ((b.drop f).of s).countP Booking.isSettled + b.claims.countP (·.semaphore = s) := h.count s
    have hclaims : ((b.drop f).write c.semaphore (e :: rest)).claims = (b.drop f).claims := rfl
    rw [(claims_perm hc).countP_eq, List.countP_cons] at hcount
    rw [countP_of_write, countP_of_write, hticket, hsettled, hclaims, ite_self]
    by_cases hs : c.semaphore = s
    · simp only [hs, decide_true, if_true] at hcount ⊢
      omega
    · simp only [hs, decide_false, if_false, Bool.false_eq_true, Nat.add_zero] at hcount ⊢
      exact hcount

/-- A cleanup begins. -/
theorem beginUndo (h : b.Ticketed σ) : (b.beginUndo f).Ticketed σ where
  engaged c' hc' := by
    obtain ⟨c, hc, rfl⟩ := List.mem_map.1 hc'
    split
    · exact h.engaged c hc
    · exact h.engaged c hc
  claimed c' hc' l hl := by
    obtain ⟨c, hc, rfl⟩ := List.mem_map.1 hc'
    split at hl
    · exact h.claimed c hc l hl
    · exact h.claimed c hc l hl
  fibers := by
    have hsame : (b.beginUndo f).claims.map Claim.fiber = b.claims.map Claim.fiber := by
      refine (List.map_map ..).trans (List.map_congr_left fun c _ => ?_)
      by_cases hc : c.fiber = f <;> simp [hc]
    exact hsame ▸ h.fibers
  tickets := by
    have hsame : (b.beginUndo f).claims.filterMap Claim.latch? = b.claims.filterMap Claim.latch? := by
      refine (List.filterMap_map ..).trans (congrArg (List.filterMap · b.claims) (funext fun c => ?_))
      by_cases hc : c.fiber = f <;> simp [hc]
    exact hsame ▸ h.tickets
  count s := by
    have hsame : (b.beginUndo f).claims.countP (·.semaphore = s) = b.claims.countP (·.semaphore = s) := by
      refine (List.countP_map ..).trans (List.countP_congr fun c _ => ?_)
      by_cases hc : c.fiber = f <;> simp [hc]
    exact hsame ▸ h.count s

end Ticketed

end Books

end FiberLoop
