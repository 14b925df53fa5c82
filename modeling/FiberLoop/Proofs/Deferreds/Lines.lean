import FiberLoop.Proofs.Deferreds.Seats

/-!
# The lines of the deferreds

In a line stand those who wait, in the order in which they came, each with the seat that its fiber has. A fiber whose
wait was interrupted keeps its place until it has cancelled the wait; a completion passes it over.

`Moment.Lined` says that lines and seats agree. Whatever closures do, they go on to agree (`World.Handles.lined`).
-/

namespace FiberLoop

/-- Whether the keys grow along the line. -/
def Deferred.Ordered : Deferred → Prop
  | .pending waiters next => (waiters.map (·.1)).Pairwise (· < ·) ∧ ∀ e ∈ waiters, e.1 < next
  | .done _ => True

/-- In a line with growing keys who leaves takes nobody else along. -/
theorem Deferred.eraseP_key {waiters : List (Nat × Callback)} (h : (waiters.map (·.1)).Pairwise (· < ·)) (key : Nat) :
    waiters.eraseP (·.1 == key) = waiters.filter (·.1 != key) := by
  induction waiters with
  | nil => rfl
  | cons waiter rest ih =>
    obtain ⟨hwaiter, hrest⟩ := List.pairwise_cons.1 h
    by_cases hkey : waiter.1 = key
    · have hothers : rest.filter (·.1 != key) = rest := List.filter_eq_self.2 fun e he =>
        bne_iff_ne.2 (hkey ▸ Nat.ne_of_gt (hwaiter e.1 (List.mem_map_of_mem he)))
      simp [hkey, hothers]
    · simp [hkey, ih hrest]

namespace World

/-- Those who wait for a deferred. -/
def line (d : DeferredId) (w : World) : List (Nat × Callback) :=
  match w.deferred? d with
  | some (.pending waiters _) => waiters
  | _ => []

/-- A change after which each deferred is as before, or was completed. -/
def Advances (w w' : World) : Prop :=
  ∀ d row, w.deferred? d = some row → w'.deferred? d = some row ∨ row.exit? = none ∧ (w'.pollDeferred d).isSome = true

/-- Complete callbacks in order. -/
def settleAll (waiters : List (Nat × Callback)) (x : Exit Value Value) (w : World) : World :=
  waiters.foldl (fun w waiter => w.settle waiter.2 x) w

section Rows

variable {w w' : World} {d : DeferredId} {row : Deferred} {waiters : List (Nat × Callback)} {key : Nat}

theorem line_of_pending (h : w.deferred? d = some (.pending waiters key)) : w.line d = waiters := by
  rw [line, h]

theorem line_of_done {x : Exit Value Value} (h : w.deferred? d = some (.done x)) : w.line d = [] := by
  rw [line, h]

theorem line_congr (h : w'.deferred? d = w.deferred? d) : w'.line d = w.line d := by
  rw [line, line, h]

theorem pending_of_mem_line {e : Nat × Callback} (h : e ∈ w.line d) :
    ∃ key, w.deferred? d = some (.pending (w.line d) key) := by
  unfold line at h ⊢
  split at h
  · exact ⟨_, by assumption⟩
  · cases h

theorem completeDeferred_of_pending (h : w.deferred? d = some (.pending waiters key)) (x : Exit Value Value) :
    w.completeDeferred d x = (true, (w.setDeferred d (.done x)).settleAll waiters x) := by
  rw [completeDeferred, h]
  rfl

theorem deferred?_settleAll (waiters : List (Nat × Callback)) (x : Exit Value Value) (w : World) (d : DeferredId) :
    (w.settleAll waiters x).deferred? d = w.deferred? d := by
  induction waiters generalizing w with
  | nil => rfl
  | cons waiter rest ih =>
    refine (ih _).trans ?_
    rw [deferred?, stores_settle, deferred?]

/-- A new deferred has an empty line. -/
theorem deferred?_makeDeferred (w : World) (d : DeferredId) : w.makeDeferred.2.deferred? d = w.deferred? d ∨
    w.deferred? d = none ∧ w.makeDeferred.2.deferred? d = some .fresh := by
  show (w.stores.deferreds.push .fresh).get? d.index = w.stores.deferreds.get? d.index ∨
    w.stores.deferreds.get? d.index = none ∧ (w.stores.deferreds.push .fresh).get? d.index = some .fresh
  rw [Table.get?_push]
  split
  · rename_i hd
    refine Or.inr ⟨?_, rfl⟩
    simp [hd, Table.get?, Table.size]
  · exact Or.inl rfl

/-! ### Leaving a line -/

theorem deferred?_leaveDeferred_of_ne {d' : DeferredId} (h : d' ≠ d) :
    (w.leaveDeferred d key).deferred? d' = w.deferred? d' := by
  unfold leaveDeferred
  split
  · exact deferred?_setDeferred_of_ne h
  · rfl

theorem line_leaveDeferred (h : ∀ d row, w.deferred? d = some row → row.Ordered) :
    (w.leaveDeferred d key).line d = (w.line d).filter (·.1 != key) := by
  cases hrow : w.deferred? d with
  | none =>
    rw [leaveDeferred, hrow, line, hrow]
    rfl
  | some row =>
    cases row with
    | done x =>
      rw [leaveDeferred, hrow, line_of_done hrow]
      rfl
    | pending waiters next =>
      rw [line_of_pending hrow, ← Deferred.eraseP_key (h d _ hrow).1]
      have hleft : (w.leaveDeferred d key).deferred? d = some (.pending (waiters.eraseP (·.1 == key)) next) := by
        rw [leaveDeferred, hrow]
        exact deferred?_setDeferred_self hrow
      exact line_of_pending hleft

/-- Who leaves a line does not complete the deferred. -/
theorem pollDeferred_leaveDeferred (w : World) (d d' : DeferredId) (key : Nat) :
    (w.leaveDeferred d key).pollDeferred d' = w.pollDeferred d' := by
  unfold leaveDeferred
  split
  · rename_i waiters next hrow
    by_cases hd : d' = d
    · subst hd
      rw [pollDeferred, deferred?_setDeferred_self hrow, pollDeferred, hrow]
      rfl
    · rw [pollDeferred, deferred?_setDeferred_of_ne hd, pollDeferred]
  · rfl

theorem ordered_leaveDeferred (h : ∀ d row, w.deferred? d = some row → row.Ordered) :
    ∀ d' row, (w.leaveDeferred d key).deferred? d' = some row → row.Ordered := by
  intro d' row hd'
  by_cases hd : d' = d
  · subst hd
    unfold leaveDeferred at hd'
    split at hd'
    · rename_i waiters next hrow
      cases (deferred?_setDeferred_self hrow).symm.trans hd'
      obtain ⟨hordered, hnext⟩ := h d' _ hrow
      exact ⟨hordered.sublist (List.eraseP_sublist.map _), fun e he => hnext e (List.mem_of_mem_eraseP he)⟩
    · exact h d' row hd'
  · exact h d' row ((deferred?_leaveDeferred_of_ne hd).symm.trans hd')

theorem view_leaveDeferred (w : World) (d : DeferredId) (key : Nat) (f : FiberId) (a : Activity) :
    (w.leaveDeferred d key).view f a = w.view f a := by
  unfold leaveDeferred
  split <;> rfl

/-! ### Deferreds that stay as they are, or are completed -/

namespace Advances

variable {u v w w' : World} {d : DeferredId}

theorem of_eq (h : w'.stores.deferreds = w.stores.deferreds) : w.Advances w' := fun d row hrow => by
  rw [deferred?, h]
  exact Or.inl hrow

theorem refl (w : World) : w.Advances w := .of_eq rfl

theorem poll (h : w.Advances w') {x : Exit Value Value} (hx : w.pollDeferred d = some x) : w'.pollDeferred d = some x := by
  obtain ⟨row, hrow, hexit⟩ := Option.bind_eq_some_iff.1 hx
  rcases h d row hrow with hsame | ⟨hnone, -⟩
  · rw [pollDeferred, hsame]
    exact hexit
  · cases hnone.symm.trans hexit

/-- The line of a deferred that is not completed stays as it is. -/
theorem line (h : w.Advances w') (hrow : (w.deferred? d).isSome = true) (hpending : w'.pollDeferred d = none) :
    w'.line d = w.line d := by
  obtain ⟨row, hrow⟩ := Option.isSome_iff_exists.1 hrow
  rcases h d row hrow with hsame | ⟨-, hdone⟩
  · exact line_congr (hsame.trans hrow.symm)
  · rw [hpending] at hdone
    cases hdone

theorem trans (h : u.Advances v) (h' : v.Advances w) : u.Advances w := fun d row hrow => by
  rcases h d row hrow with hsame | ⟨hnone, hdone⟩
  · exact h' d row hsame
  · obtain ⟨x, hx⟩ := Option.isSome_iff_exists.1 hdone
    exact Or.inr ⟨hnone, by rw [h'.poll hx]; rfl⟩

theorem complete (w : World) (d : DeferredId) (x : Exit Value Value) : w.Advances (w.completeDeferred d x).2 := by
  intro d' row hd'
  cases hrow : w.deferred? d with
  | none =>
    rw [completeDeferred, hrow]
    exact Or.inl hd'
  | some row =>
    cases row with
    | done y =>
      rw [completeDeferred, hrow]
      exact Or.inl hd'
    | pending waiters key =>
      rw [completeDeferred_of_pending hrow]
      by_cases hd : d' = d
      · subst hd
        cases hrow.symm.trans hd'
        refine Or.inr ⟨rfl, ?_⟩
        rw [pollDeferred, deferred?_settleAll, deferred?_setDeferred_self hrow]
        rfl
      · rw [deferred?_settleAll, deferred?_setDeferred_of_ne hd]
        exact Or.inl hd'

theorem make (w : World) : w.Advances w.makeDeferred.2 := fun d row hrow => by
  rcases w.deferred?_makeDeferred d with hsame | ⟨hnone, -⟩
  · exact Or.inl (hsame.trans hrow)
  · exact nomatch hnone.symm.trans hrow

end Advances

/-- Closures complete deferreds, and that is all that they do to them. -/
theorem Handles.advances {hidden : Callback → Prop} {w w' : World} (h : w.Handles hidden w') : w.Advances w' := by
  induction h with
  | refl w => exact .refl w
  | trans _ _ ih ih' => exact ih.trans ih'
  | quiet _ hdeferreds => exact .of_eq hdeferreds
  | interrupt w f => exact .of_eq (congrArg _ (stores_interrupt w f))
  | settle w _ x => exact .of_eq (congrArg _ (stores_settle w _ x))
  | launch w root hook => exact .of_eq rfl
  | make w => exact .make w
  | complete w d x => exact .complete w d x

end Rows

end World

/-- Lines and seats agree: who stands in a line has the seat, and who has a seat stands in the line, unless the wait
is over and the deferred completed. -/
structure Moment.Lined (m : Moment) : Prop where
  ordered : ∀ d row, m.world.deferred? d = some row → row.Ordered
  seated : ∀ d, ∀ e ∈ m.world.line d, m.seat? e.2.fiber = some ⟨d, e.1, e.2.epoch⟩
  lined : ∀ f s, m.seat? f = some s → (s.key, ⟨f, s.epoch⟩) ∈ m.world.line s.deferred ∨
    s.epoch < m.world.epoch f ∧ (m.world.pollDeferred s.deferred).isSome = true
  /-- A fiber that is about to join a line has not been given a result. -/
  unanswered : ∀ f left run d epoch, m.activity = .registering f left run (.deferred d) epoch →
    m.world.phase? f = some (.registering none)

/-- A callback that nobody holds who is not in the line: its fiber has a seat, is about to join, or has not come so
far. -/
inductive Moment.Hides (m : Moment) (callback : Callback) : Prop where
  | seated {s : Seat} (hs : m.seat? callback.fiber = some s) (hepoch : s.epoch = callback.epoch)
  | joining {left : Nat} {run : Run} {d : DeferredId}
    (h : m.activity = .registering callback.fiber left run (.deferred d) callback.epoch)
  | future (h : m.world.epoch callback.fiber < callback.epoch)

/-- No fiber takes a seat. -/
def Moment.Vacates (m m' : Moment) : Prop := ∀ f s, m'.seat? f = some s → m.seat? f = some s

/-- Every fiber that was launched has its place. -/
def Moment.Peopled (m : Moment) : Prop := ∀ f, Placed f (m.view f)

section Lined

variable {m m' : Moment} {w w' : World} {a : Activity} {f : FiberId} {hidden : Callback → Prop}

/-- Nothing happens to the deferreds, and no fiber loses its seat. -/
theorem Moment.Lined.shift (h : m.Lined) (hdeferreds : m'.world.stores.deferreds = m.world.stores.deferreds)
    (hseat : ∀ f, m'.seat? f = m.seat? f) (hepoch : ∀ f, m.world.epoch f ≤ m'.world.epoch f)
    (hjoining : ∀ f left run d epoch, m'.activity = .registering f left run (.deferred d) epoch →
      m'.world.phase? f = some (.registering none)) : m'.Lined := by
  have hrow (d : DeferredId) : m'.world.deferred? d = m.world.deferred? d := by
    rw [World.deferred?, hdeferreds, World.deferred?]
  refine ⟨fun d row hd => h.ordered d row (hrow d ▸ hd), fun d e he => ?_, fun f s hs => ?_, hjoining⟩
  · rw [hseat]
    exact h.seated d e (World.line_congr (hrow d) ▸ he)
  · rw [World.line_congr (hrow _), World.pollDeferred, hrow]
    exact (h.lined f s (hseat f ▸ hs)).imp_right fun hpast => ⟨Nat.lt_of_lt_of_le hpast.1 (hepoch f), hpast.2⟩

/-- What is hidden stays hidden no longer than before. -/
theorem Moment.Vacates.hides (h : Moment.Vacates ⟨w, a⟩ ⟨w', a⟩) (hepoch : ∀ f, w.epoch f ≤ w'.epoch f)
    {callback : Callback} (hhides : Moment.Hides ⟨w', a⟩ callback) : Moment.Hides ⟨w, a⟩ callback := by
  cases hhides with
  | seated hs hs' => exact .seated (h _ _ hs) hs'
  | joining h => exact .joining h
  | future hlt => exact .future (Nat.lt_of_le_of_lt (hepoch _) hlt)

theorem Moment.Vacates.of_eq (h : ∀ f, m'.seat? f = m.seat? f) : m.Vacates m' := fun f _ hs => h f ▸ hs

theorem Moment.Peopled.requested (h : Moment.Peopled ⟨w, a⟩) (hrequested : Requested w w') :
    Moment.Peopled ⟨w', a⟩ := fun f => (h f).requested hrequested

/-- A fiber that is in the middle of something has a place. -/
theorem Moment.Peopled.fits (h : Moment.Peopled ⟨w, a⟩) (ha : a.fiber? = some f) : ∃ p, Fits f (w.view f a) p := by
  have hplaced : Placed f (w.view f a) := Moment.view_self (w := w) ha ▸ h f
  rcases hplaced.cases with habsent | hfits
  · have hidle : a = .idle := habsent.activity
    rw [hidle] at ha
    cases ha
  · exact hfits

/-- A request to interrupt a fiber that is about to join a line gives it no result. -/
theorem Moment.Peopled.unanswered {left epoch : Nat} {run : Run} {r : Registration} {es : Chronicle}
    (h : Moment.Peopled ⟨w, .registering f left run r epoch⟩) (hrequests : Requests w es w')
    (hes : ∀ e ∈ history f es, e.isRequest = true) (hphase : w.phase? f = some (.registering none)) :
    w'.phase? f = some (.registering none) := by
  obtain ⟨p, hp⟩ := h.fits rfl
  obtain ⟨q, hmoves, hq⟩ := hrequests.fits hp
  obtain ⟨⟨early, hstanding⟩, -⟩ := hp.held.of_registering
  rw [hp.phase?_eq, hstanding] at hphase
  cases hphase
  rw [hq.phase?_eq, hmoves.registering_of_requests hes hstanding]
  rfl

namespace World

/-! ## Completions in order -/

section SettleAll

variable {waiters : List (Nat × Callback)} {x : Exit Value Value} {s : Seat}

theorem seat?_settleAll_of_other (h : ∀ e ∈ waiters, e.2.fiber ≠ f) :
    Moment.seat? f ⟨w.settleAll waiters x, a⟩ = Moment.seat? f ⟨w, a⟩ := by
  induction waiters generalizing w with
  | nil => rfl
  | cons waiter rest ih =>
    obtain ⟨hwaiter, hrest⟩ := List.forall_mem_cons.1 h
    exact (ih hrest).trans (Placed.seat?_settle_of_other hwaiter x)

theorem seat?_settleAll (h : Moment.Peopled ⟨w, a⟩) :
    Moment.seat? f ⟨w.settleAll waiters x, a⟩ = Moment.seat? f ⟨w, a⟩ ∨
      Moment.seat? f ⟨w.settleAll waiters x, a⟩ = none := by
  induction waiters generalizing w with
  | nil => exact Or.inl rfl
  | cons waiter rest ih =>
    rcases ih (h.requested (.settle w waiter.2 x)) with hsame | hnone
    · exact ((h f).seat?_settle waiter.2 x).imp hsame.trans hsame.trans
    · exact Or.inr hnone

theorem record_settleAll_of_other (h : ∀ e ∈ waiters, e.2.fiber ≠ f) :
    (w.settleAll waiters x).record f = w.record f := by
  induction waiters generalizing w with
  | nil => rfl
  | cons waiter rest ih =>
    obtain ⟨hwaiter, hrest⟩ := List.forall_mem_cons.1 h
    exact (ih hrest).trans (record_settle_of_ne hwaiter x w)

theorem later_settleAll (waiters : List (Nat × Callback)) (x : Exit Value Value) (w : World) :
    w.Later (w.settleAll waiters x) := by
  induction waiters generalizing w with
  | nil => exact .refl w
  | cons waiter rest ih => exact (Later.settle w waiter.2 x).trans (ih _)

/-- Whoever stands in the line loses the seat, unless the wait has ended already. -/
theorem seat?_settleAll_of_mem (h : Moment.Peopled ⟨w, a⟩) {e : Nat × Callback} (he : e ∈ waiters)
    (hs : Moment.seat? e.2.fiber ⟨w, a⟩ = some s) (hepoch : s.epoch = e.2.epoch) :
    Moment.seat? e.2.fiber ⟨w.settleAll waiters x, a⟩ = none ∨
      s.epoch < (w.settleAll waiters x).epoch e.2.fiber := by
  induction waiters generalizing w with
  | nil => cases he
  | cons waiter rest ih =>
    have hplaced := h.requested (.settle w waiter.2 x)
    rcases List.mem_cons.1 he with rfl | hrest
    · rcases (h e.2.fiber).seat?_settle_self hs hepoch x with hnone | hlt
      · exact Or.inl ((seat?_settleAll hplaced).elim (·.trans hnone) id)
      · exact Or.inr (Nat.lt_of_lt_of_le hlt ((later_settleAll (e :: rest) x w).epoch_le _))
    · rcases (h e.2.fiber).seat?_settle waiter.2 x with hsame | hnone
      · exact ih hplaced hrest (hsame.trans hs)
      · exact Or.inl ((seat?_settleAll hplaced).elim (·.trans hnone) id)

end SettleAll

/-! ## What closures do -/

theorem epoch_le_of_requested (h : Requested w w') (f : FiberId) : w.epoch f ≤ w'.epoch f := by
  obtain ⟨es, hrequests⟩ := h
  exact (Later.requests hrequests).epoch_le f

/-- A launched fiber has no seat. -/
theorem seat?_launch (h : Moment.Peopled ⟨w, a⟩) (root : Effect) (hook : ExitHook) :
    Moment.seat? f ⟨(w.launch root hook hook.notice).2, a⟩ = Moment.seat? f ⟨w, a⟩ := by
  by_cases hf : f = ⟨w.fibers.size⟩
  · subst hf
    rcases (h ⟨w.fibers.size⟩).cases with habsent | ⟨p, hfits⟩
    · exact (habsent.launched.seat?.trans rfl).trans habsent.seat?.symm
    · obtain ⟨home, hrecord⟩ := hfits.record
      exact absurd rfl (ne_size_of_record hrecord)
  · refine (h f).seat?_of_requests (.one (.launch w root hook)) ?_
    rw [history_cons_of_ne (Ne.symm hf)]
    exact List.forall_mem_nil _

end World

open World

/-- The completion of a deferred empties its line. -/
theorem Moment.Lined.complete (h : Moment.Lined ⟨w, a⟩) (hpeople : Moment.Peopled ⟨w, a⟩) (d : DeferredId)
    (x : Exit Value Value) :
    Moment.Lined ⟨(w.completeDeferred d x).2, a⟩ ∧ Moment.Vacates ⟨w, a⟩ ⟨(w.completeDeferred d x).2, a⟩ := by
  cases hrow : w.deferred? d with
  | none =>
    rw [completeDeferred, hrow]
    exact ⟨h, .of_eq fun _ => rfl⟩
  | some row =>
    cases row with
    | done y =>
      rw [completeDeferred, hrow]
      exact ⟨h, .of_eq fun _ => rfl⟩
    | pending waiters key =>
      rw [completeDeferred_of_pending hrow]
      have hpeople' : Moment.Peopled ⟨w.setDeferred d (.done x), a⟩ := hpeople.requested (.stores w _)
      have hself : ((w.setDeferred d (.done x)).settleAll waiters x).deferred? d = some (.done x) :=
        (deferred?_settleAll ..).trans (deferred?_setDeferred_self hrow)
      have hother {d' : DeferredId} (hd : d' ≠ d) :
          ((w.setDeferred d (.done x)).settleAll waiters x).deferred? d' = w.deferred? d' :=
        (deferred?_settleAll ..).trans (deferred?_setDeferred_of_ne hd)
      have hvacates : Moment.Vacates ⟨w, a⟩ ⟨(w.setDeferred d (.done x)).settleAll waiters x, a⟩ := fun f s hs =>
        (seat?_settleAll (f := f) hpeople').elim (fun hsame => hsame.symm.trans hs)
          fun hnone => absurd (hnone.symm.trans hs) nofun
      have hseated {e : Nat × Callback} (he : e ∈ waiters) :
          Moment.seat? e.2.fiber ⟨w, a⟩ = some ⟨d, e.1, e.2.epoch⟩ :=
        h.seated d e (by rwa [line_of_pending hrow])
      refine ⟨⟨fun d' row hrow' => ?_, fun d' e he => ?_, fun f s hs => ?_, ?_⟩, hvacates⟩
      · by_cases hd : d' = d
        · subst hd
          cases hself.symm.trans hrow'
          trivial
        · exact h.ordered d' row ((hother hd).symm.trans hrow')
      · have hd : d' ≠ d := by
          rintro rfl
          rw [line_of_done hself] at he
          cases he
        rw [line_congr (hother hd)] at he
        have hs := h.seated d' e he
        refine (seat?_settleAll_of_other fun e' he' hfiber => hd ?_).trans hs
        have hs' := hseated he'
        rw [hfiber] at hs'
        exact congrArg Seat.deferred (Option.some.inj (hs.symm.trans hs'))
      · have hbefore := h.lined f s (hvacates f s hs)
        have hepoch : w.epoch f ≤ ((w.setDeferred d (.done x)).settleAll waiters x).epoch f :=
          (later_settleAll waiters x (w.setDeferred d (.done x))).epoch_le f
        by_cases hd : s.deferred = d
        · refine Or.inr ⟨?_, by rw [pollDeferred, hd, hself]; rfl⟩
          rcases hbefore with hmem | ⟨hlt, -⟩
          · rw [hd, line_of_pending hrow] at hmem
            exact (seat?_settleAll_of_mem hpeople' hmem (hvacates f s hs) rfl).resolve_left fun hnone =>
              absurd (hnone.symm.trans hs) nofun
          · exact Nat.lt_of_lt_of_le hlt hepoch
        · rw [line_congr (hother hd), pollDeferred, hother hd]
          exact hbefore.imp_right fun hpast => ⟨Nat.lt_of_lt_of_le hpast.1 hepoch, hpast.2⟩
      · rintro f left run d' epoch rfl
        refine (phase?_congr (record_settleAll_of_other fun e he hfiber => ?_)).trans (h.unanswered f left run d' epoch rfl)
        have hs := hseated he
        rw [hfiber, Moment.seat?_of_activity rfl rfl] at hs
        cases hs

theorem Moment.Lined.make (h : Moment.Lined ⟨w, a⟩) : Moment.Lined ⟨w.makeDeferred.2, a⟩ := by
  have hline (d : DeferredId) : w.makeDeferred.2.line d = w.line d := by
    rcases w.deferred?_makeDeferred d with hsame | ⟨hnone, hfresh⟩
    · exact line_congr hsame
    · rw [line, line, hnone, hfresh]
      rfl
  refine ⟨fun d row hd => ?_, fun d e he => h.seated d e (hline d ▸ he), fun f s hs => ?_, h.unanswered⟩
  · rcases w.deferred?_makeDeferred d with hsame | ⟨-, hfresh⟩
    · exact h.ordered d row (hsame ▸ hd)
    · cases hfresh.symm.trans hd
      exact ⟨.nil, List.forall_mem_nil _⟩
  · rw [hline]
    refine (h.lined f s hs).imp_right fun hpast => ⟨hpast.1, ?_⟩
    rcases w.deferred?_makeDeferred s.deferred with hsame | ⟨hnone, -⟩
    · rw [pollDeferred, hsame]
      exact hpast.2
    · have hdone : (w.pollDeferred s.deferred).isSome = true := hpast.2
      rw [pollDeferred, hnone] at hdone
      cases hdone

/-- A callback is completed that is not hidden. -/
theorem Moment.Lined.settle (h : Moment.Lined ⟨w, a⟩) (hpeople : Moment.Peopled ⟨w, a⟩)
    (hhidden : ∀ callback, Moment.Hides ⟨w, a⟩ callback → hidden callback) {callback : Callback}
    (hcallback : ¬ hidden callback) (x : Exit Value Value) :
    Moment.Lined ⟨w.settle callback x, a⟩ ∧ Moment.Vacates ⟨w, a⟩ ⟨w.settle callback x, a⟩ := by
  have hseat (f : FiberId) : Moment.seat? f ⟨w.settle callback x, a⟩ = Moment.seat? f ⟨w, a⟩ := by
    by_cases hf : callback.fiber = f
    · subst hf
      cases hs : Moment.seat? callback.fiber ⟨w, a⟩ with
      | none => exact ((hpeople _).seat?_settle callback x).elim (·.trans hs) id
      | some s =>
        exact (hpeople _).seat?_settle_of_ne hs (fun hepoch => hcallback (hhidden _ (.seated hs hepoch))) x
    · exact Placed.seat?_settle_of_other hf x
  refine ⟨h.shift (congrArg _ (stores_settle w callback x)) hseat (epoch_le_of_requested (.settle w callback x)) ?_,
    .of_eq hseat⟩
  rintro f left run d epoch rfl
  have hphase := h.unanswered f left run d epoch rfl
  by_cases hf : callback.fiber = f
  · subst hf
    obtain ⟨p, hp⟩ := hpeople.fits rfl
    obtain ⟨home, hrecord⟩ := hp.record
    obtain ⟨-, -, rfl⟩ := hp.held.of_registering
    have hepoch : p.epoch ≠ callback.epoch := fun hepoch => hcallback <| hhidden callback <| .joining <|
      congrArg (Activity.registering callback.fiber left run (.deferred d)) hepoch
    rw [(settle_of_record_epoch hrecord hepoch x).1]
    exact hphase
  · exact (phase?_congr (record_settle_of_ne hf x w)).trans hphase

theorem Moment.Lined.launch (h : Moment.Lined ⟨w, a⟩) (hpeople : Moment.Peopled ⟨w, a⟩) (root : Effect)
    (hook : ExitHook) : Moment.Lined ⟨(w.launch root hook hook.notice).2, a⟩ ∧
      Moment.Vacates ⟨w, a⟩ ⟨(w.launch root hook hook.notice).2, a⟩ := by
  have hseat (f : FiberId) := seat?_launch (f := f) hpeople root hook
  refine ⟨h.shift rfl hseat (epoch_le_of_requested ⟨_, .one (.launch w root hook)⟩) ?_, .of_eq hseat⟩
  rintro f left run d epoch rfl
  obtain ⟨p, hp⟩ := hpeople.fits rfl
  obtain ⟨home, hrecord⟩ := hp.record
  exact hpeople.unanswered (.one (.launch w root hook))
    (by rw [history_cons_of_ne (ne_size_of_record hrecord).symm]; exact List.forall_mem_nil _)
    (h.unanswered f left run d epoch rfl)

/-- **Whatever closures do, lines and seats go on to agree.** -/
theorem World.Handles.lined (hhandles : w.Handles hidden w') (hpeople : Moment.Peopled ⟨w, a⟩)
    (hhidden : ∀ callback, Moment.Hides ⟨w, a⟩ callback → hidden callback) (h : Moment.Lined ⟨w, a⟩) :
    Moment.Lined ⟨w', a⟩ ∧ Moment.Vacates ⟨w, a⟩ ⟨w', a⟩ := by
  -- a request that gives nobody a result
  have of_requests {v v' : World} {es : Chronicle} (h : Moment.Lined ⟨v, a⟩) (hpeople : Moment.Peopled ⟨v, a⟩)
      (hrequests : Requests v es v') (hes : ∀ f, ∀ e ∈ history f es, e.isRequest = true)
      (hdeferreds : v'.stores.deferreds = v.stores.deferreds) :
      Moment.Lined ⟨v', a⟩ ∧ Moment.Vacates ⟨v, a⟩ ⟨v', a⟩ := by
    have hseat (f : FiberId) : Moment.seat? f ⟨v', a⟩ = Moment.seat? f ⟨v, a⟩ :=
      (hpeople f).seat?_of_requests hrequests (hes f)
    refine ⟨h.shift hdeferreds hseat (epoch_le_of_requested ⟨es, hrequests⟩) ?_, .of_eq hseat⟩
    rintro f left run d epoch rfl
    exact hpeople.unanswered hrequests (hes f) (h.unanswered f left run d epoch rfl)
  induction hhandles with
  | refl w => exact ⟨h, .of_eq fun _ => rfl⟩
  | trans first second ih ih' =>
    obtain ⟨hlined, hvacates⟩ := ih hpeople hhidden h
    have hepoch := epoch_le_of_requested first.requested
    obtain ⟨hlined', hvacates'⟩ :=
      ih' (hpeople.requested first.requested) (fun cb hcb => hhidden cb (hvacates.hides hepoch hcb)) hlined
    exact ⟨hlined', fun f s hs => hvacates f s (hvacates' f s hs)⟩
  | quiet hquiet hdeferreds =>
    exact of_requests h hpeople (.one (.quiet hquiet)) (fun _ => List.forall_mem_nil _) hdeferreds
  | interrupt w g =>
    exact of_requests h hpeople (.one (.interrupt w g))
      (fun f e he => isRequest_interruptEvents w g _ (mem_history.1 he)) (congrArg _ (stores_interrupt w g))
  | @settle w callback hcallback x => exact h.settle hpeople hhidden hcallback x
  | launch w root hook => exact h.launch hpeople root hook
  | make w => exact ⟨h.make, .of_eq fun _ => rfl⟩
  | complete w d x => exact h.complete hpeople d x

end Lined

end FiberLoop
