import FiberLoop.Proofs.Parallel.Attending
import FiberLoop.Proofs.Runtime.Waking

/-!
# Races and pairings, their fibers and the one who waits

A race or a pairing holds the callback of the fiber that waits for it until it has ended, and the fibers that may end
it carry its name in their hooks.

The lemmas of this module say that a closure leaves all this as it is: rows stay, no other fiber gets such a hook
(`Attends.hook`), and whoever waits with a reserved callback goes on waiting unless somebody interrupts it
(`Attends.holds`). A fiber that is parked with one stays parked or is made to cancel what it waited for
(`Attends.remains`).
-/

namespace FiberLoop

/-- The hook of one of the two fibers. -/
def Joint.hook : Joint → Side → ExitHook
  | .race r, side => .race r side
  | .pairing p, side => .parZip p side

theorem Joint.hook_inj {i j : Joint} {side side' : Side} (h : i.hook side = j.hook side') : i = j ∧ side = side' := by
  cases i <;> cases j <;> cases h <;> exact ⟨rfl, rfl⟩

theorem ExitHook.joint?_eq_some_iff {hook : ExitHook} {j : Joint} :
    hook.joint? = some j ↔ ∃ side, hook = j.hook side := by
  constructor
  · intro h
    cases hook with
    | race r side | parZip p side =>
      cases h
      exact ⟨side, rfl⟩
    | _ => cases h
  · rintro ⟨side, rfl⟩
    cases j <;> rfl

/-- Whether a fiber in that phase waits and has not been given a result. -/
def Phase.waits : Phase → Bool
  | .registering none | .suspended .. => true
  | _ => false

/-- A fiber waits with the callback of an epoch, or was interrupted while it did. -/
def Fiber.Holds (epoch : Nat) (r : Fiber) : Prop :=
  r.epoch = epoch ∧ r.phase.waits = true ∨ epoch < r.epoch ∧ r.interruptRequested = true

namespace Fiber.Holds

variable {r : Fiber} {epoch : Nat}

theorem le (h : r.Holds epoch) : epoch ≤ r.epoch := h.elim (fun h => Nat.le_of_eq h.1.symm) fun h => Nat.le_of_lt h.1

/-- A fiber that does not wait with the callback was interrupted. -/
theorem past (h : r.Holds epoch) (hr : r.epoch = epoch → r.phase.waits = false) :
    epoch < r.epoch ∧ r.interruptRequested = true :=
  h.resolve_left fun hwaits => by
    rw [hr hwaits.1] at hwaits
    exact nomatch hwaits.2

end Fiber.Holds

namespace World

/-- The callback that a race or a pairing holds. -/
def holder? (j : Joint) (w : World) : Option Callback :=
  match j with
  | .race r => (w.race? r).bind (·.callback)
  | .pairing p => (w.pairing? p).bind (·.callback)

/-- The two fibers of a race or a pairing. -/
def sides (j : Joint) (w : World) : List FiberId :=
  match j with
  | .race r => (w.race? r).elim [] (·.fibers)
  | .pairing p => (w.pairing? p).elim [] (·.fibers)

/-- What becomes of the exit of a fiber, until it has ended. -/
def hook? (f : FiberId) (w : World) : Option ExitHook := (w.fiber? f).bind (·.hook)

/-- The fiber of a callback waits with it, or was interrupted while it did. -/
def Holds (callback : Callback) (w : World) : Prop :=
  ∃ r, w.fiber? callback.fiber = some r ∧ r.Holds callback.epoch

/-- A fiber is parked with a callback. -/
def Parked (callback : Callback) (run : Run) (canceler : Canceler) (w : World) : Prop :=
  ∃ r, w.record callback.fiber = some r ∧ r.epoch = callback.epoch ∧ r.phase = .suspended run canceler

/-- A fiber that was parked with a callback still is, or it was interrupted and is about to cancel what it waited for. -/
def Remains (callback : Callback) (run : Run) (canceler : Canceler) (w : World) : Prop :=
  w.Parked callback run canceler ∨ .unwind callback.fiber canceler run ∈ w.tokens callback.fiber

variable {w w' : World} {f g : FiberId} {callback : Callback} {reserved : Callback → Prop} {run : Run} {canceler : Canceler}

theorem holder?_congr (hraces : w'.stores.races = w.stores.races)
    (hpairings : w'.stores.pairings = w.stores.pairings) (j : Joint) : w'.holder? j = w.holder? j := by
  cases j with
  | race r => rw [holder?, holder?, race?, race?, hraces]
  | pairing p => rw [holder?, holder?, pairing?, pairing?, hpairings]

theorem sides_congr (hraces : w'.stores.races = w.stores.races)
    (hpairings : w'.stores.pairings = w.stores.pairings) (j : Joint) : w'.sides j = w.sides j := by
  cases j with
  | race r => rw [sides, sides, race?, race?, hraces]
  | pairing p => rw [sides, sides, pairing?, pairing?, hpairings]

/-! ## Hooks -/

theorem hook?_of_record (h : w'.record f = w.record f) : w'.hook? f = w.hook? f := by
  have hhook (v : World) : v.hook? f = (v.record f).bind (·.hook) := by
    rw [hook?, record]
    cases v.fiber? f <;> rfl
  rw [hhook, hhook, h]

theorem hook?_modifyFiber (w : World) (f g : FiberId) {change : Fiber → Fiber} (h : ∀ r, (change r).hook = r.hook) :
    (w.modifyFiber f change).hook? g = w.hook? g := by
  by_cases hg : f = g
  · subst hg
    rw [hook?, hook?, fiber?_modifyFiber_self]
    cases w.fiber? f with
    | none => rfl
    | some r => exact h r
  · rw [hook?, hook?, fiber?_modifyFiber_of_ne hg]

theorem hook?_dispatchTo (w : World) (name : LoopName) (task : Task) (g : FiberId) :
    (w.dispatchTo name task).hook? g = w.hook? g := hook?_of_record (record_dispatchTo w name task g)

theorem hook?_interrupt (w : World) (f g : FiberId) : (w.interrupt f).hook? g = w.hook? g := by
  unfold World.interrupt
  split
  · rfl
  · split
    · rfl
    · split
      · split
        · rw [hook?_dispatchTo, hook?_modifyFiber]
          exact fun _ => rfl
        · rw [hook?_modifyFiber]
          exact fun _ => rfl
      · rw [hook?_modifyFiber]
        exact fun _ => rfl

theorem hook?_settle (w : World) (callback : Callback) (x : Exit Value Value) (g : FiberId) :
    (w.settle callback x).hook? g = w.hook? g := by
  unfold World.settle
  split
  · rfl
  · split
    · rfl
    · split
      · rw [hook?_modifyFiber]
        exact fun _ => rfl
      · rw [hook?_dispatchTo, hook?_modifyFiber]
        exact fun _ => rfl
      · rfl

/-- A fiber that is launched has a new record, and the others keep theirs. -/
theorem fiber?_launch (w : World) (root : Effect) (hook : ExitHook) (notice : Option ExitNotice) (g : FiberId) :
    (w.launch root hook notice).2.fiber? g = if g = ⟨w.fibers.size⟩ then
      some { home := w.here, phase := .created root, hook := some hook, notice := notice } else w.fiber? g := by
  have hpush := Table.get?_push w.fibers { home := w.here, phase := .created root, hook := some hook, notice := notice }
    g.index
  by_cases hg : g = ⟨w.fibers.size⟩
  · rw [if_pos (congrArg FiberId.index hg)] at hpush
    rw [if_pos hg]
    exact hpush
  · rw [if_neg fun he => hg (congrArg FiberId.mk he)] at hpush
    rw [if_neg hg]
    exact hpush

theorem hook?_launch (w : World) (root : Effect) (hook : ExitHook) (notice : Option ExitNotice) (g : FiberId) :
    (w.launch root hook notice).2.hook? g = if g = ⟨w.fibers.size⟩ then some hook else w.hook? g := by
  rw [hook?, fiber?_launch]
  split <;> rfl

/-- Who is launched by a closure ends no race and no pairing. -/
theorem Attends.hook (h : w.Attends reserved w') {hook : ExitHook} (hhook : w'.hook? f = some hook) :
    w.hook? f = some hook ∨ hook.joint? = none := by
  induction h with
  | refl w => exact Or.inl hhook
  | trans _ _ ih ih' => exact (ih' hhook).elim ih Or.inr
  | quiet h _ _ => exact Or.inl ((hook?_of_record (h.record f)).symm.trans hhook)
  | interrupt w g => exact Or.inl ((hook?_interrupt w g f).symm.trans hhook)
  | settle w _ x => exact Or.inl ((hook?_settle w _ x f).symm.trans hhook)
  | launch w root h =>
    rw [hook?_launch] at hhook
    split at hhook
    · cases hhook
      exact Or.inr h
    · exact Or.inl hhook

/-! ## Who waits -/

namespace Holds

theorem of_record (h : w.Holds callback) (hrecord : w'.record callback.fiber = w.record callback.fiber) :
    w'.Holds callback := by
  obtain ⟨r, hr, hholds⟩ := h
  have hcore : w'.record callback.fiber = some r.core := hrecord.trans (congrArg _ hr)
  obtain ⟨r', hr', he⟩ := fiber?_of_record hcore
  refine ⟨r', hr', ?_⟩
  have hsame : r'.core.Holds callback.epoch := he ▸ hholds
  exact hsame

theorem modifyFiber (h : w.Holds callback) (f : FiberId) {change : Fiber → Fiber}
    (hchange : ∀ r, w.fiber? f = some r → callback.fiber = f → r.Holds callback.epoch → (change r).Holds callback.epoch) :
    (w.modifyFiber f change).Holds callback := by
  obtain ⟨r, hr, hholds⟩ := h
  by_cases hf : f = callback.fiber
  · subst hf
    refine ⟨change r, ?_, hchange r hr rfl hholds⟩
    rw [fiber?_modifyFiber_self, hr]
    rfl
  · refine ⟨r, ?_, hholds⟩
    rw [fiber?_modifyFiber_of_ne hf]
    exact hr

theorem dispatchTo (h : w.Holds callback) (name : LoopName) (task : Task) : (w.dispatchTo name task).Holds callback :=
  h.of_record (record_dispatchTo w name task _)

/-- Who is interrupted waits no longer, or goes on waiting. -/
theorem interrupt (h : w.Holds callback) (f : FiberId) : (w.interrupt f).Holds callback := by
  unfold World.interrupt
  split
  · exact h
  · split
    · exact h
    · split
      · split
        · refine (h.modifyFiber f fun r _ _ hholds => Or.inr ⟨?_, rfl⟩).dispatchTo _ _
          exact Nat.lt_succ_of_le hholds.le
        · exact h.modifyFiber f fun r _ _ hholds => hholds.imp id (And.imp_right fun _ => rfl)
      · exact h.modifyFiber f fun r _ _ hholds => hholds.imp id (And.imp_right fun _ => rfl)

/-- Another callback is completed. -/
theorem settle (h : w.Holds callback) {callback' : Callback} (hne : callback' ≠ callback) (x : Exit Value Value) :
    (w.settle callback' x).Holds callback := by
  unfold World.settle
  split
  · exact h
  · rename_i r hr
    split
    · exact h
    · rename_i hepoch
      -- the fiber may have gone on to another registration, and waits there
      have hover (r' : Fiber) (hr' : w.fiber? callback'.fiber = some r') (hf : callback.fiber = callback'.fiber)
          (hholds : r'.Holds callback.epoch) : callback.epoch < r'.epoch ∧ r'.interruptRequested = true := by
        cases hr.symm.trans hr'
        refine hholds.past fun he => absurd ?_ hne
        obtain ⟨f, e⟩ := callback
        obtain ⟨f', e'⟩ := callback'
        cases hf
        cases he
        exact congrArg (Callback.mk f) (Decidable.not_not.1 hepoch).symm
      split
      · refine h.modifyFiber _ fun r' hr' hf hholds => Or.inr ?_
        exact hover r' hr' hf hholds
      · refine (h.modifyFiber _ fun r' hr' hf hholds => Or.inr ?_).dispatchTo _ _
        exact (hover r' hr' hf hholds).imp_left Nat.lt_succ_of_lt
      · exact h

theorem launch (h : w.Holds callback) (root : Effect) (hook : ExitHook) (notice : Option ExitNotice) :
    (w.launch root hook notice).2.Holds callback := by
  obtain ⟨r, hr, hholds⟩ := h
  have hrecord : w.record callback.fiber = some r.core := congrArg _ hr
  exact ⟨r, (fiber?_launch_of_ne (ne_size_of_record hrecord)).trans hr, hholds⟩

end Holds

theorem Extends.mem_tokens (h : w.Extends w') {t : Task} (ht : t ∈ w.tokens f) : t ∈ w'.tokens f :=
  (List.mem_append.1 ht).elim (fun ht => List.mem_append_left _ ((h.loop.inbox.filterMap _).subset ht))
    fun ht => List.mem_append_right _ ((h.aside.inbox.filterMap _).subset ht)

theorem Parked.launch (h : w.Parked callback run canceler) (root : Effect) (hook : ExitHook)
    (notice : Option ExitNotice) : (w.launch root hook notice).2.Parked callback run canceler := by
  obtain ⟨r, hr, hparked⟩ := h
  refine ⟨r, ?_, hparked⟩
  rw [World.record, fiber?_launch_of_ne (ne_size_of_record hr)]
  exact hr

namespace Remains

theorem mono (h : w.Remains callback run canceler) (hextends : w.Extends w')
    (hrecord : w'.record callback.fiber = w.record callback.fiber) : w'.Remains callback run canceler := by
  refine h.imp ?_ hextends.mem_tokens
  rintro ⟨r, hr, hparked⟩
  exact ⟨r, hrecord.trans hr, hparked⟩

/-- The record of a fiber changes that is not parked. -/
theorem modifyFiber (h : w.Remains callback run canceler) {f : FiberId} (change : Fiber → Fiber)
    (hawake : ∀ run canceler, w.phase? f ≠ some (.suspended run canceler)) :
    (w.modifyFiber f change).Remains callback run canceler := by
  refine h.imp_left ?_
  rintro ⟨r, hr, hepoch, hphase⟩
  have hne : f ≠ callback.fiber := fun hf => hawake run canceler (by
    rw [hf, phase?_of_record hr]
    exact congrArg some hphase)
  exact ⟨r, (record_modifyFiber_of_ne hne w change).trans hr, hepoch, hphase⟩

/-- An interrupt unparks a fiber, or is kept for later. -/
theorem interrupt (h : w.Remains callback run canceler) (g : FiberId) : (w.interrupt g).Remains callback run canceler := by
  have hextends := Extends.interrupt w g
  by_cases hg : g = callback.fiber
  · subst hg
    rcases h with ⟨r, hr, hepoch, hphase⟩ | htask
    · cases hflag : r.interruptRequested with
      | true =>
        rw [(interrupt_of_record hr hflag).1]
        exact Or.inl ⟨r, hr, hepoch, hphase⟩
      | false =>
        cases hmasks : run.masks.isInterruptible with
        | true =>
          rw [(interrupt_of_open hr hflag hphase hmasks).1]
          exact Or.inr (mem_tokens_of_loopAt (mem_loopAt_dispatchTo _ _ _) rfl)
        | false =>
          rw [(interrupt_of_masked hr hflag hphase hmasks).1]
          exact Or.inl ⟨_, record_modifyFiber hr fun _ => rfl, hepoch, hphase⟩
    · exact Or.inr (hextends.mem_tokens htask)
  · exact h.mono hextends (record_interrupt_of_ne hg w)

/-- Another callback is completed. -/
theorem settle (h : w.Remains callback run canceler) {callback' : Callback} (hne : callback' ≠ callback)
    (x : Exit Value Value) : (w.settle callback' x).Remains callback run canceler := by
  have hextends := Extends.settle w callback' x
  by_cases hg : callback'.fiber = callback.fiber
  · rcases h with ⟨r, hr, hepoch, hphase⟩ | htask
    · have hpast : r.epoch ≠ callback'.epoch := fun he => hne (by
        obtain ⟨f, e⟩ := callback
        obtain ⟨f', e'⟩ := callback'
        cases hg
        exact congrArg (Callback.mk f) (he.symm.trans hepoch))
      rw [(settle_of_record_epoch (hg ▸ hr) hpast x).1]
      exact Or.inl ⟨r, hr, hepoch, hphase⟩
    · exact Or.inr (hextends.mem_tokens htask)
  · exact h.mono hextends (record_settle_of_ne hg x w)

theorem launch (h : w.Remains callback run canceler) (root : Effect) (hook : ExitHook) (notice : Option ExitNotice) :
    (w.launch root hook notice).2.Remains callback run canceler := by
  have hprepared : w.Extends (w.prepare root hook notice).2 := ⟨.refl _, .refl _, rfl⟩
  have hextends : w.Extends (w.launch root hook notice).2 := hprepared.trans (.dispatch _ _)
  exact h.imp (·.launch root hook notice) hextends.mem_tokens

/-- The task with which a fiber cancels its wait goes on waiting, unless it is taken. -/
theorem dropMessage (h : w.Remains callback run canceler) {t : Task} {rest : List Message}
    (hinbox : w.loop.inbox = .task t :: rest) :
    w.dropMessage.Remains callback run canceler ∨ t = .unwind callback.fiber canceler run := by
  rcases h with hparked | htask
  · exact Or.inl (Or.inl hparked)
  · by_cases ht : t.fiber? = some callback.fiber
    · rw [tokens_of_inbox_self hinbox ht] at htask
      exact (List.mem_cons.1 htask).symm.imp Or.inr Eq.symm
    · exact Or.inl (Or.inr ((tokens_of_inbox_of_ne hinbox ht).symm ▸ htask))

end Remains

/-- Who is parked with a reserved callback remains parked, or is interrupted. -/
theorem Attends.remains (h : w.Attends reserved w') (hreserved : reserved callback)
    (hremains : w.Remains callback run canceler) : w'.Remains callback run canceler := by
  induction h with
  | refl w => exact hremains
  | trans _ _ ih ih' => exact ih' (ih hremains)
  | quiet h _ _ => exact hremains.mono (.request (.quiet h)) (h.record _)
  | interrupt w g => exact hremains.interrupt g
  | settle w hother x =>
    refine hremains.settle (fun he => hother ?_) x
    rw [he]
    exact hreserved
  | launch w root h => exact hremains.launch root _ _

/-- Who waits with a reserved callback goes on waiting, or is interrupted. -/
theorem Attends.holds (h : w.Attends reserved w') (hreserved : reserved callback) (hholds : w.Holds callback) :
    w'.Holds callback := by
  induction h with
  | refl w => exact hholds
  | trans _ _ ih ih' => exact ih' (ih hholds)
  | quiet h _ _ => exact hholds.of_record (h.record _)
  | interrupt w g => exact hholds.interrupt g
  | settle w hother x =>
    refine hholds.settle (fun he => hother ?_) x
    rw [he]
    exact hreserved
  | launch w root h => exact hholds.launch root _ _

end World

end FiberLoop
