import FiberLoop.Proofs.Runtime.Accounting

/-!
# The trail of a fiber

The trail of a fiber is the list of the stands at which it has been, each with the way that led to it. Each step
of a trail leads on from the one before, whatever the other fibers have done in between and however often the
fiber has yielded or was parked.

A trail `Spans` the evaluation of an effect from the step at which it begins to the step at which its exit is fed
to the run below. The main results of this module are `Finished.spans`, that every evaluation of a fiber that has
ended is spanned, and `Spans.nested`, that evaluations on top of each other are nested.
-/

namespace FiberLoop

/-- A stand of a fiber and the way that led to it. -/
structure Step where
  way : Way
  stand : Stand

def Event.step? : Event → Option Step
  | .began root => some ⟨.move, ⟨{}, .eval root⟩⟩
  | .stepped way s => some ⟨way, s⟩
  | .continued _ ending s => some ⟨.ended ending, s⟩
  | _ => none

/-- Where a fiber has been. -/
def trail (f : FiberId) (es : Chronicle) : List Step := (history f es).filterMap Event.step?

/-- The stand after so many steps. -/
def standAt (t : List Step) (i : Nat) : Option Stand := (t[i]?).map Step.stand

/-- Each step of a trail leads on from the one before. -/
def Linked (t : List Step) : Prop :=
  ∀ i s b, standAt t i = some s → t[i + 1]? = some b → Leads s b.way b.stand

/-- The last stand of a trail, and how far the fiber has come with it. -/
inductive Follows : Option Stand → Standing → Prop where
  | fresh (root : Effect) : Follows none (.fresh root)
  | ready (s : Stand) : Follows (some s) (.ready s)
  | registering {s : Stand} {r : Registration} (h : s.deed = .register r)
    (early : Option (Exit Value Value)) : Follows (some s) (.registering s.run early)
  | returned {s : Stand} {r : Registration} (h : s.deed = .register r) (early : Option (Exit Value Value))
    (c : Canceler) : Follows (some s) (.returned s.run early c)
  | parked {s : Stand} {r : Registration} (h : s.deed = .register r) (c : Canceler) :
    Follows (some s) (.parked s.run c)
  | unwinding {s : Stand} {r : Registration} (h : s.deed = .register r)
    (hmasks : s.run.masks.isInterruptible = true) (epoch : Nat) (c : Canceler) :
    Follows (some s) (.unwinding epoch s.run c)
  | leaving {s : Stand} {r : Registration} {ending : Ending} (h : s.deed = .register r)
    (hmasks : ending = .interrupted → s.run.masks.isInterruptible = true) (epoch : Nat) :
    Follows (some s) (.leaving epoch s.run ending)
  | exiting {s : Stand} {x : Exit Value Value} (h : s.deed = .exit x) : Follows (some s) (.exiting x)
  | done {s : Stand} {x : Exit Value Value} (h : s.deed = .exit x) : Follows (some s) (.done x)

section Trail

variable {t : List Step} {i : Nat} {s : Stand} {b : Step}

theorem standAt_of_getElem? (h : t[i]? = some b) : standAt t i = some b.stand := by
  rw [standAt, h]
  rfl

theorem Linked.nil : Linked [] := by
  intro i s b _ hb
  cases hb

theorem Linked.concat (h : Linked t) (hb : ∀ s, standAt t (t.length - 1) = some s → Leads s b.way b.stand) :
    Linked (t ++ [b]) := by
  intro i s b' hs hb'
  rcases Nat.lt_trichotomy (i + 1) t.length with hlt | heq | hgt
  · rw [List.getElem?_append_left hlt] at hb'
    rw [standAt, List.getElem?_append_left (Nat.lt_of_succ_lt hlt)] at hs
    exact h i s b' hs hb'
  · rw [List.getElem?_append_right (Nat.le_of_eq heq.symm), heq, Nat.sub_self] at hb'
    obtain rfl := Option.some.inj hb'
    rw [standAt, List.getElem?_append_left (by omega)] at hs
    refine hb s ?_
    rw [← heq]
    exact hs
  · rw [List.getElem?_eq_none (by simp; omega)] at hb'
    cases hb'

end Trail

/-- The last stand of a trail. -/
def lastStand (t : List Step) : Option Stand := standAt t (t.length - 1)

theorem lastStand_concat (t : List Step) (b : Step) : lastStand (t ++ [b]) = some b.stand := by
  simp [lastStand, standAt]

/-- What the trail of a fiber is like when it has come to a place. -/
structure Walked (events : List Event) (p : Place) : Prop where
  linked : Linked (events.filterMap Event.step?)
  follows : Follows (lastStand (events.filterMap Event.step?)) p.standing

section Walked

variable {events : List Event} {p q : Place} {e : Event}

/-- An event that is no step leaves the trail as it is. -/
theorem Walked.stay (h : Walked events p) (he : e.step? = none)
    (hq : ∀ {last}, Follows last p.standing → Follows last q.standing) : Walked (events ++ [e]) q := by
  have htrail : (events ++ [e]).filterMap Event.step? = events.filterMap Event.step? := by
    rw [Event.filterMap_concat, he]
    exact List.append_nil _
  refine ⟨?_, ?_⟩
  · rw [htrail]
    exact h.linked
  · rw [htrail]
    exact hq h.follows

/-- A step goes on from the last stand of the trail. -/
theorem Walked.step (h : Walked events p) {b : Step} (he : e.step? = some b)
    (hb : ∀ s, Follows (some s) p.standing → Leads s b.way b.stand) (hq : q.standing = .ready b.stand) :
    Walked (events ++ [e]) q := by
  have htrail : (events ++ [e]).filterMap Event.step? = events.filterMap Event.step? ++ [b] := by
    rw [Event.filterMap_concat, he]
    rfl
  have hfollows := h.follows
  refine ⟨?_, ?_⟩
  · rw [htrail]
    refine h.linked.concat fun s hs => hb s ?_
    rw [lastStand, hs] at hfollows
    exact hfollows
  · rw [htrail, lastStand_concat, hq]
    exact .ready _

theorem Walked.move (h : Walked events p) (hmove : Move p e q) : Walked (events ++ [e]) q := by
  cases hmove with
  | begin hs =>
    refine h.step rfl (fun s hfollows => ?_) rfl
    rw [hs] at hfollows
    cases hfollows
  | step hs hleads _ _ =>
    refine h.step rfl (fun s hfollows => ?_) rfl
    rw [hs] at hfollows
    cases hfollows
    exact hleads
  | register hs hdeed =>
    refine h.stay rfl fun hfollows => ?_
    rw [hs] at hfollows
    cases hfollows
    exact .registering hdeed none
  | «return» hs c =>
    refine h.stay rfl fun hfollows => ?_
    rw [hs] at hfollows
    cases hfollows with
    | registering hdeed => exact .returned hdeed _ c
  | keepRegistering hs x =>
    refine h.stay rfl fun hfollows => ?_
    rw [hs] at hfollows
    cases hfollows with
    | registering hdeed => exact .registering hdeed (some x)
  | keepReturned hs x =>
    refine h.stay rfl fun hfollows => ?_
    rw [hs] at hfollows
    cases hfollows with
    | returned hdeed => exact .returned hdeed (some x) _
  | park hs _ =>
    refine h.stay rfl fun hfollows => ?_
    rw [hs] at hfollows
    cases hfollows with
    | returned hdeed => exact .parked hdeed _
  | request _ => exact h.stay rfl id
  | throw hs d =>
    refine h.stay rfl fun hfollows => ?_
    rw [hs] at hfollows
    cases hfollows with
    | registering hdeed => exact .leaving hdeed (fun heq => Ending.noConfusion heq) _
  | early hs =>
    refine h.stay rfl fun hfollows => ?_
    rw [hs] at hfollows
    cases hfollows with
    | returned hdeed => exact .leaving hdeed (fun heq => Ending.noConfusion heq) _
  | answer hs x =>
    refine h.stay rfl fun hfollows => ?_
    rw [hs] at hfollows
    cases hfollows with
    | parked hdeed => exact .leaving hdeed (fun heq => Ending.noConfusion heq) _
  | interruptReturned hs hopen _ =>
    refine h.stay rfl fun hfollows => ?_
    rw [hs] at hfollows
    cases hfollows with
    | returned hdeed => exact .unwinding hdeed hopen _ _
  | interruptParked hs hopen _ =>
    refine h.stay rfl fun hfollows => ?_
    rw [hs] at hfollows
    cases hfollows with
    | parked hdeed => exact .unwinding hdeed hopen _ _
  | cancel hs =>
    refine h.stay rfl fun hfollows => ?_
    rw [hs] at hfollows
    cases hfollows with
    | unwinding hdeed hopen => exact .leaving hdeed (fun _ => hopen) _
  | «continue» hs =>
    refine h.step rfl (fun s hfollows => ?_) rfl
    rw [hs] at hfollows
    cases hfollows with
    | leaving hdeed hmasks => exact .ended hdeed _ hmasks
  | exit hs hdeed =>
    refine h.stay rfl fun hfollows => ?_
    rw [hs] at hfollows
    cases hfollows
    exact .exiting hdeed
  | tell hs =>
    refine h.stay rfl fun hfollows => ?_
    rw [hs] at hfollows
    cases hfollows with
    | exiting hdeed => exact .done hdeed

/-- How the trail of a fiber with that root begins, if it has begun. -/
def Begins (root : Effect) (events : List Event) (p : Place) : Prop :=
  p.standing = .fresh root ∧ events.filterMap Event.step? = [] ∨
    standAt (events.filterMap Event.step?) 0 = some ⟨{}, .eval root⟩

theorem Begins.move {root : Effect} (h : Begins root events p) (hmove : Move p e q) :
    Begins root (events ++ [e]) q := by
  unfold Begins
  rw [Event.filterMap_concat]
  rcases h with ⟨hfresh, hnil⟩ | hbegun
  · rw [hnil]
    cases hmove with
    | begin hs =>
      obtain rfl := Standing.fresh.inj (hs.symm.trans hfresh)
      exact Or.inr rfl
    | request _ => exact Or.inl ⟨hfresh, rfl⟩
    | step hs | register hs | «return» hs | keepRegistering hs | keepReturned hs | park hs | throw hs | early hs
    | answer hs | interruptReturned hs | interruptParked hs | cancel hs | «continue» hs | exit hs | tell hs =>
      exact nomatch hs.symm.trans hfresh
  · refine Or.inr ?_
    obtain ⟨b, hb, hstand⟩ := Option.map_eq_some_iff.1 hbegun
    rw [standAt, List.getElem?_append_left (List.getElem?_eq_some_iff.1 hb).1, hb]
    exact congrArg some hstand

/-- A fiber that has begun has begun with its root, on the empty run. -/
theorem Course.begins (h : Course events p) :
    ∃ root hook, events.head? = some (.launched root hook) ∧ Begins root events p := by
  refine h.invariant (P := fun events p =>
    ∃ root hook, events.head? = some (.launched root hook) ∧ Begins root events p) ?_ ?_
  · intro root hook
    exact ⟨root, hook, rfl, Or.inl ⟨rfl, rfl⟩⟩
  · intro es p e q ⟨root, hook, hhead, hbegins⟩ hmove
    refine ⟨root, hook, ?_, hbegins.move hmove⟩
    rw [List.head?_append, hhead]
    rfl

theorem Course.walked (h : Course events p) : Walked events p :=
  h.invariant (fun root _ => ⟨.nil, .fresh root⟩) fun hwalked hmove => hwalked.move hmove

end Walked

/-! ## Evaluations -/

/-- The trail of a fiber that has ended. -/
structure Finished (t : List Step) : Prop where
  linked : Linked t
  ends : ∀ s, lastStand t = some s → ∃ x, s.deed = .exit x

/-- The fiber is above a run from one step on until it feeds an exit to that run. -/
structure Spans (t : List Step) (base : Run) (i k : Nat) (x : Exit Value Value) : Prop where
  le : i ≤ k
  above : ∀ r, i ≤ r → r < k → ∃ s, standAt t r = some s ∧ s.Above base
  feeds : standAt t k = some ⟨base, .ofExit x⟩

/-- The evaluation of an effect on a run, from its first step to its exit. -/
structure Evaluates (t : List Step) (base : Run) (e : Effect) (i k : Nat) (x : Exit Value Value) : Prop where
  begins : standAt t i = some ⟨base, .eval e⟩
  spans : Spans t base i k x

section Evaluations

variable {t : List Step} {i : Nat} {s : Stand}

theorem Finished.next (h : Finished t) (hs : standAt t i = some s) (hexit : ∀ x, s.deed ≠ .exit x) :
    ∃ b, t[i + 1]? = some b ∧ Leads s b.way b.stand := by
  have hlt : i < t.length := by
    rcases Nat.lt_or_ge i t.length with hlt | hge
    · exact hlt
    · rw [standAt, List.getElem?_eq_none hge] at hs
      cases hs
  rcases Nat.lt_or_ge (i + 1) t.length with hnext | hlast
  · have hb : t[i + 1]? = some t[i + 1] := List.getElem?_eq_getElem hnext
    exact ⟨_, hb, h.linked i s _ hs hb⟩
  · have hi : i = t.length - 1 := by omega
    rw [hi] at hs
    obtain ⟨x, hx⟩ := h.ends s hs
    exact absurd hx (hexit x)

theorem Finished.move (h : Finished t) (hs : standAt t i = some s) {s' : Stand}
    (hdeed : s.deed = .move s') : t[i + 1]? = some ⟨.move, s'⟩ := by
  obtain ⟨⟨way, stand⟩, hb, hleads⟩ := h.next hs fun x hx => nomatch hdeed.symm.trans hx
  rw [hb]
  cases hleads with
  | move hmove =>
    cases hdeed.symm.trans hmove
    rfl
  | call hcall | cut hcall => cases hdeed.symm.trans hcall
  | cutWait hregister | ended hregister => cases hdeed.symm.trans hregister

/-- A closure is called unless an interrupt takes its place. -/
theorem Finished.leaf (h : Finished t) (hs : standAt t i = some s) {c : Call} {run : Run}
    (hdeed : s.deed = .call c run) :
    (∃ w : World, t[i + 1]? = some ⟨.call c, (w.called c run).1⟩) ∨
      t[i + 1]? = some ⟨.cut, ⟨run, .cause .interrupted⟩⟩ ∧ c.yields = true ∧
        run.masks.isInterruptible = true := by
  obtain ⟨⟨way, stand⟩, hb, hleads⟩ := h.next hs fun x hx => nomatch hdeed.symm.trans hx
  rw [hb]
  cases hleads with
  | move hmove => cases hdeed.symm.trans hmove
  | call hcall w =>
    cases hdeed.symm.trans hcall
    exact Or.inl ⟨w, rfl⟩
  | cut hcall hyields hmasks =>
    cases hdeed.symm.trans hcall
    exact Or.inr ⟨rfl, hyields, hmasks⟩
  | cutWait hregister | ended hregister => cases hdeed.symm.trans hregister

/-- No interrupt takes the place of the closure of a frame, nor of any in an uninterruptible region. -/
theorem Finished.call (h : Finished t) (hs : standAt t i = some s) {c : Call} {run : Run}
    (hdeed : s.deed = .call c run) (hclosed : c.yields = false ∨ run.masks.isInterruptible = false) :
    ∃ w : World, t[i + 1]? = some ⟨.call c, (w.called c run).1⟩ := by
  rcases h.leaf hs hdeed with hcall | ⟨-, hyields, hmasks⟩
  · exact hcall
  · rcases hclosed with hclosed | hclosed
    · exact nomatch hclosed.symm.trans hyields
    · exact nomatch hclosed.symm.trans hmasks

/-- **A fiber that has ended has come to the end of every evaluation that it began.** -/
theorem Finished.spans (h : Finished t) {base : Run} (hs : standAt t i = some s) (habove : s.Above base) :
    ∃ k x, Spans t base i k x := by
  obtain ⟨n, hn⟩ : ∃ n, n = t.length - i := ⟨_, rfl⟩
  induction n generalizing i s with
  | zero =>
    rw [standAt, List.getElem?_eq_none (by omega)] at hs
    cases hs
  | succ n ih =>
    obtain ⟨b, hb, hleads⟩ := h.next hs habove.not_exit
    have hnext := standAt_of_getElem? hb
    have hself : ∀ r, i ≤ r → r < i + 1 → ∃ s, standAt t r = some s ∧ s.Above base := by
      intro r hle hlt
      obtain rfl : r = i := by omega
      exact ⟨s, hs, habove⟩
    rcases hleads.stays habove with habove' | ⟨x, hx⟩
    · obtain ⟨k, x, hspans⟩ := ih hnext habove' (by omega)
      refine ⟨k, x, Nat.le_of_succ_le hspans.le, fun r hle hlt => ?_, hspans.feeds⟩
      rcases Nat.lt_or_ge r (i + 1) with hr | hr
      · exact hself r hle hr
      · exact hspans.above r hr hlt
    · refine ⟨i + 1, x, Nat.le_succ i, hself, ?_⟩
      rw [hnext, hx]

theorem Finished.evaluates (h : Finished t) {base : Run} {e : Effect}
    (hs : standAt t i = some ⟨base, .eval e⟩) : ∃ k x, Evaluates t base e i k x := by
  obtain ⟨k, x, hspans⟩ := h.spans hs (Stand.above_eval .refl e)
  exact ⟨k, x, hs, hspans⟩

end Evaluations

section Spans

variable {t : List Step} {base base' : Run} {i i' k k' : Nat} {x x' : Exit Value Value}

/-- At its end an evaluation is above nothing but what it lies on. -/
theorem Spans.not_above (h : Spans t base i k x) {s : Stand} (hs : standAt t k = some s) :
    ¬ s.Above base := by
  intro habove
  have hfeeds : s = ⟨base, .ofExit x⟩ := Option.some.inj (hs.symm.trans h.feeds)
  exact Stand.not_feeds_of_above habove x hfeeds

theorem Spans.here (h : standAt t k = some ⟨base, .ofExit x⟩) : Spans t base k k x :=
  ⟨Nat.le_refl k, fun _ hle hlt => absurd hlt (Nat.not_lt.2 hle), h⟩

theorem Spans.before {s : Stand} (h : Spans t base (i + 1) k x) (hs : standAt t i = some s)
    (habove : s.Above base) : Spans t base i k x := by
  refine ⟨Nat.le_of_succ_le h.le, fun r hle hlt => ?_, h.feeds⟩
  rcases Nat.eq_or_lt_of_le hle with rfl | hgt
  · exact ⟨s, hs, habove⟩
  · exact h.above r hgt hlt

/-- What lies on an inner run lies on the outer one too, also when the inner evaluation has ended. -/
theorem Spans.outer {inner : Run} {j : Nat} {y : Exit Value Value} (h : Spans t inner i j y)
    (hbase : base.Within inner) (hlength : base.frames.length < inner.frames.length)
    (h' : Spans t base (j + 1) k x) : Spans t base i k x := by
  have hle := h.le
  have hle' := h'.le
  refine ⟨by omega, fun r hi hk => ?_, h'.feeds⟩
  rcases Nat.lt_trichotomy r j with hlt | rfl | hgt
  · obtain ⟨s, hs, habove⟩ := h.above r hi hlt
    exact ⟨s, hs, habove.trans hbase⟩
  · exact ⟨_, h.feeds, Stand.above_of_length hbase hlength _⟩
  · exact h'.above r hgt hk

/-- While a fiber is above a run, it calls no closure for a frame below. -/
theorem Spans.not_call {run : Run} {r : Nat} (h : Spans t base i k x) (hlinked : Linked t)
    (hlength : run.frames.length < base.frames.length) (hi : i ≤ r) (hk : r < k) (c : Call) (next : Next) :
    t[r + 1]? ≠ some ⟨.call c, ⟨run, next⟩⟩ := by
  intro hr
  obtain ⟨s, hs, habove⟩ := h.above r hi hk
  have hdeed := (hlinked r s _ hs hr).deed_of_call
  have hle : base.frames.length ≤ run.frames.length := (habove.call hdeed).length_le
  exact absurd hlength (Nat.not_lt.2 hle)

/-- While a fiber is above a run in an uninterruptible region, no interrupt takes effect. -/
theorem Spans.not_cut {r : Nat} {b : Step} (h : Spans t base i k x) (hlinked : Linked t)
    (hmasks : base.masks.isInterruptible = false) (hi : i ≤ r) (hk : r < k) (hr : t[r + 1]? = some b) :
    b.way ≠ .cut ∧ b.way ≠ .ended .interrupted := by
  obtain ⟨s, hs, habove⟩ := h.above r hi hk
  exact (hlinked r s b hs hr).not_cut habove hmasks

/-- **An evaluation that begins on top of another one ends before it.** -/
theorem Spans.nested (h : Spans t base i k x) (h' : Spans t base' i' k' x') (hbase : base.Within base')
    (hlength : base.frames.length < base'.frames.length) (hle : i' ≤ k) : k' < k := by
  rcases Nat.lt_trichotomy k' k with hlt | rfl | hgt
  · exact hlt
  · have hfeeds := Option.some.inj (h.feeds.symm.trans h'.feeds)
    have hrun : base = base' := congrArg Stand.run hfeeds
    rw [hrun] at hlength
    exact absurd hlength (Nat.lt_irrefl _)
  · obtain ⟨s, hs, habove⟩ := h'.above k hle hgt
    exact absurd (habove.trans hbase) (h.not_above hs)

end Spans

end FiberLoop
