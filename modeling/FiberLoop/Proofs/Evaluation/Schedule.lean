import FiberLoop.Proofs.Evaluation.BigStep
import FiberLoop.Proofs.Runtime.Accounting
import FiberLoop.Proofs.Runtime.Queueing

/-!
# A fiber among others

A `Schedule` is a run of the loop in which one fiber is looked at. Between two of its turns other fibers run,
timers fire, and other threads queue tasks; all that is only asked to leave alone a part of the world, the one
on which the closures of the fiber act and in which its interrupt flag is.

The main results of this module are `Schedule.tick`, that whatever the next moment does the fiber stays where it
is or takes one step, the one that it would take in any world with the same part, and `Schedule.comes_on`, that
it does take that step.
-/

namespace FiberLoop

/-- The closures that a fiber calls in a moment. -/
def Moment.calls (f : FiberId) (m : Moment) : List Call :=
  match m.activity with
  | .running g (_ + 1) s =>
    if g = f then
      match s.deed with
      | .call c run => if m.world.cuts f c run then [] else [c]
      | _ => []
    else []
  | _ => []

/-- The closures that a fiber calls in the moments from one on before another. -/
def calledFrom (f : FiberId) (μ : Nat → Moment) (i n : Nat) : List Call :=
  (List.range' i (n - i)).flatMap fun j => (μ j).calls f

/-- A moment in which the invariants of the runtime hold of a fiber. -/
structure Moment.Sound (f : FiberId) (m : Moment) : Prop where
  fits : ∃ p, Fits f (m.view f) p
  quiet : m.world.TimersQuiet

section Parts

variable {σ : Type}

/-- A part of the world that belongs to a fiber: its interrupt flag is in it, and the queue of the loop is not. -/
structure Belongs (f : FiberId) (part : World → σ) : Prop where
  flag : ∀ v w, part v = part w → v.flagged f = w.flagged f
  queue : ∀ w task, part (w.dispatch task) = part w

/-- A closure that acts on a part of the world. -/
def Call.Local (part : World → σ) (c : Call) : Prop :=
  ∀ v w, part v = part w → c.result v = c.result w ∧ part (c.leaves v) = part (c.leaves w)

/-- Something else happens to the world: the fiber and its part are left alone, and the loop is only given more
to do. -/
structure Aside (f : FiberId) (part : World → σ) (w w' : World) : Prop where
  part : part w' = part w
  record : w'.record f = w.record f
  tokens : w'.tokens f = w.tokens f
  loop : w.loop.Extends w'.loop
  quiet : w.TimersQuiet → w'.TimersQuiet

/-- The moments of a run of the loop, with whatever else happens after each of them. -/
structure Schedule (f : FiberId) (part : World → σ) (μ : Nat → Moment) : Prop where
  activity : ∀ n, (μ (n + 1)).activity = (μ n).next.activity
  aside : ∀ n, Aside f part (μ n).next.world (μ (n + 1)).world

/-- In a moment that is not one of the fiber, the others act on a part of the world that is disjoint from its
own. -/
def Apart (f : FiberId) (part : World → σ) (m : Moment) : Prop :=
  (∀ left s, m.activity ≠ .running f left s) → part m.next.world = part m.world

/-- The others act on another part of the world, and the loop goes on. -/
structure Undisturbed (f : FiberId) (part : World → σ) (m : Moment) : Prop where
  apart : Apart f part m
  running : m.world.loop.stopped = false

end Parts

/-- The fiber is in the middle of a turn. -/
def OnTurn (f : FiberId) (s : Stand) (m : Moment) : Prop := ∃ left, m.activity = .running f left s

/-- Where the fiber stands: it is in the middle of a turn, or waits for the next one. -/
inductive At (f : FiberId) (s : Stand) (m : Moment) : Prop where
  | onTurn (h : OnTurn f s m)
  | waiting (before : List Message) (h : Awaits f s before m.world) (haway : m.activity.fiber? ≠ some f)

section Soundness

variable {f : FiberId} {m : Moment} {s : Stand} {before : List Message}

/-- The invariants of the runtime hold of every fiber at every reachable moment. -/
theorem Reachable.sound {es : Chronicle} (h : Reachable es m) {r : Fiber} (hf : m.world.fiber? f = some r) :
    m.Sound f := by
  refine ⟨?_, h.timersQuiet⟩
  rcases (h.accounted f).cases with ⟨-, habsent⟩ | ⟨p, -, hfits⟩
  · have hnone : (m.world.fiber? f).map Fiber.core = none := habsent.record
    rw [hf] at hnone
    cases hnone
  · exact ⟨p, hfits⟩

theorem Moment.Sound.next (h : m.Sound f) : m.next.Sound f := by
  obtain ⟨⟨p, hfits⟩, hquiet⟩ := h
  have hnext := LeadsTo.next hquiet
  obtain ⟨es, htransitions⟩ := hnext
  obtain ⟨q, -, hq⟩ := htransitions.fits hfits
  exact ⟨⟨q, hq⟩, htransitions.timersQuiet hquiet⟩

/-- Nobody else runs a fiber that waits for its turn. -/
theorem Moment.Sound.away (h : m.Sound f) (hawaits : Awaits f s before m.world) :
    m.activity.fiber? ≠ some f := by
  obtain ⟨⟨p, hfits⟩, -⟩ := h
  have hmem := hawaits.mem_tokens
  intro hactivity
  have hheld := hfits.held_of_activity rfl hactivity
  generalize m.world.tokens f = tokens at hheld hmem
  generalize m.activity = a at hheld hactivity
  generalize p.standing = standing at hheld
  cases hheld with
  | fresh | queued | unwinding | parked | done => cases hactivity
  | _ => cases hmem

end Soundness

/-! ## The closures that are called -/

section Calls

variable {f : FiberId} {μ : Nat → Moment} {i k n : Nat}

theorem calledFrom_self (f : FiberId) (μ : Nat → Moment) (i : Nat) : calledFrom f μ i i = [] := by
  rw [calledFrom, Nat.sub_self]
  rfl

theorem calledFrom_succ (h : i ≤ n) : calledFrom f μ i (n + 1) = calledFrom f μ i n ++ (μ n).calls f := by
  have hlength : n + 1 - i = (n - i) + 1 := by omega
  have hlast : i + 1 * (n - i) = n := by omega
  rw [calledFrom, hlength, List.range'_concat, List.flatMap_append, hlast, List.flatMap_singleton]
  rfl

theorem calledFrom_append (hi : i ≤ k) (hk : k ≤ n) :
    calledFrom f μ i n = calledFrom f μ i k ++ calledFrom f μ k n := by
  induction hk with
  | refl => rw [calledFrom_self, List.append_nil]
  | step hk ih => rw [calledFrom_succ (Nat.le_trans hi hk), calledFrom_succ hk, ih, List.append_assoc]

end Calls

/-! ## One moment after another -/

section Moments

variable {σ : Type} {f : FiberId} {part : World → σ} {m : Moment} {s s' : Stand} {v w v' : World}
  {calls : List Call} {left : Nat}

theorem Moment.next_of_turn (hactivity : m.activity = .running f (left + 1) s)
    (hexit : ∀ x, s.deed ≠ .exit x) (hregister : ∀ r, s.deed ≠ .register r) :
    ∃ s' v, Pace f s m.world (m.calls f) s' v ∧ m.next = ⟨v, .running f left s'⟩ := by
  obtain ⟨w, a⟩ := m
  subst hactivity
  cases hdeed : s.deed with
  | move s' =>
    have hcalls : Moment.calls f ⟨w, .running f (left + 1) s⟩ = [] := by simp [Moment.calls, hdeed]
    rw [hcalls]
    refine ⟨s', w, .move hdeed w, ?_⟩
    simp only [Moment.next, World.act, hdeed]
  | call c run =>
    cases hcuts : w.cuts f c run with
    | false =>
      have hcalls : Moment.calls f ⟨w, .running f (left + 1) s⟩ = [c] := by simp [Moment.calls, hdeed, hcuts]
      rw [hcalls]
      refine ⟨⟨run, c.result w⟩, c.leaves w, .call hdeed hcuts, ?_⟩
      simp only [Moment.next, World.act, hdeed, hcuts, Bool.false_eq_true, if_false]
      rfl
    | true =>
      have hcalls : Moment.calls f ⟨w, .running f (left + 1) s⟩ = [] := by simp [Moment.calls, hdeed, hcuts]
      rw [hcalls]
      refine ⟨⟨run, .cause .interrupted⟩, w, .cut hdeed hcuts, ?_⟩
      simp only [Moment.next, World.act, hdeed, hcuts, if_true]
  | register r => exact absurd hdeed (hregister r)
  | exit x => exact absurd hdeed (hexit x)

theorem Moment.calls_of_not_turn (h : ∀ left s, m.activity ≠ .running f left s) : m.calls f = [] := by
  unfold calls
  split
  · rename_i g left s hactivity
    split
    · rename_i hg
      rw [hg] at hactivity
      exact absurd hactivity (h _ _)
    · rfl
  · rfl

/-- A step depends on the world by the part only on which the fiber acts. -/
theorem Pace.transport (hpart : Belongs f part) (h : Pace f s v calls s' v') (hvw : part v = part w)
    (hlocal : ∀ c ∈ calls, c.Local part) : ∃ w', Pace f s w calls s' w' ∧ part v' = part w' := by
  have hcuts : ∀ c run, v.cuts f c run = w.cuts f c run := by
    intro c run
    have hflag := hpart.flag v w hvw
    unfold World.flagged at hflag
    rw [World.cuts, World.cuts, World.interruptPending, World.interruptPending, hflag]
  cases h with
  | move hdeed => exact ⟨w, .move hdeed w, hvw⟩
  | call hdeed hcut =>
    rename_i c run
    obtain ⟨hresult, hleaves⟩ := hlocal c (List.mem_singleton_self c) v w hvw
    rw [hresult]
    exact ⟨c.leaves w, .call hdeed ((hcuts c run).symm.trans hcut), hleaves⟩
  | cut hdeed hcut => exact ⟨w, .cut hdeed ((hcuts _ _).symm.trans hcut), hvw⟩

end Moments

namespace Schedule

variable {σ : Type} {f : FiberId} {part : World → σ} {μ : Nat → Moment} {s : Stand} {n : Nat}

theorem sound (h : Schedule f part μ) (hsound : (μ 0).Sound f) (n : Nat) : (μ n).Sound f := by
  induction n with
  | zero => exact hsound
  | succ n ih =>
    obtain ⟨⟨p, hfits⟩, hquiet⟩ := ih.next
    have haside := h.aside n
    have hview : (μ (n + 1)).view f = (μ n).next.view f := by
      unfold Moment.view World.view
      rw [h.activity n, haside.record, haside.tokens]
    exact ⟨⟨p, hview ▸ hfits⟩, haside.quiet hquiet⟩

theorem budget (h : Schedule f part μ) (hsound : (μ 0).Sound f) (n : Nat) :
    (μ n).world.budget = (μ 0).world.budget := by
  induction n with
  | zero => rfl
  | succ n ih =>
    have hnext := Moment.config_next (h.sound hsound n).quiet
    have hconfig := (h.aside n).loop.config.trans hnext
    exact (congrArg Config.yieldBudget hconfig).trans ih

/-! ## Waiting for a turn -/

theorem eq_idle {m : Moment} (h : m.activity = .idle) : m = ⟨m.world, .idle⟩ := by
  rw [← h]

theorem awaits_of_busy (h : Schedule f part μ) {before : List Message} (hbusy : (μ n).activity ≠ .idle)
    (hawaits : Awaits f s before (μ n).world) : Awaits f s before (μ (n + 1)).world :=
  (hawaits.mono (Moment.extends_next hbusy).loop).mono (h.aside n).loop

theorem awaits_of_stopped (h : Schedule f part μ) {before : List Message} (hidle : (μ n).activity = .idle)
    (hstopped : (μ n).world.loop.stopped = true) (hawaits : Awaits f s before (μ n).world) :
    Awaits f s before (μ (n + 1)).world := by
  refine Awaits.mono ?_ (h.aside n).loop
  rw [eq_idle hidle, Moment.next_of_stopped hstopped]
  exact hawaits

/-- When the next message is taken, the task of the fiber comes forward. -/
theorem awaits_of_cons (h : Schedule f part μ) (hsound : (μ 0).Sound f) {message : Message}
    {before : List Message} (hidle : (μ n).activity = .idle) (hstopped : (μ n).world.loop.stopped = false)
    (hawaits : Awaits f s (message :: before) (μ n).world) : Awaits f s before (μ (n + 1)).world := by
  refine Awaits.mono ?_ (h.aside n).loop
  rw [eq_idle hidle]
  exact hawaits.next_of_cons (h.sound hsound n).quiet hstopped

theorem turn_of_nil (h : Schedule f part μ) (hsound : (μ 0).Sound f) (hidle : (μ n).activity = .idle)
    (hstopped : (μ n).world.loop.stopped = false) (hawaits : Awaits f s [] (μ n).world) :
    (μ (n + 1)).activity = .running f (μ n).world.budget s := by
  rw [h.activity n, eq_idle hidle]
  exact hawaits.next_of_nil (h.sound hsound n).quiet hstopped

theorem at_of_awaits (h : Schedule f part μ) (hsound : (μ 0).Sound f) {before : List Message}
    (hawaits : Awaits f s before (μ n).world) : At f s (μ n) :=
  .waiting before hawaits ((h.sound hsound n).away hawaits)

/-- A fiber that waits for its turn still waits after a moment, or is on its turn. -/
theorem waits_on (h : Schedule f part μ) (hsound : (μ 0).Sound f) {before : List Message}
    (hawaits : Awaits f s before (μ n).world) : At f s (μ (n + 1)) := by
  by_cases hidle : (μ n).activity = .idle
  · cases hstopped : (μ n).world.loop.stopped with
    | true => exact h.at_of_awaits hsound (h.awaits_of_stopped hidle hstopped hawaits)
    | false =>
      cases before with
      | nil => exact .onTurn ⟨_, h.turn_of_nil hsound hidle hstopped hawaits⟩
      | cons message before =>
        exact h.at_of_awaits hsound (h.awaits_of_cons hsound hidle hstopped hawaits)
  · exact h.at_of_awaits hsound (h.awaits_of_busy hidle hawaits)

/-- A fiber that has used up its turn waits behind everything that is queued. -/
theorem awaits_of_yield (h : Schedule f part μ) (hpart : Belongs f part)
    (hactivity : (μ n).activity = .running f 0 s) :
    Awaits f s (μ n).world.loop.inbox (μ (n + 1)).world ∧ part (μ (n + 1)).world = part (μ n).world := by
  have hmoment : μ n = ⟨(μ n).world, .running f 0 s⟩ := by rw [← hactivity]
  have hnext : (μ n).next = ⟨(μ n).world.dispatch (.resume f s.run s.next), .idle⟩ := by
    rw [hmoment]
    rfl
  refine ⟨Awaits.mono ?_ (h.aside n).loop, ?_⟩
  · rw [hnext]
    exact .of_yield f s _
  · rw [(h.aside n).part, hnext]
    exact hpart.queue _ _

theorem not_turn_of_awaits (h : Schedule f part μ) (hsound : (μ 0).Sound f) {before : List Message}
    (hawaits : Awaits f s before (μ n).world) (left : Nat) (s' : Stand) :
    (μ n).activity ≠ .running f left s' := by
  intro hactivity
  have haway := (h.sound hsound n).away hawaits
  rw [hactivity] at haway
  exact haway rfl

/-- **In every moment a fiber stays where it is or takes a step.** -/
theorem tick (h : Schedule f part μ) (hpart : Belongs f part) (hsound : (μ 0).Sound f) (hat : At f s (μ n))
    (hexit : ∀ x, s.deed ≠ .exit x) (hregister : OnTurn f s (μ n) → ∀ r, s.deed ≠ .register r)
    (hapart : Apart f part (μ n)) :
    (∃ s' v, Pace f s (μ n).world ((μ n).calls f) s' v ∧ OnTurn f s' (μ (n + 1)) ∧
      part (μ (n + 1)).world = part v) ∨
    (μ n).calls f = [] ∧ At f s (μ (n + 1)) ∧ part (μ (n + 1)).world = part (μ n).world := by
  have hpart' := (h.aside n).part
  cases hat with
  | onTurn hturn =>
    obtain ⟨left, hactivity⟩ := hturn
    cases left with
    | zero =>
      obtain ⟨hawaits, hsame⟩ := h.awaits_of_yield hpart hactivity
      refine Or.inr ⟨?_, h.at_of_awaits hsound hawaits, hsame⟩
      rw [Moment.calls, hactivity]
    | succ left =>
      obtain ⟨s', v, hpace, hnext⟩ := Moment.next_of_turn hactivity hexit (hregister ⟨_, hactivity⟩)
      refine Or.inl ⟨s', v, hpace, ⟨left, ?_⟩, ?_⟩
      · rw [h.activity n, hnext]
      · rw [hpart', hnext]
  | waiting before hawaits haway =>
    have hothers := h.not_turn_of_awaits hsound hawaits
    exact Or.inr ⟨Moment.calls_of_not_turn hothers, h.waits_on hsound hawaits, hpart'.trans (hapart hothers)⟩

end Schedule

/-! ## Until the next step -/

/-- From one moment to another a fiber stays where it is, and its part of the world as it is. -/
structure Rests {σ : Type} (f : FiberId) (part : World → σ) (μ : Nat → Moment) (s : Stand) (n k : Nat) : Prop where
  le : n ≤ k
  part : part (μ k).world = part (μ n).world
  stays : ∀ i, n ≤ i → i ≤ k → At f s (μ i)
  silent : calledFrom f μ n k = []

namespace Rests

variable {σ : Type} {f : FiberId} {part : World → σ} {μ : Nat → Moment} {s : Stand} {n k : Nat}

theorem refl (h : At f s (μ n)) : Rests f part μ s n n := by
  refine ⟨Nat.le_refl n, rfl, fun i hn hk => ?_, calledFrom_self f μ n⟩
  rw [Nat.le_antisymm hk hn]
  exact h

theorem succ (h : Rests f part μ s n k) (hpart : part (μ (k + 1)).world = part (μ k).world)
    (hstays : At f s (μ (k + 1))) (hsilent : (μ k).calls f = []) : Rests f part μ s n (k + 1) := by
  refine ⟨Nat.le_succ_of_le h.le, hpart.trans h.part, fun i hn hk => ?_, ?_⟩
  · rcases Nat.eq_or_lt_of_le hk with rfl | hlt
    · exact hstays
    · exact h.stays i hn (Nat.le_of_lt_succ hlt)
  · rw [calledFrom_succ h.le, h.silent, hsilent, List.nil_append]

end Rests

namespace Schedule

variable {σ : Type} {f : FiberId} {part : World → σ} {μ : Nat → Moment} {s : Stand} {n k : Nat}

/-- As long as a fiber rests, the others leave its part of the world alone and the loop goes on. -/
def Calm (f : FiberId) (part : World → σ) (μ : Nat → Moment) (s : Stand) (n : Nat) : Prop :=
  ∀ k, Rests f part μ s n k → Undisturbed f part (μ k)

/-- A moment of the others, while the fiber waits. -/
theorem rests_succ (h : Schedule f part μ) (hsound : (μ 0).Sound f) (hcalm : Calm f part μ s n)
    (hrests : Rests f part μ s n k) {before : List Message} (hawaits : Awaits f s before (μ k).world) :
    Rests f part μ s n (k + 1) := by
  have hothers := h.not_turn_of_awaits hsound hawaits
  have hpart := (h.aside k).part.trans ((hcalm k hrests).apart hothers)
  exact hrests.succ hpart (h.waits_on hsound hawaits) (Moment.calls_of_not_turn hothers)

/-- What the others are busy with comes to its end. -/
theorem idle_of_awaits (h : Schedule f part μ) (hsound : (μ 0).Sound f) (hcalm : Calm f part μ s n)
    (hrests : Rests f part μ s n k) {before : List Message} (hawaits : Awaits f s before (μ k).world) :
    ∃ k', Rests f part μ s n k' ∧ (μ k').activity = .idle ∧ Awaits f s before (μ k').world := by
  obtain ⟨r, hr⟩ : ∃ r, r = (μ k).activity.rank := ⟨_, rfl⟩
  induction r using Nat.strongRecOn generalizing k with
  | ind r ih =>
    by_cases hidle : (μ k).activity = .idle
    · exact ⟨k, hrests, hidle, hawaits⟩
    · have hrank : (μ (k + 1)).activity.rank < r := by
        rw [h.activity k, hr]
        exact Moment.rank_next hidle
      exact ih _ hrank (h.rests_succ hsound hcalm hrests hawaits) (h.awaits_of_busy hidle hawaits) rfl

/-- A fiber that waits comes to its turn. -/
theorem turn_of_awaits (h : Schedule f part μ) (hsound : (μ 0).Sound f) (hcalm : Calm f part μ s n)
    (hrests : Rests f part μ s n k) {before : List Message} (hawaits : Awaits f s before (μ k).world) :
    ∃ k', Rests f part μ s n k' ∧ (μ k').activity = .running f (μ 0).world.budget s := by
  induction before generalizing k with
  | nil =>
    obtain ⟨k', hrests', hidle, hawaits'⟩ := h.idle_of_awaits hsound hcalm hrests hawaits
    refine ⟨k' + 1, h.rests_succ hsound hcalm hrests' hawaits', ?_⟩
    rw [h.turn_of_nil hsound hidle (hcalm k' hrests').running hawaits', h.budget hsound k']
  | cons message before ih =>
    obtain ⟨k', hrests', hidle, hawaits'⟩ := h.idle_of_awaits hsound hcalm hrests hawaits
    have hcloser := h.awaits_of_cons hsound hidle (hcalm k' hrests').running hawaits'
    exact ih (h.rests_succ hsound hcalm hrests' hawaits') hcloser

/-- **A fiber that is on its turn, or has used it up, comes to take its next step.** -/
theorem comes_on (h : Schedule f part μ) (hpart : Belongs f part) (hsound : (μ 0).Sound f)
    (hbudget : 0 < (μ 0).world.budget) (hcalm : Calm f part μ s n) (hturn : OnTurn f s (μ n)) :
    ∃ k left, Rests f part μ s n k ∧ (μ k).activity = .running f (left + 1) s := by
  have hrests : Rests f part μ s n n := .refl (.onTurn hturn)
  obtain ⟨left, hactivity⟩ := hturn
  cases left with
  | succ left => exact ⟨n, left, hrests, hactivity⟩
  | zero =>
    obtain ⟨hawaits, hsame⟩ := h.awaits_of_yield hpart hactivity
    have hsilent : (μ n).calls f = [] := by rw [Moment.calls, hactivity]
    have hyielded := hrests.succ hsame (h.at_of_awaits hsound hawaits) hsilent
    obtain ⟨k, hrests', hagain⟩ := h.turn_of_awaits hsound hcalm hyielded hawaits
    obtain ⟨left, hleft⟩ : ∃ left, (μ 0).world.budget = left + 1 := ⟨(μ 0).world.budget - 1, by omega⟩
    rw [hleft] at hagain
    exact ⟨k, left, hrests', hagain⟩

end Schedule

end FiberLoop
