import FiberLoop.Proofs.Brackets
import FiberLoop.Proofs.Runtime.Crossing

/-!
# Finalizers

A finalizer lies on the stack of a fiber as a fold before the first step of what it guards, and its frame is no
leaf, so there is no moment at which the guarded effect has ended and an interrupt could still keep the finalizer
from being started. It is run inside an uninterruptible region. Handlers that are nested are so many frames, and
the exit of the inner ones is what the outer ones see.

The main result of this module is `Reachable.finalizes`: however far a fiber has come with an effect under nested
finalizers, those that it has come to were started once each if the effect or a handler further in was
interrupted and not at all otherwise, from the inside out, and no interrupt took effect meanwhile.
-/

namespace FiberLoop

/-- Run an effect under finalizers, the innermost first. -/
def Effect.onInterruptedAll (e : Effect) : List Effect → Effect
  | [] => e
  | finalizer :: outer => (e.onInterrupted finalizer).onInterruptedAll outer

namespace Run

/-- The run on which an effect with a finalizer is evaluated. -/
def guarding (run : Run) (finalizer : Effect) : Run :=
  run.push (.fold (.transform .same) (.finalize finalizer.uninterruptible))

/-- The run on which a finalizer is evaluated. -/
def finalizing (run : Run) : Run := (run.push (.chain (.stop .interrupted))).enter .uninterruptible

/-- The run on which an effect under several finalizers is evaluated. -/
def guardingAll (run : Run) : List Effect → Run
  | [] => run
  | finalizer :: outer => (run.guardingAll outer).guarding finalizer

theorem within_guarding {run : Run} {finalizer : Effect} : run.Within (run.guarding finalizer) := .fold .refl _ _

theorem length_lt_guarding {run : Run} {finalizer : Effect} :
    run.frames.length < (run.guarding finalizer).frames.length := Nat.lt_succ_self _

theorem within_finalizing {run : Run} : run.Within run.finalizing := .region (.chain .refl _) _

theorem length_lt_finalizing {run : Run} : run.frames.length < run.finalizing.frames.length :=
  Nat.lt_succ_of_lt (Nat.lt_succ_self _)

end Run

/-- The guarded evaluation that began at step `i` starts its finalizer at step `r`. -/
structure Starts (t : List Step) (run : Run) (finalizer : Effect) (i r : Nat) : Prop where
  later : i < r
  within : ∀ q s, i ≤ q → q < r → standAt t q = some s → s.Above run
  begins : t[r]? = some ⟨.move, ⟨run.finalizing, .eval finalizer⟩⟩

/-- None of the finalizers around the evaluation that began at step `i` is started. -/
def Dormant (t : List Step) (run : Run) (i : Nat) (finalizers : List Effect) : Prop :=
  ∀ finalizer outer, finalizer :: outer <:+ finalizers →
    ∀ r, ¬ Starts t (run.guardingAll outer) finalizer (i + outer.length) r

/-- What becomes of an exit that is fed at some step to the innermost of these handlers. The evaluation of all of
them together began at step `i`. -/
inductive Relayed (t : List Step) (run : Run) (i : Nat) : List Effect → Nat → Exit Value Value → Prop where
  /-- There is no handler left, and the exit is that of the whole evaluation. -/
  | over {j : Nat} {y : Exit Value Value} (hexit : Crosses t run i j y) : Relayed t run i [] j y
  /-- An exit that is no interrupt passes through a handler, and the finalizer is not started. -/
  | passed {finalizer : Effect} {outer : List Effect} {j : Nat} {y : Exit Value Value}
    (hy : y.isInterrupted = false)
    (hnever : ∀ r, ¬ Starts t (run.guardingAll outer) finalizer (i + outer.length) r)
    (huncut : Uncut t j (j + 1)) (hrest : Relayed t run i outer (j + 1) y) :
    Relayed t run i (finalizer :: outer) j y
  /-- After an interrupt the finalizer is started once, and it has not ended. -/
  | finalizing {finalizer : Effect} {outer : List Effect} {j : Nat}
    (honce : ∀ r, Starts t (run.guardingAll outer) finalizer (i + outer.length) r ↔ r = j + 3 ∧ j + 3 < t.length)
    (hlasts : Lasts t (run.guardingAll outer).finalizing (j + 3)) (huncut : Uncut t j t.length)
    (hdormant : Dormant t run i outer) : Relayed t run i (finalizer :: outer) j .interrupted
  /-- After an interrupt the finalizer is started once, and it has run to its end. What goes on is the interrupt,
  or the cause of the finalizer. -/
  | finalized {finalizer : Effect} {outer : List Effect} {j l : Nat} {z : Exit Value Value}
    (honce : ∀ r, Starts t (run.guardingAll outer) finalizer (i + outer.length) r ↔ r = j + 3 ∧ j + 3 < t.length)
    (hran : Evaluates t (run.guardingAll outer).finalizing finalizer (j + 3) l z) (huncut : Uncut t j (l + 2))
    (hrest : Relayed t run i outer (l + 2) (z.fold (fun _ => .interrupted) .cause)) :
    Relayed t run i (finalizer :: outer) j .interrupted

/-- How far a fiber has come with an effect under finalizers, whose evaluation began at step `i`. -/
inductive Finalized (t : List Step) (run : Run) (e : Effect) (finalizers : List Effect) (i : Nat) : Prop where
  /-- The effect has not ended. -/
  | running (hlasts : Lasts t (run.guardingAll finalizers) (i + finalizers.length))
    (hdormant : Dormant t run i finalizers)
  /-- The effect has ended, and its exit is fed to the innermost handler. -/
  | ended {j : Nat} {y : Exit Value Value}
    (hended : Evaluates t (run.guardingAll finalizers) e (i + finalizers.length) j y)
    (hrelayed : Relayed t run i finalizers j y)

section Finalizers

variable {t : List Step} {run : Run} {e finalizer : Effect} {finalizers outer : List Effect} {i j l q r : Nat}
  {y z : Exit Value Value}

/-! ## The steps of a handler -/

/-- Only a region enters a run under a mask. -/
theorem Stand.of_enter {s : Stand} {status : Interruptibility}
    (h : s.deed = .move ⟨run.enter status, .eval e⟩) : ∃ asked, s = ⟨run, .eval (.region e asked)⟩ := by
  obtain ⟨frames, masks⟩ := run
  obtain ⟨⟨frames', masks'⟩, next⟩ := s
  cases next with
  | eval e' =>
    cases e' with
    | region body asked =>
      injection h with h
      injection h with hrun hnext
      simp only [Run.enter, Masks.push, Run.mk.injEq, List.cons.injEq, Masks.mk.injEq, true_and] at hrun
      obtain ⟨rfl, -, hmasks⟩ := hrun
      cases hnext
      exact ⟨asked, by cases masks; cases masks'; cases hmasks; rfl⟩
    | _ => cases h
  | value v | cause c =>
    cases frames' with
    | nil => cases h
    | cons frame rest =>
      cases frame with
      | region =>
        injection h with h
        injection h with _ hnext
        cases hnext
      | _ => cases h

/-- One step before its start a finalizer is the body of a region. -/
theorem Starts.before (h : Starts t run finalizer i r) (hlinked : Linked t) : ∃ q asked, r = q + 1 ∧ i ≤ q ∧
    standAt t q = some ⟨run.push (.chain (.stop .interrupted)), .eval (.region finalizer asked)⟩ := by
  have hi := h.later
  obtain ⟨q, rfl⟩ : ∃ q, r = q + 1 := ⟨r - 1, by omega⟩
  obtain ⟨b, hb, hs⟩ := standAt_of_lt (Nat.lt_of_succ_lt (standAt_lt_length (standAt_of_getElem? h.begins)))
  have hleads : Leads b.stand .move ⟨run.finalizing, .eval finalizer⟩ := hlinked q _ _ hs h.begins
  cases hleads with
  | move hdeed =>
    obtain ⟨asked, hstand⟩ := Stand.of_enter hdeed
    exact ⟨q, asked, rfl, by omega, hs.trans (congrArg some hstand)⟩

/-- An evaluation that has its exit starts no finalizer any more. -/
theorem Crosses.le_of_starts (h : Crosses t run i j z) (hr : Starts t run finalizer i r) : r ≤ j := by
  rcases Nat.lt_or_ge j r with hlt | hge
  · have hj := h.feeds (Nat.lt_trans hlt (standAt_lt_length (standAt_of_getElem? hr.begins)))
    exact absurd rfl (Stand.not_feeds_of_above (hr.within j _ h.le hlt hj) z)
  · exact hge

/-- Above the run of the guarded effect no region is entered from the frame of a handler that has been left. -/
theorem Stand.Above.not_starts {asked : Interruptibility} :
    ¬ Stand.Above (run.guarding finalizer) ⟨run.push (.chain (.stop .interrupted)), .eval (.region e asked)⟩ := by
  intro habove
  have heq := habove.1.eq_of_length (Nat.le_refl _)
  exact nomatch congrArg Run.frames heq

theorem Linked.guards (h : Linked t) (hs : Arrives t i ⟨run, .eval (e.onInterrupted finalizer)⟩) :
    Arrives t (i + 1) ⟨run.guarding finalizer, .eval e⟩ := h.moves hs rfl

/-- A finalizer is started after the guarded effect has ended. -/
theorem Crosses.lt_of_starts (hbody : Crosses t (run.guarding finalizer) (i + 1) j y)
    (hs : Arrives t i ⟨run, .eval (e.onInterrupted finalizer)⟩) {asked : Interruptibility} (hi : i ≤ q)
    (hq : standAt t q = some ⟨run.push (.chain (.stop .interrupted)), .eval (.region finalizer asked)⟩) : j < q := by
  have hne : q ≠ i := by
    rintro rfl
    exact nomatch congrArg Stand.next (hs.eq hq)
  rcases Nat.lt_trichotomy q j with hlt | rfl | hgt
  · exact absurd (hbody.above q _ (by omega) hlt hq) Stand.Above.not_starts
  · have hnext := congrArg Stand.next (hbody.feeds.eq hq)
    cases y <;> cases hnext
  · exact hgt

/-- While the guarded effect has not ended its finalizer is not started. -/
theorem Linked.not_starts (h : Linked t) (hs : Arrives t i ⟨run, .eval (e.onInterrupted finalizer)⟩)
    (hlasts : Lasts t (run.guarding finalizer) (i + 1)) : ¬ Starts t run finalizer i r := by
  intro hr
  obtain ⟨q, asked, rfl, hi, hq⟩ := hr.before h
  have hbody : Crosses t (run.guarding finalizer) (i + 1) (max t.length (i + 1)) .interrupted :=
    hlasts.crosses (by omega) (by omega)
  have hlt := hbody.lt_of_starts hs hi hq
  have hlength := standAt_lt_length hq
  omega

/-- What is left when the guarded effect has ended is all that is left of the evaluation. -/
theorem Crosses.of_guarded (hbody : Crosses t (run.guarding finalizer) (i + 1) j y)
    (hs : Arrives t i ⟨run, .eval (e.onInterrupted finalizer)⟩) (hrest : Crosses t run (j + 1) l z) :
    Crosses t run i l z := by
  have hle := hbody.le
  have hle' := hrest.le
  refine ⟨by omega, fun r s hi hl hr => ?_, hrest.feeds⟩
  have hcases : r = i ∨ (i + 1 ≤ r ∧ r < j) ∨ r = j ∨ j + 1 ≤ r := by omega
  rcases hcases with rfl | ⟨hlow, hhigh⟩ | rfl | hlate
  · rw [hs.eq hr]
    exact Stand.above_eval .refl _
  · exact (hbody.above r s hlow hhigh hr).trans Run.within_guarding
  · rw [hbody.feeds.eq hr]
    exact Stand.above_of_length Run.within_guarding Run.length_lt_guarding _
  · exact hrest.above r s hlate hl hr

/-- No interrupt takes effect at a step that pushes or pops a frame or calls the closure of one. -/
theorem Linked.uncut (h : Linked t) {s : Stand} (hs : Arrives t r s)
    (hcall : ∀ c run, s.deed = .call c run → c.yields = false) (hregister : ∀ ρ, s.deed ≠ .register ρ) :
    Uncut t r (r + 1) := by
  intro q b hlow hhigh hb
  obtain rfl : q = r + 1 := by omega
  obtain ⟨way, stand⟩ := b
  cases h.leads hs hb with
  | move hdeed => exact ⟨Way.noConfusion, Way.noConfusion⟩
  | call hdeed w => exact ⟨Way.noConfusion, Way.noConfusion⟩
  | cut hdeed hyields => exact nomatch (hcall _ _ hdeed).symm.trans hyields
  | cutWait hdeed => exact absurd hdeed (hregister _)
  | ended hdeed => exact absurd hdeed (hregister _)

theorem Uncut.trans (h : Uncut t i j) (h' : Uncut t j l) : Uncut t i l := by
  intro r b hlow hhigh hb
  rcases Nat.lt_or_ge j r with hlt | hge
  · exact h' r b hlt hhigh hb
  · exact h r b hlow hge hb

/-- An exit that is no interrupt passes. -/
theorem Linked.passes (h : Linked t) (hs : Arrives t j ⟨run.guarding finalizer, .ofExit y⟩)
    (hy : y.isInterrupted = false) : Arrives t (j + 1) ⟨run, .ofExit y⟩ ∧ Uncut t j (j + 1) := by
  cases y with
  | value v =>
    refine ⟨h.calls hs (c := .bind (.transform .same) v) rfl (fun _ => rfl) (Or.inl rfl), h.uncut hs ?_ ?_⟩
    · intro c run' hdeed
      cases hdeed
      rfl
    · exact fun ρ => Deed.noConfusion
  | cause c =>
    refine ⟨h.calls hs (c := .recover (.finalize finalizer.uninterruptible) c) rfl (fun w => ?_) (Or.inl rfl),
      h.uncut hs ?_ ?_⟩
    · cases c with
      | interrupted => cases hy
      | failed _ | aborted _ => rfl
    · intro c run' hdeed
      cases hdeed
      rfl
    · exact fun ρ => Deed.noConfusion

/-- After an interrupt the finalizer is run on top of a frame that interrupts again. -/
theorem Linked.interrupts (h : Linked t) (hs : Arrives t j ⟨run.guarding finalizer, .cause .interrupted⟩) :
    Arrives t (j + 1) ⟨run, .eval (.chain finalizer.uninterruptible (.stop .interrupted))⟩ ∧
      Arrives t (j + 2) ⟨run.push (.chain (.stop .interrupted)), .eval finalizer.uninterruptible⟩ ∧
      Arrives t (j + 3) ⟨run.finalizing, .eval finalizer⟩ ∧ Uncut t j (j + 3) := by
  have hhandled : Arrives t (j + 1) ⟨run, .eval (.chain finalizer.uninterruptible (.stop .interrupted))⟩ :=
    h.calls hs (c := .recover (.finalize finalizer.uninterruptible) .interrupted) rfl (fun _ => rfl) (Or.inl rfl)
  have hpushed : Arrives t (j + 2) ⟨run.push (.chain (.stop .interrupted)), .eval finalizer.uninterruptible⟩ :=
    h.moves hhandled rfl
  refine ⟨hhandled, hpushed, h.moves hpushed rfl, ?_⟩
  have hfirst : Uncut t j (j + 1) := by
    refine h.uncut hs (fun c run' hdeed => ?_) fun ρ => Deed.noConfusion
    cases hdeed
    rfl
  have hsecond : Uncut t (j + 1) (j + 2) :=
    h.uncut hhandled (fun c run' hdeed => nomatch hdeed) fun ρ => Deed.noConfusion
  have hthird : Uncut t (j + 2) (j + 3) :=
    h.uncut hpushed (fun c run' hdeed => nomatch hdeed) fun ρ => Deed.noConfusion
  exact (hfirst.trans hsecond).trans hthird

/-- When the finalizer has ended the fiber is interrupted again, unless there is a cause of the finalizer. -/
theorem Linked.stops (h : Linked t) (hs : Arrives t l ⟨run.finalizing, .ofExit z⟩) :
    Arrives t (l + 1) ⟨run.push (.chain (.stop .interrupted)), .ofExit z⟩ ∧
      Arrives t (l + 2) ⟨run, .ofExit (z.fold (fun _ => .interrupted) .cause)⟩ ∧ Uncut t l (l + 2) := by
  have hleft : Arrives t (l + 1) ⟨run.push (.chain (.stop .interrupted)), .ofExit z⟩ := h.leaves hs
  refine ⟨hleft, ?_⟩
  cases z with
  | value v =>
    refine ⟨h.calls hleft (c := .bind (.stop .interrupted) v) rfl (fun _ => rfl) (Or.inl rfl), ?_⟩
    refine (h.uncut hs ?_ ?_).trans (h.uncut hleft ?_ ?_)
    · exact fun c run' hdeed => nomatch hdeed
    · exact fun ρ => Deed.noConfusion
    · intro c run' hdeed
      cases hdeed
      rfl
    · exact fun ρ => Deed.noConfusion
  | cause c =>
    refine ⟨h.moves hleft rfl, ?_⟩
    refine (h.uncut hs ?_ ?_).trans (h.uncut hleft ?_ ?_)
    · exact fun c run' hdeed => nomatch hdeed
    · exact fun ρ => Deed.noConfusion
    · exact fun c run' hdeed => nomatch hdeed
    · exact fun ρ => Deed.noConfusion

theorem Run.isInterruptible_finalizing : run.finalizing.masks.isInterruptible = false :=
  Masks.isInterruptible_push_uninterruptible _

/-- **After an interrupt of the guarded effect the finalizer is started once and nothing cuts it.** What the
handler ends with is the interrupt, or the cause of the finalizer. -/
theorem Linked.runs_finalizer (h : Linked t) (hs : Arrives t i ⟨run, .eval (e.onInterrupted finalizer)⟩)
    (hbody : Crosses t (run.guarding finalizer) (i + 1) j .interrupted)
    (hran : Crosses t run.finalizing (j + 3) l z) :
    (∀ r, Starts t run finalizer i r ↔ r = j + 3 ∧ j + 3 < t.length) ∧ Uncut t j (l + 2) ∧
      Crosses t run i (l + 2) (z.fold (fun _ => .interrupted) .cause) := by
  obtain ⟨hhandled, hpushed, hbegun, hbefore⟩ := h.interrupts hbody.feeds
  obtain ⟨hleft, hover, hafter⟩ := h.stops hran.feeds
  have hi := hbody.le
  have hj := hran.le
  have habove : ∀ q s, j + 1 ≤ q → q < l + 2 → standAt t q = some s → s.Above run := by
    intro q s hlow hhigh hq
    have hcases : q = j + 1 ∨ q = j + 2 ∨ (j + 3 ≤ q ∧ q < l) ∨ q = l ∨ q = l + 1 := by omega
    rcases hcases with rfl | rfl | ⟨hle, hlt⟩ | rfl | rfl
    · rw [hhandled.eq hq]
      exact Stand.above_eval .refl _
    · rw [hpushed.eq hq]
      exact Stand.above_eval (.chain .refl _) _
    · exact (hran.above q s hle hlt hq).trans Run.within_finalizing
    · rw [hran.feeds.eq hq]
      exact Stand.above_of_length Run.within_finalizing Run.length_lt_finalizing _
    · rw [hleft.eq hq]
      exact Stand.above_of_length (.chain .refl _) (Nat.lt_succ_self _) _
  have hexit : Crosses t run i (l + 2) (z.fold (fun _ => .interrupted) .cause) :=
    hbody.of_guarded hs ⟨by omega, habove, hover⟩
  have hduring : Uncut t (j + 3) l := hran.uncut h Run.isInterruptible_finalizing
  refine ⟨fun r => ⟨fun hr => ?_, ?_⟩, (hbefore.trans hduring).trans hafter, hexit⟩
  · have hlength := standAt_lt_length (standAt_of_getElem? hr.begins)
    have hle := hexit.le_of_starts hr
    obtain ⟨q, asked, rfl, hiq, hq⟩ := hr.before h
    have hlt := hbody.lt_of_starts hs hiq hq
    have hcases : q = j + 1 ∨ q = j + 2 ∨ (j + 3 ≤ q ∧ q < l) ∨ q = l ∨ q = l + 1 := by omega
    rcases hcases with rfl | rfl | ⟨hle', hlt'⟩ | rfl | rfl
    · exact nomatch congrArg Stand.next (hhandled.eq hq)
    · exact ⟨rfl, hlength⟩
    · have hframes := (hran.above q _ hle' hlt' hq).1.length_le
      exact absurd hframes (Nat.not_le.2 (Nat.lt_succ_self _))
    · have hnext := congrArg Stand.next (hran.feeds.eq hq)
      cases z <;> cases hnext
    · have hnext := congrArg Stand.next (hleft.eq hq)
      cases z <;> cases hnext
  · rintro ⟨rfl, hlength⟩
    exact ⟨by omega, fun q s hle hlt hq => hexit.above q s hle (by omega) hq,
      h.getElem?_of_move hpushed rfl hlength⟩

/-- **If the guarded effect ends with anything but an interrupt its finalizer is not started.** -/
theorem Linked.spares (h : Linked t) (hs : Arrives t i ⟨run, .eval (e.onInterrupted finalizer)⟩)
    (hbody : Crosses t (run.guarding finalizer) (i + 1) j y) (hy : y.isInterrupted = false) :
    (∀ r, ¬ Starts t run finalizer i r) ∧ Uncut t j (j + 1) ∧ Crosses t run i (j + 1) y := by
  obtain ⟨hpassed, huncut⟩ := h.passes hbody.feeds hy
  have hexit : Crosses t run i (j + 1) y := hbody.of_guarded hs (.here hpassed)
  refine ⟨fun r hr => ?_, huncut, hexit⟩
  have hle := hexit.le_of_starts hr
  obtain ⟨q, asked, rfl, hiq, hq⟩ := hr.before h
  have hlt := hbody.lt_of_starts hs hiq hq
  omega

/-! ## Nested handlers -/

theorem Exit.eq_interrupted {ε α : Type} (x : Exit ε α) (hx : x.isInterrupted = true) : x = .interrupted := by
  cases x with
  | value a => cases hx
  | cause c =>
    cases c with
    | interrupted => rfl
    | failed _ | aborted _ => cases hx

/-- The innermost handler is reached after as many steps as there are handlers around it. -/
theorem Linked.enters (h : Linked t) (hs : standAt t i = some ⟨run, .eval (e.onInterruptedAll finalizers)⟩) :
    Arrives t (i + finalizers.length) ⟨run.guardingAll finalizers, .eval e⟩ := by
  induction finalizers generalizing e with
  | nil => exact .of_standAt hs
  | cons finalizer outer ih => exact h.guards (ih hs)

/-- While the effect has not ended, no finalizer around it is started. -/
theorem Linked.dormant (h : Linked t) (hs : standAt t i = some ⟨run, .eval (e.onInterruptedAll finalizers)⟩)
    (hlasts : Lasts t (run.guardingAll finalizers) (i + finalizers.length)) : Dormant t run i finalizers := by
  induction finalizers generalizing e with
  | nil =>
    intro finalizer outer hsuffix
    exact nomatch List.suffix_nil.1 hsuffix
  | cons finalizer outer ih =>
    have harrives : Arrives t (i + outer.length) ⟨run.guardingAll outer, .eval (e.onInterrupted finalizer)⟩ :=
      h.enters (e := e.onInterrupted finalizer) hs
    have houter : Lasts t (run.guardingAll outer) (i + outer.length) := by
      intro r s hle hr
      rcases Nat.eq_or_lt_of_le hle with rfl | hlt
      · rw [harrives.eq hr]
        exact Stand.above_eval .refl _
      · exact (hlasts r s hlt hr).trans Run.within_guarding
    intro finalizer' outer' hsuffix r
    rcases List.suffix_cons_iff.1 hsuffix with heq | hsuffix
    · cases heq
      exact h.not_starts harrives hlasts
    · exact ih (e := e.onInterrupted finalizer) hs houter finalizer' outer' hsuffix r

/-- **Whatever an effect under finalizers ends with, the handlers are worked off from the inside out.** -/
theorem Linked.relayed (h : Linked t) (hs : standAt t i = some ⟨run, .eval (e.onInterruptedAll finalizers)⟩)
    (hbody : Crosses t (run.guardingAll finalizers) (i + finalizers.length) j y) :
    Relayed t run i finalizers j y := by
  induction finalizers generalizing e j y with
  | nil => exact .over hbody
  | cons finalizer outer ih =>
    have houter : standAt t i = some ⟨run, .eval ((e.onInterrupted finalizer).onInterruptedAll outer)⟩ := hs
    have harrives := h.enters houter
    cases hy : y.isInterrupted with
    | false =>
      obtain ⟨hnever, huncut, hexit⟩ := h.spares harrives hbody hy
      exact .passed hy hnever huncut (ih houter hexit)
    | true =>
      obtain rfl : y = .interrupted := y.eq_interrupted hy
      obtain ⟨-, -, hbegun, -⟩ := h.interrupts hbody.feeds
      rcases h.evaluation hbegun with hlasts | ⟨l, z, hran⟩
      · obtain ⟨n, hn, hle⟩ : ∃ n, t.length ≤ n ∧ j + 3 ≤ n := ⟨max t.length (j + 3), by omega, by omega⟩
        obtain ⟨honce, huncut, hexit⟩ := h.runs_finalizer harrives hbody (hlasts.crosses (x := .interrupted) hle hn)
        refine .finalizing honce hlasts (fun r b hlow hhigh => huncut r b hlow (by omega)) ?_
        exact h.dormant houter fun r s hi hr => hexit.above r s hi (by have := standAt_lt_length hr; omega) hr
      · obtain ⟨honce, huncut, hexit⟩ :=
          h.runs_finalizer harrives hbody hran.spans.crosses
        exact .finalized honce hran huncut (ih houter hexit)

theorem Linked.finalized (h : Linked t) (hs : standAt t i = some ⟨run, .eval (e.onInterruptedAll finalizers)⟩) :
    Finalized t run e finalizers i := by
  rcases h.evaluation (h.enters hs) with hlasts | ⟨j, y, hended⟩
  · exact .running hlasts (h.dormant hs hlasts)
  · exact .ended hended (h.relayed hs hended.spans.crosses)

end Finalizers

/-! ## Finalizers of a run -/

section Main

variable {f : FiberId} {m : Moment} {es : Chronicle} {r : Fiber}

/-- **A finalizer is started once if what it guards ends with an interrupt, and never otherwise.** It runs inside
an uninterruptible region, after it the fiber is interrupted again unless it ended with a cause, and every other
exit passes. Nested finalizers run from the inside out, each as soon as the one further in has ended with a value
or with an interrupt. A fiber that is done has come to the exit of everything that it guarded. -/
theorem Reachable.finalizes (h : Reachable es m) (hf : m.world.fiber? f = some r) {i : Nat} {run : Run} {e : Effect}
    {finalizers : List Effect}
    (hs : standAt (trail f es) i = some ⟨run, .eval (e.onInterruptedAll finalizers)⟩) :
    Finalized (trail f es) run e finalizers i ∧ (r.phase = .done → ∃ n x, Spans (trail f es) run i n x) := by
  refine ⟨(h.linked hf).finalized hs, fun hdone => ?_⟩
  exact (h.finished hf hdone).spans hs (Stand.above_eval .refl _)

/-- Nothing, under two finalizers that do nothing. -/
def guardedTwice : Effect := Effect.unitValue.onInterruptedAll [.unitValue, .unitValue]

/-- The world in which a fiber was interrupted before its first step and then given a turn. -/
def cancelledTwice : World := (((Scenario.initial {} []).fork guardedTwice).2.interrupt ⟨0⟩).pass

/-- A fiber that is interrupted before its first step runs both finalizers and ends as cancelled. -/
theorem Reachable.finalizes_guarded_twice : ∃ es r n x, Reachable es ⟨cancelledTwice, .idle⟩ ∧
    cancelledTwice.fiber? ⟨0⟩ = some r ∧ r.state = .cancelled ∧
      Finalized (trail ⟨0⟩ es) {} .unitValue [.unitValue, .unitValue] 0 ∧ Spans (trail ⟨0⟩ es) {} 0 n x := by
  have hfork : Transitions ⟨Scenario.initial {} [], .idle⟩ [(⟨0⟩, .launched guardedTwice .publish)]
      ⟨((Scenario.initial {} []).fork guardedTwice).2, .idle⟩ :=
    .one (.request (.launch _ guardedTwice .publish) .idle)
  have hinterrupt := Between.requested ⟨_, .one (.interrupt ((Scenario.initial {} []).fork guardedTwice).2 ⟨0⟩)⟩
  obtain ⟨es, hes⟩ := ((Reachable.initial {} []).append hfork).between (hinterrupt.trans (Between.pass _))
  obtain ⟨r, hr, hstate, hdone⟩ : ∃ r, cancelledTwice.fiber? ⟨0⟩ = some r ∧ r.state = .cancelled ∧
      r.phase = .done := ⟨_, rfl, rfl, rfl⟩
  have hbegins := hes.begins hr rfl (by rw [hdone]; exact Phase.noConfusion)
  obtain ⟨hfinalized, hends⟩ := Reachable.finalizes hes hr hbegins
  obtain ⟨n, x, hspans⟩ := hends hdone
  exact ⟨_, r, n, x, hes, hr, hstate, hfinalized, hspans⟩

end Main

end FiberLoop
