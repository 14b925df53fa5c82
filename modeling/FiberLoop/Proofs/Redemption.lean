import FiberLoop.Proofs.Brackets
import FiberLoop.Proofs.Runtime.Crossing

/-!
# Redeemed tickets

A ticket is redeemed by a bracket: the effect that makes the ticket is the acquisition, the wait for the grant is
the use, and the release runs the cleanup of the ticket if the wait was interrupted. What happens between the first
step of a redemption and its exit is fixed but for three evaluations, those of the maker of the ticket, of the wait
and of the cleanup; a fiber may be anywhere in between, or stay in one of them for ever.

The main result of this module is `Reachable.redeems_tickets`: however far a fiber has come with a redemption, the
cleanup has been started once if the wait has been interrupted and not at all otherwise, no interrupt takes effect
after the wait, and the exit is that of the wait unless the cleanup ends with a cause.
-/

namespace FiberLoop

/-! ## The steps of a redemption -/

namespace Run

/-- The run on which the maker of a ticket is evaluated. -/
def making (run : Run) : Run := run.acquiring .cleanup .awaitTicket

/-- The run on which the grant of a ticket is awaited. -/
def awaiting (run : Run) (acquire cleanup : Effect) : Run := run.inUse .cleanup (.ticket acquire cleanup)

end Run

/-- The maker has yielded a ticket at step `j`, and the wait for its grant has ended at step `k`. The wait is the
effect of the ticket, unless an interrupt comes before its first step. -/
structure Waited (t : List Step) (run : Run) (factory acquire cleanup : Effect) (i j k : Nat)
    (y : Exit Value Value) : Prop where
  made : Evaluates t run.making factory (i + 2) j (.value (.ticket acquire cleanup))
  ends : Spans t (run.awaiting acquire cleanup) (j + 4) k y
  waits : Evaluates t (run.awaiting acquire cleanup) acquire (j + 5) k y ∨
    t[j + 5]? = some ⟨.cut, ⟨run.awaiting acquire cleanup, .cause .interrupted⟩⟩ ∧ k = j + 5 ∧ y = .interrupted

/-- The redemption that began at step `i` runs an effect to release its ticket from step `r` on. -/
structure Releases (t : List Step) (run : Run) (i r : Nat) (e : Effect) : Prop where
  later : i < r
  within : ∀ q s, i ≤ q → q < r → standAt t q = some s → s.Above run
  begins : ∃ y, t[r]? = some ⟨.move, ⟨run.releasing y, .eval e⟩⟩

/-- How far a fiber has come with a redemption that began at step `i`. -/
inductive Redeemed (t : List Step) (run : Run) (factory : Effect) (i : Nat) : Prop where
  /-- There is no ticket yet. -/
  | making (hlasts : Lasts t run.making (i + 2)) (hnever : ∀ r e, ¬ Releases t run i r e)
  /-- There is no ticket. -/
  | unmade {j : Nat} {c : Cause Value} (hmade : Evaluates t run.making factory (i + 2) j (.cause c))
    (hnever : ∀ r e, ¬ Releases t run i r e) (hexit : Crosses t run i (j + 2) (.cause c))
  /-- What the maker has yielded is no ticket. -/
  | mistyped {j : Nat} {v : Value} (hmade : Evaluates t run.making factory (i + 2) j (.value v))
    (hv : ∀ acquire cleanup, v ≠ .ticket acquire cleanup)
  /-- The wait has not ended. -/
  | waiting {acquire cleanup : Effect} {j : Nat}
    (hmade : Evaluates t run.making factory (i + 2) j (.value (.ticket acquire cleanup)))
    (hlasts : Lasts t (run.awaiting acquire cleanup) (j + 4)) (hnever : ∀ r e, ¬ Releases t run i r e)
  /-- The wait has ended, and not by an interrupt: the grant is kept. -/
  | kept {acquire cleanup : Effect} {j k n : Nat} {y : Exit Value Value}
    (hwaited : Waited t run factory acquire cleanup i j k y) (hy : y.isInterrupted = false)
    (hnever : ∀ r e, Releases t run i r e → e = .unitValue) (hn : n ≤ k + 8)
    (huncut : Uncut t (k + 2) n) (hexit : Crosses t run i n y)
  /-- The wait was interrupted, and the cleanup has not ended. -/
  | cleaning {acquire cleanup : Effect} {j k : Nat} {y : Exit Value Value}
    (hwaited : Waited t run factory acquire cleanup i j k y) (hy : y.isInterrupted = true)
    (honce : ∀ r e, Releases t run i r e ↔ r = k + 4 ∧ e = cleanup ∧ k + 4 < t.length)
    (hlasts : Lasts t (run.releasing y) (k + 4)) (huncut : Uncut t (k + 2) t.length)
  /-- The wait was interrupted, and the cleanup has run to its end. -/
  | cleaned {acquire cleanup : Effect} {j k l n : Nat} {y z : Exit Value Value}
    (hwaited : Waited t run factory acquire cleanup i j k y) (hy : y.isInterrupted = true)
    (honce : ∀ r e, Releases t run i r e ↔ r = k + 4 ∧ e = cleanup ∧ k + 4 < t.length)
    (hcleaned : Evaluates t (run.releasing y) cleanup (k + 4) l z) (hn : n ≤ l + 3)
    (huncut : Uncut t (k + 2) n) (hexit : Crosses t run i n (z.fold (fun _ => y) .cause))

section Redemption

variable {t : List Step} {run : Run} {factory acquire cleanup e : Effect} {i j k l n r : Nat}
  {y z : Exit Value Value}

/-- What a redemption runs once its wait has ended. -/
def releaseOf (cleanup : Effect) (y : Exit Value Value) : Effect :=
  if y.isInterrupted then cleanup else .unitValue

/-- Only a chain pushes its frame. -/
theorem Stand.of_push {s : Stand} {next : Continuation}
    (h : s.deed = .move ⟨run.push (.chain next), .eval e⟩) : s = ⟨run, .eval (.chain e next)⟩ := by
  obtain ⟨frames, masks⟩ := run
  obtain ⟨⟨frames', masks'⟩, next'⟩ := s
  cases next' with
  | eval e' => cases e' <;> cases h <;> rfl
  | value v =>
    cases frames' with
    | nil => cases h
    | cons frame rest =>
      cases frame with
      | region => exact nomatch (Stand.mk.inj (Deed.move.inj h)).2
      | _ => cases h
  | cause c =>
    cases frames' with
    | nil => cases h
    | cons frame rest =>
      cases frame with
      | chain _ | region => exact nomatch (Stand.mk.inj (Deed.move.inj h)).2
      | fold _ _ => cases h

/-- A redemption that runs an effect to release its ticket was inside its second region at the step before. -/
theorem Releases.before (h : Releases t run i r e) (hlinked : Linked t) : ∃ q y, r = q + 1 ∧ i ≤ q ∧
    standAt t q = some ⟨run.enter .uninterruptible, .eval (.chain e (.proceed (.resume y)))⟩ := by
  obtain ⟨y, hy⟩ := h.begins
  have hi := h.later
  obtain ⟨q, rfl⟩ : ∃ q, r = q + 1 := ⟨r - 1, by omega⟩
  obtain ⟨b, hb, hs⟩ := standAt_of_lt (Nat.lt_of_succ_lt (standAt_lt_length (standAt_of_getElem? hy)))
  refine ⟨q, y, rfl, by omega, ?_⟩
  have hleads : Leads b.stand .move ⟨run.releasing y, .eval e⟩ := hlinked q _ _ hs hy
  rw [hs]
  cases hleads with
  | move hdeed => exact congrArg some (Stand.of_push hdeed)

/-- Above a run that is higher no such effect is begun. -/
theorem Stand.Above.not_releases {base : Run} (hlength : run.frames.length + 2 ≤ base.frames.length) :
    ¬ Stand.Above base ⟨run.enter .uninterruptible, .eval e⟩ := by
  intro habove
  have hle := habove.1.length_le
  simp only [Run.enter, List.length_cons] at hle
  omega

theorem Spans.lt_releases {base : Run} {q a b : Nat} (h : Spans t base a b z)
    (hlength : run.frames.length + 2 ≤ base.frames.length)
    (hq : standAt t q = some ⟨run.enter .uninterruptible, .eval e⟩) (hle : a ≤ q) : b < q := by
  rcases Nat.lt_trichotomy q b with hlt | rfl | hgt
  · obtain ⟨s, hs, habove⟩ := h.above q hle hlt
    cases hq.symm.trans hs
    exact absurd habove (Stand.Above.not_releases hlength)
  · have hnext := congrArg Stand.next (Option.some.inj (hq.symm.trans h.feeds))
    cases z <;> cases hnext
  · exact hgt

theorem Lasts.lt_releases {base : Run} {q a : Nat} (h : Lasts t base a)
    (hlength : run.frames.length + 2 ≤ base.frames.length)
    (hq : standAt t q = some ⟨run.enter .uninterruptible, .eval e⟩) : q < a := by
  rcases Nat.lt_or_ge q a with hlt | hge
  · exact hlt
  · exact absurd (h q _ hge hq) (Stand.Above.not_releases hlength)

/-- When it has its exit, a redemption is over. -/
theorem Crosses.le_of_releases (h : Crosses t run i n z) (hr : Releases t run i r e) : r ≤ n := by
  obtain ⟨y, hy⟩ := hr.begins
  rcases Nat.lt_or_ge n r with hlt | hge
  · have hn := h.feeds (Nat.lt_trans hlt (standAt_lt_length (standAt_of_getElem? hy)))
    exact absurd rfl (Stand.not_feeds_of_above (hr.within n _ h.le hlt hn) z)
  · exact hge

theorem Linked.makes (h : Linked t) (hs : standAt t i = some ⟨run, .eval (.redeem factory)⟩) :
    Arrives t (i + 1) ⟨run.push (.chain (.useResource .cleanup .awaitTicket)), .eval factory.uninterruptible⟩ ∧
      Arrives t (i + 2) ⟨run.making, .eval factory⟩ := by
  have hfirst : Arrives t (i + 1) ⟨run.push (.chain (.useResource .cleanup .awaitTicket)),
      .eval factory.uninterruptible⟩ := h.moves (.of_standAt hs) rfl
  exact ⟨hfirst, h.moves hfirst rfl⟩

/-- An effect to release the ticket is begun after the ticket was made. -/
theorem Linked.releases_after_making (h : Linked t) (hs : standAt t i = some ⟨run, .eval (.redeem factory)⟩)
    {q : Nat} (hi : i ≤ q) {next : Continuation}
    (hq : standAt t q = some ⟨run.enter .uninterruptible, .eval (.chain e next)⟩) : i + 2 ≤ q := by
  obtain ⟨hfirst, -⟩ := h.makes hs
  have hne : q ≠ i := by
    rintro rfl
    have hrun := congrArg (fun s => s.run.frames.length) (Option.some.inj (hs.symm.trans hq))
    exact absurd hrun (Nat.ne_of_lt (Nat.lt_succ_self _))
  have hne' : q ≠ i + 1 := by
    rintro rfl
    cases hfirst.eq hq
  omega

/-- Once there is a ticket, the wait for its grant begins. -/
theorem Linked.awaits (h : Linked t)
    (hmade : Evaluates t run.making factory (i + 2) j (.value (.ticket acquire cleanup))) :
    Arrives t (j + 1) ⟨run.push (.chain (.useResource .cleanup .awaitTicket)), .value (.ticket acquire cleanup)⟩ ∧
      Arrives t (j + 2) ⟨run, .eval (.chain (Effect.suspend (.continue .awaitTicket (.ticket acquire cleanup))).result
        (.releaseResource .cleanup (.ticket acquire cleanup)))⟩ ∧
      Arrives t (j + 3) ⟨run.holding .cleanup (.ticket acquire cleanup),
        .eval (Effect.suspend (.continue .awaitTicket (.ticket acquire cleanup))).result⟩ ∧
      Arrives t (j + 4) ⟨run.awaiting acquire cleanup,
        .eval (.suspend (.continue .awaitTicket (.ticket acquire cleanup)))⟩ := by
  have hleft := h.leaves (.of_standAt hmade.spans.feeds)
  have hbound := h.calls hleft (c := .bind (.useResource .cleanup .awaitTicket) (.ticket acquire cleanup)) rfl
    (fun _ => rfl) (Or.inl rfl)
  have hheld := h.moves hbound rfl
  exact ⟨hleft, hbound, hheld, h.moves hheld rfl⟩

/-- Once the wait has ended, the release begins, inside an uninterruptible region. -/
theorem Linked.releases (h : Linked t) (hends : Spans t (run.awaiting acquire cleanup) (j + 4) k y) :
    Arrives t (k + 1) ⟨run.holding .cleanup (.ticket acquire cleanup), .value (.exit y)⟩ ∧
      Arrives t (k + 2) ⟨run, .eval ((releaseOf cleanup y).andThen (.resume y)).uninterruptible⟩ ∧
      Arrives t (k + 3) ⟨run.enter .uninterruptible, .eval ((releaseOf cleanup y).andThen (.resume y))⟩ ∧
      Arrives t (k + 4) ⟨run.releasing y, .eval (releaseOf cleanup y)⟩ := by
  have hreified := h.reifies (.of_standAt hends.feeds)
  have hbound : Arrives t (k + 2) ⟨run, .eval ((releaseOf cleanup y).andThen (.resume y)).uninterruptible⟩ := by
    refine h.calls hreified (c := .bind (.releaseResource .cleanup (.ticket acquire cleanup)) (.exit y)) rfl
      (fun w => ?_) (Or.inl rfl)
    unfold Call.act
    rw [releaseResource_apply]
    rfl
  have hregion := h.moves hbound rfl
  exact ⟨hreified, hbound, hregion, h.moves hregion rfl⟩

/-- After the effect that releases, the exit of the wait is resumed, or the cause is passed on. -/
theorem Linked.resumes (h : Linked t) (hs : Arrives t l ⟨run.releasing y, .ofExit z⟩) :
    ∃ n, l < n ∧ n ≤ l + 2 ∧ Crosses t (run.enter .uninterruptible) (l + 1) n (z.fold (fun _ => y) .cause) ∧
      ∀ q e next, l < q → q ≤ n →
        standAt t q ≠ some ⟨run.enter .uninterruptible, .eval (.chain e next)⟩ := by
  have hclosed : (run.enter .uninterruptible).masks.isInterruptible = false :=
    Masks.isInterruptible_push_uninterruptible run.masks
  cases z with
  | cause c =>
    have hpassed : Arrives t (l + 1) ⟨run.enter .uninterruptible, .cause c⟩ := h.moves hs rfl
    refine ⟨l + 1, Nat.lt_succ_self l, Nat.le_succ _, .here hpassed, fun q e next hlt hle hq => ?_⟩
    obtain rfl : q = l + 1 := by omega
    cases hpassed.eq hq
  | value v =>
    have hproceeds : Arrives t (l + 1) ⟨run.enter .uninterruptible, .eval (.resume y)⟩ :=
      h.calls hs (c := .bind (.proceed (.resume y)) v) rfl (fun _ => rfl) (Or.inl rfl)
    have hresumes : Arrives t (l + 2) ⟨run.enter .uninterruptible, .ofExit y⟩ :=
      h.calls hproceeds (c := .thunk (.resume y)) rfl (fun _ => rfl) (Or.inr hclosed)
    refine ⟨l + 2, by omega, Nat.le_refl _, (Crosses.here hresumes).before hproceeds (Stand.above_eval .refl _),
      fun q e next hlt hle hq => ?_⟩
    have hcases : q = l + 1 ∨ q = l + 2 := by omega
    rcases hcases with rfl | rfl
    · cases hproceeds.eq hq
    · have hnext := congrArg Stand.next (hresumes.eq hq)
      cases y <;> cases hnext

theorem Run.two_le_making : run.frames.length + 2 ≤ run.making.frames.length := Nat.le_refl _

theorem Run.two_le_awaiting : run.frames.length + 2 ≤ (run.awaiting acquire cleanup).frames.length := Nat.le_refl _

theorem Run.two_le_releasing : run.frames.length + 2 ≤ (run.releasing y).frames.length := Nat.le_refl _

theorem Run.isInterruptible_enter : (run.enter .uninterruptible).masks.isInterruptible = false :=
  Masks.isInterruptible_push_uninterruptible run.masks

/-- What is left when the maker has ended is all that is left of the redemption. -/
theorem Linked.crosses_of_made (h : Linked t) (hs : standAt t i = some ⟨run, .eval (.redeem factory)⟩)
    {x : Exit Value Value} (hmade : Evaluates t run.making factory (i + 2) j x)
    (hrest : Crosses t run (j + 1) n z) : Crosses t run i n z := by
  obtain ⟨hfirst, -⟩ := h.makes hs
  have hentered := hrest.outer hmade.spans Run.within_acquiring Run.length_lt_acquiring
  exact (hentered.before hfirst (Stand.above_eval (.chain .refl _) _)).before (.of_standAt hs)
    (Stand.above_eval .refl _)

/-- What is left when the wait has ended is all that is left of the redemption. -/
theorem Waited.crosses (h : Linked t) (hs : standAt t i = some ⟨run, .eval (.redeem factory)⟩)
    (hwaited : Waited t run factory acquire cleanup i j k y) (hrest : Crosses t run (k + 2) n z) :
    Crosses t run i n z := by
  obtain ⟨hleft, hbound, hheld, -⟩ := h.awaits hwaited.made
  obtain ⟨hreified, -⟩ := h.releases hwaited.ends
  have hwithin : run.Within (run.awaiting acquire cleanup) := .fold (.chain .refl _) _ _
  have hreleases : Crosses t run (k + 1) n z :=
    hrest.before hreified (Stand.above_of_length (.chain .refl _) (Nat.lt_succ_self _) _)
  have hwaits : Crosses t run (j + 4) n z :=
    hreleases.outer hwaited.ends hwithin (Nat.lt_of_succ_le (Nat.le_of_succ_le Run.two_le_awaiting))
  have hmade : Crosses t run (j + 1) n z :=
    ((hwaits.before hheld (Stand.above_eval (.chain .refl _) _)).before hbound (Stand.above_eval .refl _)).before
      hleft (Stand.above_of_length (.chain .refl _) (Nat.lt_succ_self _) _)
  exact h.crosses_of_made hs hwaited.made hmade

/-- No effect is begun to release a ticket that is not made. -/
theorem Linked.not_releases_of_cause (h : Linked t) (hs : standAt t i = some ⟨run, .eval (.redeem factory)⟩)
    {c : Cause Value} (hmade : Evaluates t run.making factory (i + 2) j (.cause c)) :
    (∀ r e, ¬ Releases t run i r e) ∧ Crosses t run i (j + 2) (.cause c) := by
  have hleft : Arrives t (j + 1) ⟨run.push (.chain (.useResource .cleanup .awaitTicket)), .cause c⟩ :=
    h.leaves (.of_standAt hmade.spans.feeds)
  have hpassed : Arrives t (j + 2) ⟨run, .cause c⟩ := h.moves hleft rfl
  have hrest : Crosses t run (j + 1) (j + 2) (.cause c) :=
    (Crosses.here hpassed).before hleft (Stand.above_of_length (.chain .refl _) (Nat.lt_succ_self _) _)
  have hexit := h.crosses_of_made hs hmade hrest
  refine ⟨fun r e hr => ?_, hexit⟩
  have hle := hexit.le_of_releases hr
  obtain ⟨q, y, rfl, hi, hq⟩ := hr.before h
  have hj := hmade.spans.lt_releases Run.two_le_making hq (h.releases_after_making hs hi hq)
  obtain rfl : q = j + 1 := by omega
  cases hleft.eq hq

/-- An effect to release the ticket is begun after the wait has begun. -/
theorem Linked.releases_after_made (h : Linked t) (hs : standAt t i = some ⟨run, .eval (.redeem factory)⟩)
    (hmade : Evaluates t run.making factory (i + 2) j (.value (.ticket acquire cleanup))) {q : Nat} (hi : i ≤ q)
    {next : Continuation} (hq : standAt t q = some ⟨run.enter .uninterruptible, .eval (.chain e next)⟩) :
    j + 4 ≤ q := by
  obtain ⟨hleft, hbound, hheld, -⟩ := h.awaits hmade
  have hj := hmade.spans.lt_releases Run.two_le_making hq (h.releases_after_making hs hi hq)
  have hne : q ≠ j + 1 := by
    rintro rfl
    cases hleft.eq hq
  have hne' : q ≠ j + 2 := by
    rintro rfl
    have hrun := congrArg (fun s => s.run.frames.length) (hbound.eq hq)
    exact absurd hrun (Nat.ne_of_gt (Nat.lt_succ_self _))
  have hne'' : q ≠ j + 3 := by
    rintro rfl
    cases hheld.eq hq
  omega

/-- The effect that is begun once the wait has ended is the first that is begun to release the ticket. -/
theorem Waited.first (h : Linked t) (hs : standAt t i = some ⟨run, .eval (.redeem factory)⟩)
    (hwaited : Waited t run factory acquire cleanup i j k y) {q : Nat} (hi : i ≤ q) {y' : Exit Value Value}
    (hq : standAt t q = some ⟨run.enter .uninterruptible, .eval (.chain e (.proceed (.resume y')))⟩) :
    q = k + 3 ∧ e = releaseOf cleanup y ∨ k + 4 ≤ q := by
  obtain ⟨hreified, hbound, hregion, -⟩ := h.releases hwaited.ends
  have hk := hwaited.ends.lt_releases Run.two_le_awaiting hq (h.releases_after_made hs hwaited.made hi hq)
  have hne : q ≠ k + 1 := by
    rintro rfl
    cases hreified.eq hq
  have hne' : q ≠ k + 2 := by
    rintro rfl
    have hrun := congrArg (fun s => s.run.frames.length) (hbound.eq hq)
    exact absurd hrun (Nat.ne_of_gt (Nat.lt_succ_self _))
  rcases Nat.lt_or_ge q (k + 4) with hlt | hge
  · obtain rfl : q = k + 3 := by omega
    cases hregion.eq hq
    exact Or.inl ⟨rfl, rfl⟩
  · exact Or.inr hge

/-- What follows the wait is inside an uninterruptible region until the redemption has its exit. -/
theorem Waited.closes (h : Linked t) (hs : standAt t i = some ⟨run, .eval (.redeem factory)⟩)
    (hwaited : Waited t run factory acquire cleanup i j k y)
    (hrest : Crosses t (run.enter .uninterruptible) (k + 4) n z) :
    Crosses t run i (n + 1) z ∧ Uncut t (k + 2) (n + 1) := by
  obtain ⟨-, hbound, hregion, -⟩ := h.releases hwaited.ends
  have hinside : Crosses t (run.enter .uninterruptible) (k + 3) n z :=
    hrest.before hregion (Stand.above_eval .refl _)
  have hleft := h.leaves hinside.feeds
  have hexit : Crosses t run (k + 3) (n + 1) z := by
    refine ⟨Nat.le_succ_of_le hinside.le, fun r s hle hlt hs => ?_, hleft⟩
    rcases Nat.eq_or_lt_of_le (Nat.le_of_lt_succ hlt) with rfl | hlt
    · rw [hinside.feeds.eq hs]
      exact Stand.above_of_length (.region .refl _) (Nat.lt_succ_self _) _
    · exact (hinside.above r s hle hlt hs).trans (.region .refl _)
  refine ⟨hwaited.crosses h hs (hexit.before hbound (Stand.above_eval .refl _)), fun r b hk hn hb => ?_⟩
  have hlt : r < t.length := standAt_lt_length (standAt_of_getElem? hb)
  have hcases : r = k + 3 ∨ (k + 3 < r ∧ r ≤ n) ∨ r = n + 1 := by omega
  rcases hcases with rfl | ⟨hgt, hle⟩ | rfl
  · cases hb.symm.trans (h.getElem?_of_move hbound rfl hlt)
    exact ⟨Way.noConfusion, Way.noConfusion⟩
  · exact hinside.uncut h Run.isInterruptible_enter r b hgt hle hb
  · cases z with
    | value v | cause c =>
      cases hb.symm.trans (h.getElem?_of_move hinside.feeds rfl hlt)
      exact ⟨Way.noConfusion, Way.noConfusion⟩

/-- The effect that releases is begun right after the wait. -/
theorem Waited.begins (h : Linked t) (hwaited : Waited t run factory acquire cleanup i j k y)
    (hexit : Crosses t run i n z) (hn : k + 4 ≤ n) (hlt : k + 4 < t.length) :
    Releases t run i (k + 4) (releaseOf cleanup y) := by
  obtain ⟨-, -, hregion, -⟩ := h.releases hwaited.ends
  have hi := hwaited.made.spans.le
  have hj := hwaited.ends.le
  refine ⟨by omega, fun q s hle hq hs => hexit.above q s hle (by omega) hs, y, ?_⟩
  exact h.getElem?_of_move hregion rfl hlt

/-- An exit that is no interrupt is kept, and the ticket is released without its cleanup. -/
theorem Waited.kept (h : Linked t) (hs : standAt t i = some ⟨run, .eval (.redeem factory)⟩)
    (hwaited : Waited t run factory acquire cleanup i j k y) (hy : y.isInterrupted = false) :
    Redeemed t run factory i := by
  obtain ⟨-, -, -, hbegun⟩ := h.releases hwaited.ends
  have hunit : releaseOf cleanup y = .unitValue := if_neg (by rw [hy]; exact Bool.false_ne_true)
  rw [hunit] at hbegun
  have hclosed : (run.releasing y).masks.isInterruptible = false := Run.isInterruptible_enter
  have hyields : Arrives t (k + 5) ⟨run.releasing y, .value .null⟩ :=
    h.calls hbegun (c := .value .null) rfl (fun _ => rfl) (Or.inr hclosed)
  obtain ⟨n, hlt, hle, hrest, hnone⟩ := h.resumes (z := .value .null) hyields
  have habove : ∀ next, Stand.Above (run.enter .uninterruptible) ⟨run.releasing y, next⟩ :=
    fun next => Stand.above_of_length Run.within_releasing (Nat.lt_succ_self _) next
  obtain ⟨hexit, huncut⟩ := hwaited.closes h hs
    ((hrest.before hyields (habove _)).before hbegun (habove _))
  refine .kept hwaited hy ?_ (by omega) huncut hexit
  intro r e hr
  have hrn := hexit.le_of_releases hr
  obtain ⟨q, y', rfl, hi, hq⟩ := hr.before h
  rcases hwaited.first h hs hi hq with ⟨-, he⟩ | hge
  · exact he.trans hunit
  · have hne : q ≠ k + 4 := by
      rintro rfl
      cases hbegun.eq hq
    have hne' : q ≠ k + 5 := by
      rintro rfl
      cases hyields.eq hq
    exact absurd hq (hnone q _ _ (by omega) (by omega))

/-- An interrupt of the wait starts the cleanup once, and the cleanup runs to its end. -/
theorem Waited.cleaned (h : Linked t) (hs : standAt t i = some ⟨run, .eval (.redeem factory)⟩)
    (hwaited : Waited t run factory acquire cleanup i j k y) (hy : y.isInterrupted = true) :
    Redeemed t run factory i := by
  obtain ⟨-, -, -, hbegun⟩ := h.releases hwaited.ends
  have hcleanup : releaseOf cleanup y = cleanup := if_pos hy
  rw [hcleanup] at hbegun
  rcases h.evaluation hbegun with hlasts | ⟨l, z, hcleaned⟩
  · obtain ⟨n, hn, hk⟩ : ∃ n, t.length ≤ n ∧ k + 4 ≤ n := ⟨max t.length (k + 4), by omega, by omega⟩
    have hinside : Lasts t (run.enter .uninterruptible) (k + 4) :=
      fun r s hle hs => (hlasts r s hle hs).trans Run.within_releasing
    obtain ⟨hexit, huncut⟩ := hwaited.closes h hs (hinside.crosses (x := y) hk hn)
    refine .cleaning hwaited hy (fun r e => ⟨fun hr => ?_, ?_⟩) hlasts
      (fun r b hlt hle => huncut r b hlt (by omega))
    · obtain ⟨y', hy'⟩ := hr.begins
      have hlength := standAt_lt_length (standAt_of_getElem? hy')
      obtain ⟨q, y', rfl, hi, hq⟩ := hr.before h
      rcases hwaited.first h hs hi hq with ⟨rfl, he⟩ | hge
      · exact ⟨rfl, he.trans hcleanup, hlength⟩
      · exact absurd (hlasts.lt_releases Run.two_le_releasing hq) (by omega)
    · rintro ⟨rfl, rfl, hlt⟩
      have hreleases := hwaited.begins h hexit (by omega) hlt
      rw [hcleanup] at hreleases
      exact hreleases
  · obtain ⟨n, hlt, hle, hrest, hnone⟩ := h.resumes (.of_standAt hcleaned.spans.feeds)
    obtain ⟨hexit, huncut⟩ := hwaited.closes h hs
      (hrest.outer hcleaned.spans Run.within_releasing (Nat.lt_succ_self _))
    have hl := hcleaned.spans.le
    refine .cleaned hwaited hy (fun r e => ⟨fun hr => ?_, ?_⟩) hcleaned (by omega) huncut hexit
    · have hrn := hexit.le_of_releases hr
      obtain ⟨y', hy'⟩ := hr.begins
      have hlength := standAt_lt_length (standAt_of_getElem? hy')
      obtain ⟨q, y', rfl, hi, hq⟩ := hr.before h
      rcases hwaited.first h hs hi hq with ⟨rfl, he⟩ | hge
      · exact ⟨rfl, he.trans hcleanup, hlength⟩
      · have hlq := hcleaned.spans.lt_releases Run.two_le_releasing hq hge
        exact absurd hq (hnone q _ _ hlq (by omega))
    · rintro ⟨rfl, rfl, hlt'⟩
      have hreleases := hwaited.begins h hexit (by omega) hlt'
      rw [hcleanup] at hreleases
      exact hreleases

/-- The wait is the effect of the ticket, unless an interrupt comes before its first step. -/
theorem Linked.waits (h : Linked t) (hs : Arrives t (j + 4) ⟨run.awaiting acquire cleanup,
      .eval (.suspend (.continue .awaitTicket (.ticket acquire cleanup)))⟩)
    (hends : Spans t (run.awaiting acquire cleanup) (j + 4) k y) :
    Evaluates t (run.awaiting acquire cleanup) acquire (j + 5) k y ∨
      t[j + 5]? = some ⟨.cut, ⟨run.awaiting acquire cleanup, .cause .interrupted⟩⟩ ∧
        k = j + 5 ∧ y = .interrupted := by
  have hk : j + 4 < k := by
    rcases Nat.eq_or_lt_of_le hends.le with rfl | hlt
    · have hnext := congrArg Stand.next (hs.eq hends.feeds)
      cases y <;> cases hnext
    · exact hlt
  have hlength : j + 5 < t.length := Nat.lt_of_le_of_lt hk (standAt_lt_length hends.feeds)
  rcases h.suspends hs (c := .thunk (.continue .awaitTicket (.ticket acquire cleanup))) rfl (fun _ => rfl) hlength
    with hcalled | ⟨hcut, -, -⟩
  · exact Or.inl ⟨hcalled, hk, fun r hle hlt => hends.above r (Nat.le_of_succ_le hle) hlt, hends.feeds⟩
  · have hinterrupted : Spans t (run.awaiting acquire cleanup) (j + 5) (j + 5) .interrupted :=
      .here (standAt_of_getElem? hcut)
    have hcrosses : Crosses t (run.awaiting acquire cleanup) (j + 4) (j + 5) .interrupted :=
      (Crosses.here (.of_standAt hinterrupted.feeds)).before hs (Stand.above_eval .refl _)
    exact Or.inr ⟨hcut, hcrosses.spans_eq hends⟩

/-- An effect to release the ticket is not begun during the wait. -/
theorem Linked.not_releases_of_lasts (h : Linked t) (hs : standAt t i = some ⟨run, .eval (.redeem factory)⟩)
    (hmade : Evaluates t run.making factory (i + 2) j (.value (.ticket acquire cleanup)))
    (hlasts : Lasts t (run.awaiting acquire cleanup) (j + 4)) (r : Nat) (e : Effect) : ¬ Releases t run i r e := by
  intro hr
  obtain ⟨q, y, rfl, hi, hq⟩ := hr.before h
  have hle := h.releases_after_made hs hmade hi hq
  exact absurd (hlasts.lt_releases Run.two_le_awaiting hq) (Nat.not_lt.2 hle)

/-- **However far a fiber has come with a redemption, it has come there in one of the ways of `Redeemed`.** -/
theorem Linked.redeemed (h : Linked t) (hs : standAt t i = some ⟨run, .eval (.redeem factory)⟩) :
    Redeemed t run factory i := by
  obtain ⟨-, hentered⟩ := h.makes hs
  rcases h.evaluation hentered with hlasts | ⟨j, x, hmade⟩
  · refine .making hlasts fun r e hr => ?_
    obtain ⟨q, y, rfl, hi, hq⟩ := hr.before h
    have hle := h.releases_after_making hs hi hq
    exact absurd (hlasts.lt_releases Run.two_le_making hq) (Nat.not_lt.2 hle)
  · cases x with
    | cause c =>
      obtain ⟨hnever, hexit⟩ := h.not_releases_of_cause hs hmade
      exact .unmade hmade hnever hexit
    | value v =>
      by_cases hv : ∃ acquire cleanup, v = .ticket acquire cleanup
      · obtain ⟨acquire, cleanup, rfl⟩ := hv
        obtain ⟨-, -, -, hsuspended⟩ := h.awaits hmade
        rcases h.evaluation hsuspended with hlasts | ⟨k, y, hends⟩
        · exact .waiting hmade hlasts (h.not_releases_of_lasts hs hmade hlasts)
        · have hwaited : Waited t run factory acquire cleanup i j k y :=
            ⟨hmade, hends.spans, h.waits hsuspended hends.spans⟩
          cases hy : y.isInterrupted with
          | false => exact hwaited.kept h hs hy
          | true => exact hwaited.cleaned h hs hy
      · exact .mistyped hmade fun acquire cleanup heq => hv ⟨acquire, cleanup, heq⟩

end Redemption

/-! ## Redemptions of a run -/

section Main

variable {f : FiberId} {m : Moment} {es : Chronicle} {r : Fiber}

/-- **The cleanup of a ticket runs once if the wait for its grant is interrupted, and never otherwise.** Nothing
disturbs a redemption after the wait, whose exit it has unless the cleanup ends with a cause. A fiber that is done
has come to the exit of every redemption that it began. -/
theorem Reachable.redeems_tickets (h : Reachable es m) (hf : m.world.fiber? f = some r) {i : Nat} {run : Run}
    {factory : Effect} (hs : standAt (trail f es) i = some ⟨run, .eval (.redeem factory)⟩) :
    Redeemed (trail f es) run factory i ∧ (r.phase = .done → ∃ n x, Spans (trail f es) run i n x) := by
  refine ⟨(h.linked hf).redeemed hs, fun hdone => ?_⟩
  exact (h.finished hf hdone).spans hs (Stand.above_eval .refl _)

/-- The redemption of a ticket that is granted from the beginning. -/
def grantedRedemption : Effect := .redeem (.succeed (Effect.grantedTicket .null .unitValue))

/-- The world in which a fiber was interrupted before its first step and then given a turn. -/
def cancelledRedemption : World := (((Scenario.initial {} []).fork grantedRedemption).2.interrupt ⟨0⟩).pass

/-- A grant that is interrupted before its delivery is cleaned up. -/
theorem Reachable.cleans_granted_ticket : ∃ es r n x, Reachable es ⟨cancelledRedemption, .idle⟩ ∧
    cancelledRedemption.fiber? ⟨0⟩ = some r ∧ r.state = .cancelled ∧
      Redeemed (trail ⟨0⟩ es) {} (.succeed (Effect.grantedTicket .null .unitValue)) 0 ∧
        Spans (trail ⟨0⟩ es) {} 0 n x := by
  have hfork : Transitions ⟨Scenario.initial {} [], .idle⟩ [(⟨0⟩, .launched grantedRedemption .publish)]
      ⟨((Scenario.initial {} []).fork grantedRedemption).2, .idle⟩ :=
    .one (.request (.launch _ grantedRedemption .publish) .idle)
  have hinterrupt := Between.requested ⟨_, .one (.interrupt ((Scenario.initial {} []).fork grantedRedemption).2 ⟨0⟩)⟩
  obtain ⟨es, hes⟩ := ((Reachable.initial {} []).append hfork).between (hinterrupt.trans (Between.pass _))
  obtain ⟨r, hr, hstate, hdone⟩ : ∃ r, cancelledRedemption.fiber? ⟨0⟩ = some r ∧
      r.state = .cancelled ∧ r.phase = .done := ⟨_, rfl, rfl, rfl⟩
  have hbegins := hes.begins hr rfl (by rw [hdone]; exact Phase.noConfusion)
  obtain ⟨hredeemed, hends⟩ := Reachable.redeems_tickets hes hr hbegins
  obtain ⟨n, x, hspans⟩ := hends hdone
  exact ⟨_, r, n, x, hes, hr, hstate, hredeemed, hspans⟩

end Main

end FiberLoop
