import FiberLoop.Effect.Combinators
import FiberLoop.Proofs.Registrations
import FiberLoop.Proofs.Runtime.Trail

/-!
# Brackets

A bracket acquires a resource, uses it, and releases it. The frames that it pushes leave no place between the
acquisition and the release at which an interrupt can take effect outside of the use, so what happens between
its first step and its exit is the same in every trail: a few steps that are fixed, and in between the
evaluations of the acquisition, of the use, and of the effect that releases.

The main result of this module is `Reachable.brackets_release`: every bracket of a fiber that has ended has
released its resource once, with the exit of its use, and resources are held in nested or disjoint intervals.
-/

namespace FiberLoop

namespace Run

/-- The run on which a bracket acquires its resource. -/
def acquiring (run : Run) (release : Release) (use : Continuation) : Run :=
  (run.push (.chain (.useResource release use))).enter .uninterruptible

/-- The run of a bracket that holds its resource. -/
def holding (run : Run) (release : Release) (resource : Value) : Run :=
  run.push (.chain (.releaseResource release resource))

/-- The run on which a bracket uses its resource. -/
def inUse (run : Run) (release : Release) (resource : Value) : Run :=
  (run.holding release resource).push (.fold (.transform .reify) .reify)

/-- The run on which a bracket releases its resource. -/
def releasing (run : Run) (exit : Exit Value Value) : Run :=
  (run.enter .uninterruptible).push (.chain (.proceed (.resume exit)))

end Run

/-- A bracket holds a resource from the step at which it has got it to the step after `k`, at which it hands
it to the closure that releases it. -/
structure Holds (t : List Step) (run : Run) (release : Release) (use : Continuation) (resource : Value)
    (exit : Exit Value Value) (b k : Nat) : Prop where
  acquired : t[b]? = some ⟨.call (.bind (.useResource release use) resource),
    ⟨run, .eval (.chain (Effect.suspend (.continue use resource)).result (.releaseResource release resource))⟩⟩
  spans : Spans t (run.holding release resource) (b + 1) k (.value (.exit exit))
  released : ∃ next, t[k + 1]? = some ⟨.call (.bind (.releaseResource release resource) (.exit exit)), ⟨run, next⟩⟩

/-- A bracket acquires a resource until step `j`, uses it until step `k`, and hands it to the closure that
releases it once. -/
structure Used (t : List Step) (run : Run) (acquire : Effect) (release : Release) (use : Continuation)
    (resource : Value) (exit : Exit Value Value) (i j k : Nat) : Prop where
  acquires : Evaluates t (run.acquiring release use) acquire (i + 2) j (.value resource)
  holds : Holds t run release use resource exit (j + 2) (k + 1)
  uses : Evaluates t (run.inUse release resource) (.suspend (.continue use resource)) (j + 4) k exit
  /-- The closure that uses the resource is called, unless an interrupt comes first. -/
  called : (∃ w, t[j + 5]? = some ⟨.call (.thunk (.continue use resource)),
      ⟨run.inUse release resource, .ofExcept ((use.apply resource).caught w).1⟩⟩) ∨
    t[j + 5]? = some ⟨.cut, ⟨run.inUse release resource, .cause .interrupted⟩⟩

/-- The closure that releases is called by the bracket itself at one step only. -/
def ReleasesOnce (t : List Step) (run : Run) (release : Release) (i n k : Nat) : Prop :=
  ∀ r a v next, i < r → r ≤ n →
    t[r]? = some ⟨.call (.bind (.releaseResource release a) v), ⟨run, next⟩⟩ → r = k

/-- What the trail of a fiber looks like from the first step `i` of a bracket to the step at which its exit is
fed to the run below. -/
inductive Bracketed (t : List Step) (run : Run) (acquire : Effect) (release : Release) (use : Continuation)
    (i : Nat) : Nat → Exit Value Value → Prop where
  /-- There is no resource, and no closure is called but by the acquisition. -/
  | unacquired {j : Nat} {c : Cause Value}
    (hacquires : Evaluates t (run.acquiring release use) acquire (i + 2) j (.cause c))
    (hquiet : ∀ r, i < r → r ≤ j + 2 → r ≤ i + 2 ∨ j < r → ∃ s, t[r]? = some ⟨.move, s⟩)
    (hexit : Spans t run i (j + 2) (.cause c)) : Bracketed t run acquire release use i (j + 2) (.cause c)
  /-- The closure that releases throws. -/
  | threw {a : Value} {y : Exit Value Value} {d : Defect} {j k : Nat}
    (hused : Used t run acquire release use a y i j k)
    (hreleases : ∃ w, ((release.apply a y).caught w).1 = .error d)
    (honce : ReleasesOnce t run release i (k + 2) (k + 2))
    (hexit : Spans t run i (k + 2) (.aborted d)) : Bracketed t run acquire release use i (k + 2) (.aborted d)
  /-- The effect that releases is run, and no interrupt takes effect before the bracket has its exit. -/
  | released {a : Value} {y z : Exit Value Value} {e : Effect} {j k l n : Nat}
    (hused : Used t run acquire release use a y i j k)
    (hreleases : ∃ w, ((release.apply a y).caught w).1 = .ok e)
    (heffect : Evaluates t (run.releasing y) e (k + 4) l z) (hlt : l < n)
    (hclosed : ∀ r b, k + 2 < r → r ≤ n → t[r]? = some b → b.way ≠ .cut ∧ b.way ≠ .ended .interrupted)
    (honce : ReleasesOnce t run release i n (k + 2))
    (hexit : Spans t run i n (z.fold (fun _ => y) .cause)) :
    Bracketed t run acquire release use i n (z.fold (fun _ => y) .cause)

/-! ## The steps of a frame -/

section Frames

variable {t : List Step} {run : Run} {i : Nat}

/-- An exit leaves a region. -/
theorem Finished.leave (h : Finished t) {status : Interruptibility} {x : Exit Value Value}
    (hs : standAt t i = some ⟨run.enter status, .ofExit x⟩) : t[i + 1]? = some ⟨.move, ⟨run, .ofExit x⟩⟩ := by
  cases x with
  | value v => exact h.move hs rfl
  | cause c => exact h.move hs rfl

theorem Finished.pass (h : Finished t) {next : Continuation} {c : Cause Value}
    (hs : standAt t i = some ⟨run.push (.chain next), .cause c⟩) :
    t[i + 1]? = some ⟨.move, ⟨run, .cause c⟩⟩ := h.move hs rfl

theorem Finished.bind (h : Finished t) {next : Continuation} {v : Value}
    (hs : standAt t i = some ⟨run.push (.chain next), .value v⟩) :
    ∃ w, t[i + 1]? = some ⟨.call (.bind next v), ⟨run, .ofExcept ((next.apply v).caught w).1⟩⟩ :=
  h.call hs rfl (Or.inl rfl)

theorem Finished.reify (h : Finished t) {x : Exit Value Value}
    (hs : standAt t i = some ⟨run.push (.fold (.transform .reify) .reify), .ofExit x⟩) :
    standAt t (i + 1) = some ⟨run, .value (.exit x)⟩ := by
  cases x with
  | value v =>
    obtain ⟨w, hw⟩ := h.call hs (c := .bind (.transform .reify) v) rfl (Or.inl rfl)
    exact standAt_of_getElem? hw
  | cause c =>
    obtain ⟨w, hw⟩ := h.call hs (c := .recover .reify c) rfl (Or.inl rfl)
    exact standAt_of_getElem? hw

end Frames

/-! ## The steps of a bracket -/

section Steps

variable {t : List Step} {run : Run} {acquire : Effect} {release : Release} {use : Continuation} {i j k n : Nat}
  {a : Value} {y : Exit Value Value}

theorem Run.within_acquiring : run.Within (run.acquiring release use) :=
  .region (.chain .refl _) _

theorem Run.length_lt_acquiring : run.frames.length < (run.acquiring release use).frames.length := by
  simp only [acquiring, enter, push, List.length_cons]
  omega

theorem Run.within_holding : run.Within (run.holding release a) := .chain .refl _

theorem Run.within_inUse : (run.holding release a).Within (run.inUse release a) := .fold .refl _ _

theorem Run.within_releasing : (run.enter .uninterruptible).Within (run.releasing y) := .chain .refl _

theorem releaseResource_apply (w : World) :
    (((Continuation.releaseResource release a).apply (.exit y)).caught w).1 =
      ((release.apply a y).caught w).1.map fun e => .eval (e.andThen (.resume y)).uninterruptible := by
  unfold Act.caught
  simp only [Continuation.apply]
  rw [Act.run_bind]
  rcases (release.apply a y).run w with ⟨⟨d⟩ | ⟨e⟩, v⟩
  · rfl
  · rfl

theorem Finished.acquires (h : Finished t)
    (hs : standAt t i = some ⟨run, .eval (acquire.bracketExit release use)⟩) :
    t[i + 1]? = some ⟨.move, ⟨run.push (.chain (.useResource release use)), .eval acquire.uninterruptible⟩⟩ ∧
      t[i + 2]? = some ⟨.move, ⟨run.acquiring release use, .eval acquire⟩⟩ := by
  have hfirst : t[i + 1]? = some ⟨.move, ⟨run.push (.chain (.useResource release use)),
      .eval acquire.uninterruptible⟩⟩ := h.move hs rfl
  exact ⟨hfirst, h.move (standAt_of_getElem? hfirst) rfl⟩

/-- Once a bracket has acquired its resource, it uses it and hands it to the closure that releases it. -/
theorem Finished.used (h : Finished t)
    (hacquires : Evaluates t (run.acquiring release use) acquire (i + 2) j (.value a)) :
    ∃ y k w, Used t run acquire release use a y i j k ∧
      t[k + 2]? = some ⟨.call (.bind (.releaseResource release a) (.exit y)), ⟨run,
        .ofExcept (((Continuation.releaseResource release a).apply (.exit y)).caught w).1⟩⟩ := by
  have hleft := standAt_of_getElem? (h.leave hacquires.spans.feeds)
  obtain ⟨w, hacquired⟩ := h.bind hleft
  have hheld : t[j + 3]? = some ⟨.move, ⟨run.holding release a,
      .eval (Effect.suspend (.continue use a)).result⟩⟩ := h.move (standAt_of_getElem? hacquired) rfl
  have hentered : t[j + 4]? = some ⟨.move, ⟨run.inUse release a, .eval (.suspend (.continue use a))⟩⟩ :=
    h.move (standAt_of_getElem? hheld) rfl
  obtain ⟨k, y, huses⟩ := h.evaluates (standAt_of_getElem? hentered)
  have hreified := h.reify huses.spans.feeds
  obtain ⟨w', hreleased⟩ := h.bind hreified
  have hend : Spans t (run.holding release a) (k + 1) (k + 1) (.value (.exit y)) := .here hreified
  have hspans : Spans t (run.holding release a) (j + 3) (k + 1) (.value (.exit y)) :=
    (huses.spans.outer Run.within_inUse (Nat.lt_succ_self _) hend).before
      (standAt_of_getElem? hheld) (Stand.above_eval .refl _)
  have hcalled := h.leaf huses.begins rfl
  refine ⟨y, k, w', ⟨hacquires, ⟨hacquired, hspans, _, hreleased⟩, huses, ?_⟩, hreleased⟩
  rcases hcalled with ⟨v, hcall⟩ | ⟨hcut, -, -⟩
  · exact Or.inl ⟨v, hcall⟩
  · exact Or.inr hcut

/-- What is left after the release is all that is left of the bracket. -/
theorem Used.outer (h : Finished t) (hs : standAt t i = some ⟨run, .eval (acquire.bracketExit release use)⟩)
    (hused : Used t run acquire release use a y i j k) {x : Exit Value Value}
    (hrest : Spans t run (k + 2) n x) : Spans t run i n x := by
  obtain ⟨hfirst, -⟩ := h.acquires hs
  have hleft := standAt_of_getElem? (h.leave hused.acquires.spans.feeds)
  have hheld : Spans t run (j + 3) n x :=
    hused.holds.spans.outer Run.within_holding (Nat.lt_succ_self _) hrest
  have hacquired : Spans t run (j + 1) n x :=
    (hheld.before (standAt_of_getElem? hused.holds.acquired) (Stand.above_eval .refl _)).before hleft
      (Stand.above_of_length (.chain .refl _) (Nat.lt_succ_self _) _)
  have hentered : Spans t run (i + 2) n x :=
    hused.acquires.spans.outer Run.within_acquiring Run.length_lt_acquiring hacquired
  exact (hentered.before (standAt_of_getElem? hfirst) (Stand.above_eval (.chain .refl _) _)).before hs
    (Stand.above_eval .refl _)

theorem Finished.not_call (h : Finished t) {r : Nat} {s s' : Stand} (hs : standAt t r = some s)
    (hdeed : s.deed = .move s') (c : Call) (s'' : Stand) : t[r + 1]? ≠ some ⟨.call c, s''⟩ := by
  intro hr
  exact nomatch (h.move hs hdeed).symm.trans hr

/-- Until it hands its resource to the closure that releases it, a bracket does not call that closure. -/
theorem Used.once (h : Finished t) (hs : standAt t i = some ⟨run, .eval (acquire.bracketExit release use)⟩)
    (hused : Used t run acquire release use a y i j k) : ReleasesOnce t run release i (k + 2) (k + 2) := by
  obtain ⟨hfirst, hsecond⟩ := h.acquires hs
  have hleave := h.leave hused.acquires.spans.feeds
  have hacquired := hused.holds.acquired
  intro r a' v next hi hk hr
  obtain ⟨q, rfl⟩ : ∃ q, r = q + 1 := ⟨r - 1, by omega⟩
  have hbefore : q = i ∨ q = i + 1 ∨ (i + 2 ≤ q ∧ q < j) ∨ q = j ∨ q = j + 1 ∨ q = j + 2 ∨
      (j + 3 ≤ q ∧ q < k + 1) ∨ q = k + 1 := by omega
  rcases hbefore with rfl | rfl | ⟨hle, hlt⟩ | rfl | rfl | rfl | ⟨hle, hlt⟩ | rfl
  · exact nomatch hfirst.symm.trans hr
  · exact nomatch hsecond.symm.trans hr
  · exact absurd hr (hused.acquires.spans.not_call h.linked Run.length_lt_acquiring hle hlt _ _)
  · exact nomatch hleave.symm.trans hr
  · exact nomatch hacquired.symm.trans hr
  · exact absurd hr (h.not_call (standAt_of_getElem? hacquired) rfl _ _)
  · exact absurd hr (hused.holds.spans.not_call h.linked (Nat.lt_succ_self _) hle hlt _ _)
  · rfl

/-- The effect that releases is run in an uninterruptible region, and so is the exit of the use after it. -/
theorem Finished.releases (h : Finished t) {e : Effect} {l : Nat} {z : Exit Value Value}
    (heffect : Evaluates t (run.releasing y) e (k + 4) l z) :
    ∃ n, l < n ∧ Spans t (run.enter .uninterruptible) (l + 1) n (z.fold (fun _ => y) .cause) := by
  cases z with
  | cause c =>
    have hpassed := standAt_of_getElem? (h.pass heffect.spans.feeds)
    exact ⟨l + 1, Nat.lt_succ_self l, .here hpassed⟩
  | value v =>
    obtain ⟨w, hproceeds⟩ := h.bind heffect.spans.feeds
    have hclosed : (run.enter .uninterruptible).masks.isInterruptible = false :=
      Masks.isInterruptible_push_uninterruptible run.masks
    have hproceeds : standAt t (l + 1) = some ⟨run.enter .uninterruptible, .eval (.resume y)⟩ :=
      standAt_of_getElem? hproceeds
    obtain ⟨w', hresumes⟩ := h.call hproceeds (c := .thunk (.resume y)) rfl (Or.inr hclosed)
    have hresumes : standAt t (l + 2) = some ⟨run.enter .uninterruptible, .ofExit y⟩ :=
      standAt_of_getElem? hresumes
    have hend : Spans t (run.enter .uninterruptible) (l + 2) (l + 2) y := .here hresumes
    exact ⟨l + 2, by omega, hend.before hproceeds (Stand.above_eval .refl _)⟩

/-- A bracket whose acquisition ends with a cause ends with that cause. -/
theorem Finished.unacquired (h : Finished t)
    (hs : standAt t i = some ⟨run, .eval (acquire.bracketExit release use)⟩) {c : Cause Value}
    (hacquires : Evaluates t (run.acquiring release use) acquire (i + 2) j (.cause c)) :
    Bracketed t run acquire release use i (j + 2) (.cause c) := by
  obtain ⟨hfirst, hsecond⟩ := h.acquires hs
  have hleave : t[j + 1]? = some ⟨.move, ⟨run.push (.chain (.useResource release use)), .cause c⟩⟩ :=
    h.leave hacquires.spans.feeds
  have hpass := h.pass (standAt_of_getElem? hleave)
  have hend : Spans t run (j + 2) (j + 2) (.cause c) := .here (standAt_of_getElem? hpass)
  have hleft : Spans t run (j + 1) (j + 2) (.cause c) :=
    hend.before (standAt_of_getElem? hleave) (Stand.above_of_length (.chain .refl _) (Nat.lt_succ_self _) _)
  have hentered : Spans t run (i + 2) (j + 2) (.cause c) :=
    hacquires.spans.outer Run.within_acquiring Run.length_lt_acquiring hleft
  refine .unacquired hacquires (fun r hi hj hr => ?_) ?_
  · have hle := hacquires.spans.le
    have hsteps : r = i + 1 ∨ r = i + 2 ∨ r = j + 1 ∨ r = j + 2 := by omega
    rcases hsteps with rfl | rfl | rfl | rfl
    · exact ⟨_, hfirst⟩
    · exact ⟨_, hsecond⟩
    · exact ⟨_, hleave⟩
    · exact ⟨_, hpass⟩
  · exact (hentered.before (standAt_of_getElem? hfirst) (Stand.above_eval (.chain .refl _) _)).before hs
      (Stand.above_eval .refl _)

/-- A bracket whose resource was handed to the closure that releases it has run the effect of that closure. -/
theorem Used.released (h : Finished t)
    (hs : standAt t i = some ⟨run, .eval (acquire.bracketExit release use)⟩)
    (hused : Used t run acquire release use a y i j k) {e : Effect} {w : World}
    (hclosure : ((release.apply a y).caught w).1 = .ok e)
    (hreleased : standAt t (k + 2) = some ⟨run, .eval (e.andThen (.resume y)).uninterruptible⟩) :
    ∃ n x, Bracketed t run acquire release use i n x := by
  have hregion : standAt t (k + 3) = some ⟨run.enter .uninterruptible, .eval (e.andThen (.resume y))⟩ :=
    standAt_of_getElem? (h.move hreleased rfl)
  have hpushed : standAt t (k + 4) = some ⟨run.releasing y, .eval e⟩ :=
    standAt_of_getElem? (h.move hregion rfl)
  obtain ⟨l, z, heffect⟩ := h.evaluates hpushed
  obtain ⟨n, hlt, hrest⟩ := h.releases heffect
  have hclosed : (run.enter .uninterruptible).masks.isInterruptible = false :=
    Masks.isInterruptible_push_uninterruptible run.masks
  have hwithin : Spans t (run.enter .uninterruptible) (k + 3) n (z.fold (fun _ => y) .cause) :=
    (heffect.spans.outer Run.within_releasing (Nat.lt_succ_self _) hrest).before hregion
      (Stand.above_eval .refl _)
  have hleave := h.leave hwithin.feeds
  have hend : Spans t run (k + 2) (n + 1) (z.fold (fun _ => y) .cause) :=
    (hwithin.outer (.region .refl _) (Nat.lt_succ_self _) (.here (standAt_of_getElem? hleave))).before
      hreleased (Stand.above_eval .refl _)
  refine ⟨n + 1, _, .released hused ⟨w, hclosure⟩ heffect (by omega) ?_ ?_ (hused.outer h hs hend)⟩
  · intro r b hk hn hb
    obtain ⟨q, rfl⟩ : ∃ q, r = q + 1 := ⟨r - 1, by omega⟩
    rcases Nat.lt_trichotomy q n with hq | rfl | hq
    · rcases Nat.eq_or_lt_of_le (Nat.le_of_lt_succ hk) with rfl | hq'
      · have hmove := h.move hreleased rfl
        obtain rfl := Option.some.inj (hb.symm.trans hmove)
        exact ⟨Way.noConfusion, Way.noConfusion⟩
      · exact hwithin.not_cut h.linked hclosed hq' hq hb
    · obtain rfl := Option.some.inj (hb.symm.trans hleave)
      exact ⟨Way.noConfusion, Way.noConfusion⟩
    · omega
  · intro r a' v next hi hn hr
    rcases Nat.lt_or_ge (k + 2) r with hk | hk
    · obtain ⟨q, rfl⟩ : ∃ q, r = q + 1 := ⟨r - 1, by omega⟩
      have hafter : q = k + 2 ∨ (k + 3 ≤ q ∧ q < n) ∨ q = n := by omega
      rcases hafter with rfl | ⟨hle, hlt⟩ | rfl
      · exact absurd hr (h.not_call hreleased rfl _ _)
      · exact absurd hr (hwithin.not_call h.linked (Nat.lt_succ_self _) hle hlt _ _)
      · exact nomatch hleave.symm.trans hr
    · exact hused.once h hs r a' v next hi hk hr

/-- **Every bracket of a fiber that has ended has released what it acquired.** -/
theorem Finished.bracketed (h : Finished t)
    (hs : standAt t i = some ⟨run, .eval (acquire.bracketExit release use)⟩) :
    ∃ n x, Bracketed t run acquire release use i n x := by
  obtain ⟨-, hsecond⟩ := h.acquires hs
  obtain ⟨j, x, hacquires⟩ := h.evaluates (standAt_of_getElem? hsecond)
  cases x with
  | cause c => exact ⟨_, _, h.unacquired hs hacquires⟩
  | value a =>
    obtain ⟨y, k, w, hused, hreleased⟩ := h.used hacquires
    rw [releaseResource_apply] at hreleased
    have hstand := standAt_of_getElem? hreleased
    cases hclosure : ((release.apply a y).caught w).1 with
    | error d =>
      rw [hclosure] at hstand
      have hend : Spans t run (k + 2) (k + 2) (.aborted d) := .here hstand
      exact ⟨_, _, .threw hused ⟨w, hclosure⟩ (hused.once h hs) (hused.outer h hs hend)⟩
    | ok e =>
      rw [hclosure] at hstand
      exact hused.released h hs hclosure hstand

end Steps

/-! ## Brackets of a run -/

section Main

variable {f : FiberId} {m : Moment} {es : Chronicle} {r : Fiber}

/-- A resource that is acquired while another one is held is released before that one. -/
theorem Holds.nested {t : List Step} {run run' : Run} {release release' : Release} {use use' : Continuation}
    {a a' : Value} {y y' : Exit Value Value} {b b' k k' : Nat} (h : Holds t run release use a y b k)
    (h' : Holds t run' release' use' a' y' b' k') (hlt : b < b') : k + 1 < b' ∨ k' < k := by
  obtain ⟨next, hreleased⟩ := h.released
  have hacquired := standAt_of_getElem? h'.acquired
  rcases Nat.lt_trichotomy (k + 1) b' with hbefore | rfl | hafter
  · exact Or.inl hbefore
  · exact nomatch hreleased.symm.trans h'.acquired
  · refine Or.inr ?_
    have hne : b' ≠ k := by
      rintro rfl
      exact nomatch h.spans.feeds.symm.trans hacquired
    obtain ⟨s, hs, habove⟩ := h.spans.above b' hlt (by omega)
    obtain rfl := Option.some.inj (hacquired.symm.trans hs)
    have hwithin : (run.holding release a).Within run' := habove.1
    have hlength : run'.frames.length < (run'.holding release' a').frames.length := Nat.lt_succ_self _
    exact h.spans.nested h'.spans (hwithin.trans Run.within_holding)
      (Nat.lt_of_le_of_lt hwithin.length_le hlength) (by omega)

/-- The trail of a fiber is linked at every moment. -/
theorem Reachable.linked (h : Reachable es m) (hf : m.world.fiber? f = some r) : Linked (trail f es) := by
  obtain ⟨p, home, hcourse, -, -⟩ := h.course hf
  exact hcourse.walked.linked

/-- The trail of a fiber that is done is finished. -/
theorem Reachable.finished (h : Reachable es m) (hf : m.world.fiber? f = some r) (hdone : r.phase = .done) :
    Finished (trail f es) := by
  obtain ⟨p, home, hcourse, -, hcore⟩ := h.course hf
  have hphase : r.phase = p.standing.phase := congrArg Fiber.phase hcore
  obtain ⟨hlinked, hfollows⟩ := hcourse.walked
  refine ⟨hlinked, fun s hs => ?_⟩
  obtain ⟨x, hx⟩ := Standing.phase_eq_done_iff.1 (hphase.symm.trans hdone)
  have hlast : Follows (some s) p.standing := hs ▸ hfollows
  generalize p.standing = standing at hlast hx
  cases hlast with
  | exiting hdeed | done hdeed => exact ⟨_, hdeed⟩
  | _ => cases hx

/-- **A fiber that is done has released whatever its brackets have acquired, once and after the use.** At any
time the intervals between acquisition and release are nested or disjoint. -/
theorem Reachable.brackets_release (h : Reachable es m) (hf : m.world.fiber? f = some r) :
    (r.phase = .done → ∀ i run acquire release use,
      standAt (trail f es) i = some ⟨run, .eval (acquire.bracketExit release use)⟩ →
        ∃ n x, Bracketed (trail f es) run acquire release use i n x) ∧
    ∀ run release use a y b k run' release' use' a' y' b' k',
      Holds (trail f es) run release use a y b k → Holds (trail f es) run' release' use' a' y' b' k' →
        b < b' → k + 1 < b' ∨ k' < k := by
  constructor
  · intro hdone i run acquire release use hs
    exact (h.finished hf hdone).bracketed hs
  · intro run release use a y b k run' release' use' a' y' b' k' hholds hholds' hlt
    exact hholds.nested hholds' hlt

/-- The trail of a fiber that has begun starts with the root with which it was launched. -/
theorem Reachable.begins (h : Reachable es m) (hf : m.world.fiber? f = some r) {root : Effect} {hook : ExitHook}
    (hlaunched : (history f es).head? = some (.launched root hook)) (hphase : r.phase ≠ .created root) :
    standAt (trail f es) 0 = some ⟨{}, .eval root⟩ := by
  obtain ⟨p, home, hcourse, -, hcore⟩ := h.course hf
  obtain ⟨root', hook', hhead, hbegins⟩ := hcourse.begins
  cases hlaunched.symm.trans hhead
  rcases hbegins with ⟨hfresh, -⟩ | hbegun
  · have hcreated : r.phase = p.standing.phase := congrArg Fiber.phase hcore
    rw [hfresh] at hcreated
    exact absurd hcreated hphase
  · exact hbegun

/-- A bracket around nothing. -/
def emptyBracket : Effect := Effect.unitValue.bracketExit (.const .unitValue) (.proceed .unitValue)

/-- A fiber that was forked to run a bracket and given a turn has released what that has acquired. -/
theorem Reachable.empty_bracket_releases : ∃ es r n x,
    Reachable es ⟨((Scenario.initial {} []).fork emptyBracket).2.pass, .idle⟩ ∧
      ((Scenario.initial {} []).fork emptyBracket).2.pass.fiber? ⟨0⟩ = some r ∧ r.state = .completed ∧
      Bracketed (trail ⟨0⟩ es) {} .unitValue (.const .unitValue) (.proceed .unitValue) 0 n x := by
  have hfork : Transitions ⟨Scenario.initial {} [], .idle⟩ [(⟨0⟩, .launched emptyBracket .publish)]
      ⟨((Scenario.initial {} []).fork emptyBracket).2, .idle⟩ :=
    .one (.request (.launch _ emptyBracket .publish) .idle)
  obtain ⟨es, hes⟩ := ((Reachable.initial {} []).append hfork).between (Between.pass _)
  obtain ⟨r, hr, hstate, hdone⟩ :
      ∃ r, ((Scenario.initial {} []).fork emptyBracket).2.pass.fiber? ⟨0⟩ = some r ∧
        r.state = .completed ∧ r.phase = .done := ⟨_, rfl, rfl, rfl⟩
  have hbegins := hes.begins hr rfl (by rw [hdone]; exact Phase.noConfusion)
  obtain ⟨n, x, hbracketed⟩ := (Reachable.brackets_release hes hr).1 hdone 0 _ _ _ _ hbegins
  exact ⟨_, r, n, x, hes, hr, hstate, hbracketed⟩

end Main

end FiberLoop
