import FiberLoop.Proofs.Runtime.Trail

/-!
# Trails that may stop anywhere

The trail of a fiber that has not ended stops at some step, maybe in the middle of an evaluation. What is known of
the steps to come is known only as far as the trail goes: it arrives at a stand if it is long enough, and it
crosses a run if it is above it until it feeds an exit to it, or stops before.

The main result of this module is `Linked.spans`: a fiber that is above a run has stayed there to the end of its
trail, or has come to feed an exit to that run.
-/

namespace FiberLoop

/-- A trail that is long enough is at this stand after so many steps. -/
def Arrives (t : List Step) (r : Nat) (s : Stand) : Prop := r < t.length → standAt t r = some s

/-- From some step on the fiber has stayed above a run. -/
def Lasts (t : List Step) (base : Run) (i : Nat) : Prop :=
  ∀ r s, i ≤ r → standAt t r = some s → s.Above base

/-- As far as the trail goes, the fiber is above a run until it feeds an exit to that run at step `k`. -/
structure Crosses (t : List Step) (base : Run) (i k : Nat) (x : Exit Value Value) : Prop where
  le : i ≤ k
  above : ∀ r s, i ≤ r → r < k → standAt t r = some s → s.Above base
  feeds : Arrives t k ⟨base, .ofExit x⟩

/-- Between two steps no interrupt takes effect. -/
def Uncut (t : List Step) (i k : Nat) : Prop :=
  ∀ r b, i < r → r ≤ k → t[r]? = some b → b.way ≠ .cut ∧ b.way ≠ .ended .interrupted

section Trails

variable {t : List Step} {base run : Run} {i j k r : Nat} {s s' : Stand} {x y : Exit Value Value}

theorem standAt_lt_length (h : standAt t r = some s) : r < t.length := by
  rcases Nat.lt_or_ge r t.length with hlt | hge
  · exact hlt
  · rw [standAt, List.getElem?_eq_none hge] at h
    cases h

theorem standAt_of_lt (h : r < t.length) : ∃ b, t[r]? = some b ∧ standAt t r = some b.stand :=
  ⟨t[r], List.getElem?_eq_getElem h, standAt_of_getElem? (List.getElem?_eq_getElem h)⟩

theorem Arrives.of_standAt (h : standAt t r = some s) : Arrives t r s := fun _ => h

theorem Arrives.eq (h : Arrives t r s) (hs : standAt t r = some s') : s' = s :=
  Option.some.inj (hs.symm.trans (h (standAt_lt_length hs)))

/-- A trail goes on from where it has arrived, if it goes on. -/
theorem Linked.leads (h : Linked t) (hs : Arrives t r s) {b : Step} (hb : t[r + 1]? = some b) :
    Leads s b.way b.stand := by
  have hlt : r + 1 < t.length := standAt_lt_length (standAt_of_getElem? hb)
  exact h r s b (hs (Nat.lt_of_succ_lt hlt)) hb

theorem Linked.getElem?_of_move (h : Linked t) (hs : Arrives t r s) (hdeed : s.deed = .move s')
    (hlt : r + 1 < t.length) : t[r + 1]? = some ⟨.move, s'⟩ := by
  obtain ⟨⟨way, stand⟩, hb, -⟩ := standAt_of_lt hlt
  rw [hb]
  cases h.leads hs hb with
  | move hmove => cases hdeed.symm.trans hmove; rfl
  | call hcall | cut hcall => cases hdeed.symm.trans hcall
  | cutWait hregister | ended hregister => cases hdeed.symm.trans hregister

theorem Linked.moves (h : Linked t) (hs : Arrives t r s) (hdeed : s.deed = .move s') : Arrives t (r + 1) s' :=
  fun hlt => standAt_of_getElem? (h.getElem?_of_move hs hdeed hlt)

/-- A closure that says the same in every world is called unless an interrupt takes its place. -/
theorem Linked.suspends (h : Linked t) (hs : Arrives t r s) {c : Call} {next : Next}
    (hdeed : s.deed = .call c run) (hnext : ∀ w, .ofExcept (c.act.caught w).1 = next) (hlt : r + 1 < t.length) :
    standAt t (r + 1) = some ⟨run, next⟩ ∨ t[r + 1]? = some ⟨.cut, ⟨run, .cause .interrupted⟩⟩ ∧
      c.yields = true ∧ run.masks.isInterruptible = true := by
  obtain ⟨⟨way, stand⟩, hb, hstand⟩ := standAt_of_lt hlt
  cases h.leads hs hb with
  | move hmove => cases hdeed.symm.trans hmove
  | call hcall w =>
    cases hdeed.symm.trans hcall
    rw [hstand, ← hnext w]
    exact Or.inl rfl
  | cut hcall hyields hmasks =>
    cases hdeed.symm.trans hcall
    exact Or.inr ⟨hb, hyields, hmasks⟩
  | cutWait hregister | ended hregister => cases hdeed.symm.trans hregister

theorem Linked.calls (h : Linked t) (hs : Arrives t r s) {c : Call} {next : Next} (hdeed : s.deed = .call c run)
    (hnext : ∀ w, .ofExcept (c.act.caught w).1 = next)
    (hclosed : c.yields = false ∨ run.masks.isInterruptible = false) : Arrives t (r + 1) ⟨run, next⟩ := by
  intro hlt
  rcases h.suspends hs hdeed hnext hlt with hcalled | ⟨-, hyields, hmasks⟩
  · exact hcalled
  · rcases hclosed with hclosed | hclosed
    · exact nomatch hclosed.symm.trans hyields
    · exact nomatch hclosed.symm.trans hmasks

theorem Linked.leaves (h : Linked t) {status : Interruptibility}
    (hs : Arrives t r ⟨run.enter status, .ofExit x⟩) : Arrives t (r + 1) ⟨run, .ofExit x⟩ := by
  cases x with
  | value v => exact h.moves hs rfl
  | cause c => exact h.moves hs rfl

theorem Linked.reifies (h : Linked t)
    (hs : Arrives t r ⟨run.push (.fold (.transform .reify) .reify), .ofExit x⟩) :
    Arrives t (r + 1) ⟨run, .value (.exit x)⟩ := by
  cases x with
  | value v =>
    exact h.calls hs (c := .bind (.transform .reify) v) rfl (fun _ => rfl) (Or.inl rfl)
  | cause c =>
    exact h.calls hs (c := .recover .reify c) rfl (fun _ => rfl) (Or.inl rfl)

/-- **A fiber that is above a run stays there as far as its trail goes, or comes to feed an exit to it.** -/
theorem Linked.spans (h : Linked t) (hs : standAt t r = some s) (habove : s.Above base) :
    Lasts t base r ∨ ∃ k x, Spans t base r k x := by
  obtain ⟨n, hn⟩ : ∃ n, n = t.length - r := ⟨_, rfl⟩
  induction n generalizing r s with
  | zero => exact absurd (standAt_lt_length hs) (by omega)
  | succ n ih =>
    rcases Nat.lt_or_ge (r + 1) t.length with hnext | hlast
    · obtain ⟨b, hb, hstand⟩ := standAt_of_lt hnext
      rcases (h r s b hs hb).stays habove with habove' | ⟨x, hx⟩
      · rcases ih hstand habove' (by omega) with hlasts | ⟨k, x, hspans⟩
        · refine Or.inl fun q s' hle hs' => ?_
          rcases Nat.eq_or_lt_of_le hle with rfl | hlt
          · cases hs.symm.trans hs'
            exact habove
          · exact hlasts q s' hlt hs'
        · exact Or.inr ⟨k, x, hspans.before hs habove⟩
      · have hfeeds : Spans t base (r + 1) (r + 1) x := .here (hstand.trans (congrArg some hx))
        exact Or.inr ⟨r + 1, x, hfeeds.before hs habove⟩
    · refine Or.inl fun q s' hle hs' => ?_
      obtain rfl : q = r := by have := standAt_lt_length hs'; omega
      cases hs.symm.trans hs'
      exact habove

theorem Linked.evaluation (h : Linked t) {e : Effect} (hs : Arrives t r ⟨base, .eval e⟩) :
    Lasts t base r ∨ ∃ k x, Evaluates t base e r k x := by
  rcases Nat.lt_or_ge r t.length with hlt | hge
  · rcases h.spans (hs hlt) (Stand.above_eval .refl e) with hlasts | ⟨k, x, hspans⟩
    · exact Or.inl hlasts
    · exact Or.inr ⟨k, x, hs hlt, hspans⟩
  · refine Or.inl fun q s' hle hs' => ?_
    exact absurd (standAt_lt_length hs') (by omega)

theorem Crosses.here (h : Arrives t k ⟨base, .ofExit x⟩) : Crosses t base k k x :=
  ⟨Nat.le_refl k, fun _ _ hle hlt => absurd hlt (Nat.not_lt.2 hle), h⟩

theorem Spans.crosses (h : Spans t base i k x) : Crosses t base i k x := by
  refine ⟨h.le, fun r s hi hk hs => ?_, .of_standAt h.feeds⟩
  obtain ⟨s', hs', habove⟩ := h.above r hi hk
  cases hs.symm.trans hs'
  exact habove

theorem Crosses.before (h : Crosses t base (i + 1) k x) (hs : Arrives t i s) (habove : s.Above base) :
    Crosses t base i k x := by
  refine ⟨Nat.le_of_succ_le h.le, fun r s' hle hlt hs' => ?_, h.feeds⟩
  rcases Nat.eq_or_lt_of_le hle with rfl | hgt
  · rw [hs.eq hs']
    exact habove
  · exact h.above r s' hgt hlt hs'

/-- What is above an inner run until it feeds an exit to that one is above the outer run. -/
theorem Crosses.outer {inner : Run} (h : Crosses t base (j + 1) k x) (hspans : Spans t inner i j y)
    (hbase : base.Within inner) (hlength : base.frames.length < inner.frames.length) : Crosses t base i k x := by
  refine ⟨Nat.le_trans hspans.le (Nat.le_of_succ_le h.le), fun r s hle hlt hs => ?_, h.feeds⟩
  rcases Nat.lt_trichotomy r j with hbefore | rfl | hafter
  · obtain ⟨s', hs', habove⟩ := hspans.above r hle hbefore
    cases hs.symm.trans hs'
    exact habove.trans hbase
  · cases hs.symm.trans hspans.feeds
    exact Stand.above_of_length hbase hlength _
  · exact h.above r s hafter hlt hs

/-- An evaluation that has not ended takes up the rest of the trail. -/
theorem Lasts.crosses {n : Nat} (h : Lasts t base i) (hi : i ≤ n) (hn : t.length ≤ n) : Crosses t base i n x :=
  ⟨hi, fun r s hle _ hs => h r s hle hs, fun hlt => absurd hlt (Nat.not_lt.2 hn)⟩

/-- There is one way for an evaluation to end. -/
theorem Crosses.spans_eq {n : Nat} (h : Crosses t base i k x) (hspans : Spans t base i n y) : n = k ∧ y = x := by
  rcases Nat.lt_trichotomy n k with hlt | rfl | hgt
  · exact absurd (h.above n _ hspans.le hlt hspans.feeds) (hspans.not_above hspans.feeds)
  · refine ⟨rfl, ?_⟩
    have hnext := congrArg Stand.next (h.feeds.eq hspans.feeds)
    cases y <;> cases x <;> cases hnext <;> rfl
  · obtain ⟨s, hs, habove⟩ := hspans.above k h.le hgt
    rw [h.feeds.eq hs] at habove
    exact absurd rfl (Stand.not_feeds_of_above habove x)

/-- Above a run in an uninterruptible region no interrupt takes effect. -/
theorem Crosses.uncut (h : Crosses t base i k x) (hlinked : Linked t)
    (hmasks : base.masks.isInterruptible = false) : Uncut t i k := by
  intro r b hi hk hb
  obtain ⟨q, rfl⟩ : ∃ q, r = q + 1 := ⟨r - 1, by omega⟩
  obtain ⟨b', hb', hs⟩ := standAt_of_lt (Nat.lt_of_succ_lt (standAt_lt_length (standAt_of_getElem? hb)))
  exact (hlinked q _ b hs hb).not_cut (h.above q _ (by omega) (by omega) hs) hmasks

end Trails

end FiberLoop
