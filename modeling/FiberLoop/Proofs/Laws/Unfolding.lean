import FiberLoop.Proofs.Laws.Surroundings

/-!
# Evaluations in given surroundings

`Unfolds` says by recursion on the nodes of a description which leaves are evaluated, and what the exit is, in
given surroundings. An evaluation that never ends has no exit, so what `Unfolds` tells is also told of evaluations
that have come only so far.

The main results of this module are `Unfolds.shows`, that a fiber shows after so many steps what the evaluation by
recursion says, and `Linked.unfolds`, that it shows nothing else.
-/

namespace FiberLoop

/-- An evaluation that goes on from some leaves with what comes next has evaluated more leaves after so many steps,
and has ended if there is an exit. -/
inductive Unfolds (ω : Surroundings) : Bool → Nat → List Met → Next → List Met → Option (Exit Value Value) →
    Prop where
  | soFar {masked : Bool} {met : List Met} {next : Next} : Unfolds ω masked 0 met next met none
  | value {masked : Bool} {met : List Met} {v : Value} : Unfolds ω masked 0 met (.value v) met (some (.value v))
  | cause {masked : Bool} {met : List Met} {c : Cause Value} : Unfolds ω masked 0 met (.cause c) met (some (.cause c))
  | leaf {masked : Bool} {n : Nat} {met met' : List Met} {e : Effect} {way : Way} {next : Next}
    {out : Option (Exit Value Value)} (hleaf : ω.leaf masked met e = some (way, next))
    (hnext : Unfolds ω masked n (met ++ [⟨e, way, next⟩]) next met' out) :
    Unfolds ω masked (n + 1) met (.eval e) met' out
  /-- The node inside has come so far, or has ended but not been left. -/
  | within {masked : Bool} {n : Nat} {met met' : List Met} {e : Effect} {o : Opened}
    {out : Option (Exit Value Value)} (hopened : e.opened? = some o)
    (hsource : Unfolds ω (masked || o.closes) n met (.eval o.source) met' out) :
    Unfolds ω masked (n + 1) met (.eval e) met' none
  /-- The node inside has ended, and the evaluation goes on with its exit. -/
  | beyond {masked : Bool} {n n' : Nat} {met met' met'' : List Met} {e : Effect} {o : Opened} {x : Exit Value Value}
    {out : Option (Exit Value Value)} (hopened : e.opened? = some o)
    (hsource : Unfolds ω (masked || o.closes) n met (.eval o.source) met' (some x))
    (hafter : Unfolds ω masked n' met' (o.after x (ω.world met')) met'' out) :
    Unfolds ω masked (n + 1 + 1 + n') met (.eval e) met'' out

section Unfolding

variable {ω : Surroundings} {t : List Step} {base inner : Run} {masked : Bool} {n i j k r : Nat} {met met' : List Met}
  {next : Next} {out : Option (Exit Value Value)} {x : Exit Value Value} {s : Stand}

/-- An evaluation that has ended has come so far. -/
theorem Unfolds.forget (h : Unfolds ω masked n met next met' out) : Unfolds ω masked n met next met' none := by
  induction h with
  | soFar | value | cause => exact .soFar
  | leaf hleaf _ ih => exact .leaf hleaf ih
  | within hopened hsource _ => exact .within hopened hsource
  | beyond hopened hsource _ _ ih => exact .beyond hopened hsource ih

/-! ## Above a run -/

theorem Aloft.nil : Aloft t base i i := fun _ _ hle hlt => absurd hlt (Nat.not_lt.2 hle)

theorem Aloft.mono (h : Aloft t base i k) (hle : r ≤ k) : Aloft t base i r :=
  fun q s hi hlt hs => h q s hi (Nat.lt_of_lt_of_le hlt hle) hs

theorem Aloft.trans (h : Aloft t base i j) (h' : Aloft t base j k) : Aloft t base i k := by
  intro q s hi hk hs
  rcases Nat.lt_or_ge q j with hlt | hge
  · exact h q s hi hlt hs
  · exact h' q s hge hk hs

theorem Aloft.one (hs : Arrives t i s) (habove : s.Above base) : Aloft t base i (i + 1) := by
  intro q s' hi hlt hs'
  obtain rfl : q = i := by omega
  rw [hs.eq hs']
  exact habove

theorem Aloft.outer (h : Aloft t inner i k) (hbase : base.Within inner) : Aloft t base i k :=
  fun q s hi hk hs => (h q s hi hk hs).trans hbase

theorem Spans.aloft (h : Spans t base i k x) : Aloft t base i k := h.crosses.above

/-! ## From recursion to the trail -/

theorem Heeds.later (h : Heeds ω t base i j) (hle : j ≤ k) (haloft : Aloft t base j k) :
    Heeds ω t base i k :=
  fun q s b hk hq hs hb => h q s b (Nat.le_trans hle hk) (haloft.trans hq) hs hb

theorem Heeds.within (h : Heeds ω t base i j) (hbase : base.Within inner) : Heeds ω t inner i j :=
  fun q s b hj hq hs hb => h q s b hj (hq.outer hbase) hs hb

/-- A fiber that goes on takes the step of its surroundings. -/
theorem Heeds.arrives (h : Heeds ω t base i j) (hs : Arrives t j s) (habove : s.Above base) {b : Step}
    (hmet : j < t.length → leavesMet t i j = met) (hstep : ω.step met s = some b) :
    j + 1 < t.length → t[j + 1]? = some b := by
  intro hlt
  have hlt' := Nat.lt_of_succ_lt hlt
  obtain ⟨b', hb', -⟩ := standAt_of_lt hlt
  have hstep' := h j s b' (Nat.le_refl j) (.one hs habove) (hs hlt') hb'
  rw [hmet hlt', hstep] at hstep'
  rw [hb', Option.some.inj hstep']

/-- At a node that is no leaf the fiber goes on with the node inside. -/
theorem Heeds.opens (h : Heeds ω t base i j) (hij : i ≤ j) {e : Effect} {o : Opened} (hopened : e.opened? = some o)
    (hmasks : base.masks.isInterruptible = !masked) (hs : Arrives t j ⟨base, .eval e⟩)
    (hmet : j < t.length → leavesMet t i j = met) : ∃ inner : Run, base.Within inner ∧
      base.frames.length < inner.frames.length ∧ inner.masks.isInterruptible = !(masked || o.closes) ∧
      Arrives t (j + 1) ⟨inner, .eval o.source⟩ ∧ (j + 1 < t.length → leavesMet t i (j + 1) = met) ∧
      Aloft t base j (j + 1) ∧ Heeds ω t inner i (j + 1) ∧
      ∀ met x, ∃ way, ω.step met ⟨inner, .ofExit x⟩ = some ⟨way, ⟨base, o.after x (ω.world met)⟩⟩ := by
  obtain ⟨inner, hwithin, hlength, hmasks', hbegin, hend⟩ := ω.step_opened hopened hmasks
  have habove : Stand.Above base ⟨base, .eval e⟩ := Stand.above_eval .refl e
  have hb := h.arrives hs habove hmet (hbegin met)
  have hfirst : Aloft t base j (j + 1) := .one hs habove
  refine ⟨inner, hwithin, hlength, hmasks', fun hlt => standAt_of_getElem? (hb hlt), fun hlt => ?_, hfirst,
    (h.later (Nat.le_succ j) hfirst).within hwithin, hend⟩
  rw [leavesMet_succ hij, hmet (Nat.lt_of_succ_lt hlt), metAt_of_opened hopened (hs (Nat.lt_of_succ_lt hlt))]
  exact List.append_nil _

/-- Between two steps an evaluation inside another one has ended and been left, or it goes on. -/
theorem Linked.within_or_beyond (h : Linked t) (hjk : j ≤ k) (hk : k < t.length) {e : Effect}
    (hs : standAt t j = some ⟨inner, .eval e⟩) (hlength : base.frames.length < inner.frames.length) :
    Aloft t inner j k ∧ (∀ x, standAt t k ≠ some ⟨base, .ofExit x⟩) ∨ ∃ m y, m < k ∧ Spans t inner j m y := by
  have hne : ∀ {x next}, (⟨inner, next⟩ : Stand) ≠ ⟨base, .ofExit x⟩ := by
    intro x next heq
    exact absurd hlength (Nat.not_lt.2 (Nat.le_of_eq (congrArg (fun s => s.run.frames.length) heq)))
  have habove : ∀ {x}, ¬ Stand.Above inner ⟨base, .ofExit x⟩ :=
    fun habove => absurd hlength (Nat.not_lt.2 habove.1.length_le)
  rcases h.spans hs (Stand.above_eval .refl e) with hlasts | ⟨m, y, hspans⟩
  · exact Or.inl ⟨fun q s hj _ hq => hlasts q s hj hq, fun x hx => habove (hlasts k _ hjk hx)⟩
  · rcases Nat.lt_trichotomy m k with hlt | rfl | hgt
    · exact Or.inr ⟨m, y, hlt, hspans⟩
    · exact Or.inl ⟨hspans.aloft, fun x hx => hne (Option.some.inj (hspans.feeds.symm.trans hx))⟩
    · exact Or.inl ⟨hspans.aloft.mono (Nat.le_of_lt hgt), fun x hx => habove (hspans.aloft k _ hjk hgt hx)⟩

/-- **What a fiber shows is what the evaluation by recursion says.** -/
theorem Linked.unfolds (h : Linked t) (hij : i ≤ j) (hjk : j ≤ k) (hk : k < t.length)
    (hmasks : base.masks.isInterruptible = !masked) (hs : standAt t j = some ⟨base, next⟩)
    (haloft : Aloft t base j k) (hheeds : Heeds ω t base i j)
    (hout : ∀ x, out = some x → standAt t k = some ⟨base, .ofExit x⟩) :
    Unfolds ω masked (k - j) (leavesMet t i j) next (leavesMet t i k) out := by
  obtain ⟨n, hn⟩ : ∃ n, k - j = n := ⟨_, rfl⟩
  induction n using Nat.strongRecOn generalizing base j k masked next out with
  | ind n ih =>
  rcases Nat.eq_or_lt_of_le hjk with rfl | hlt
  · rw [Nat.sub_self]
    cases out with
    | none => exact .soFar
    | some x =>
      cases hs.symm.trans (hout x rfl)
      cases x with
      | value v => exact .value
      | cause c => exact .cause
  · obtain ⟨e, rfl⟩ := (haloft j _ (Nat.le_refl j) hlt hs).2 rfl
    have hb : ∃ b, t[j + 1]? = some b := ⟨_, List.getElem?_eq_getElem (Nat.lt_of_le_of_lt hlt hk)⟩
    obtain ⟨b, hb⟩ := hb
    have hfirst : Aloft t base j (j + 1) := haloft.mono hlt
    have hrest : Aloft t base (j + 1) k := fun q s hq hk hs => haloft q s (Nat.le_of_succ_le hq) hk hs
    have hstep := hheeds j _ b (Nat.le_refl j) hfirst hs hb
    cases hopened : e.opened? with
    | none =>
      obtain ⟨way, next, hleaf, hstep'⟩ := ω.step_leaf (leavesMet t i j) base hopened
      cases hstep.symm.trans hstep'
      rw [hmasks, Bool.not_not] at hleaf
      have hunfolds := ih (k - (j + 1)) (by omega) (Nat.le_succ_of_le hij) hlt hk hmasks (standAt_of_getElem? hb) hrest
        (hheeds.later (Nat.le_succ j) hfirst) hout rfl
      rw [leavesMet_succ hij, metAt_of_leaf hopened hs hb] at hunfolds
      rw [show k - j = k - (j + 1) + 1 by omega]
      exact .leaf hleaf hunfolds
    | some o =>
      obtain ⟨inner, hwithin, hlength, hmasks', hbegun, hmet, -, hinner, hend⟩ :=
        hheeds.opens hij hopened hmasks (.of_standAt hs) fun _ => rfl
      have hlt' : j + 1 < t.length := Nat.lt_of_le_of_lt hlt hk
      rcases h.within_or_beyond hlt hk (hbegun hlt') hlength with ⟨hwithin', hnot⟩ | ⟨m, y, hm, hspans⟩
      · have hsource : Unfolds ω (masked || o.closes) (k - (j + 1)) (leavesMet t i (j + 1)) (.eval o.source)
            (leavesMet t i k) none :=
          ih (k - (j + 1)) (by omega) (Nat.le_succ_of_le hij) hlt hk hmasks' (hbegun hlt') hwithin' hinner
            (fun x hx => nomatch hx) rfl
        rw [hmet hlt'] at hsource
        rw [show k - j = k - (j + 1) + 1 by omega]
        cases out with
        | none => exact .within hopened hsource
        | some x => exact absurd (hout x rfl) (hnot x)
      · have hle := hspans.le
        have hsource : Unfolds ω (masked || o.closes) (m - (j + 1)) (leavesMet t i (j + 1)) (.eval o.source)
            (leavesMet t i m) (some y) :=
          ih (m - (j + 1)) (by omega) (Nat.le_succ_of_le hij) hle (Nat.lt_trans hm hk) hmasks' (hbegun hlt')
            hspans.aloft hinner (fun x hx => Option.some.inj hx ▸ hspans.feeds) rfl
        rw [hmet hlt'] at hsource
        obtain ⟨way, hend⟩ := hend (leavesMet t i m) y
        have hfed : Stand.Above base ⟨inner, .ofExit y⟩ := Stand.above_of_length hwithin hlength _
        have hsofar : Aloft t base j m := haloft.mono (Nat.le_of_lt hm)
        have hb' := (hheeds.later (by omega) hsofar).arrives (.of_standAt hspans.feeds) hfed (fun _ => rfl) hend
          (Nat.lt_of_le_of_lt hm hk)
        have hlater : Aloft t base (m + 1) k := fun q s hq hk hs => haloft q s (by omega) hk hs
        have hafter := ih (k - (m + 1)) (by omega) (by omega) hm hk hmasks (standAt_of_getElem? hb') hlater
          (hheeds.later (by omega) (haloft.mono hm)) hout rfl
        rw [leavesMet_succ (by omega), metAt_of_exit hspans.feeds, Option.toList_none, List.append_nil] at hafter
        rw [show k - j = m - (j + 1) + 1 + 1 + (k - (m + 1)) by omega]
        exact .beyond hopened hsource hafter

end Unfolding

end FiberLoop
