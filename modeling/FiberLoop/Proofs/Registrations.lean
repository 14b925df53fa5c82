import FiberLoop.Proofs.Ownership

/-!
# One-shot registrations

A fiber that waits registers a callback, and each registration has an epoch of its own. What happens to one
registration is its list of `Fate`s: it is opened, its closure returns a canceler or throws, a first completion
is kept, the fiber is parked, the registration ends, the canceler runs, and the fiber goes on.

A `Story` says which lists there are and where each of them leaves the fiber. It holds initially and every move
of the fiber carries it on, so it holds whenever, and in whatever order, callbacks are completed and interrupts
are requested.

The main result of this module is `Reachable.one_shot`: a registration ends at most once and the fiber goes on
once for it, its canceler runs exactly if it was interrupted, and its callback is of no use afterwards.
-/

namespace FiberLoop

/-- What happens to one registration. -/
inductive Fate where
  | opened (registration : Registration)
  | returned (canceler : Canceler)
  | kept (exit : Exit Value Value)
  | parked
  | ended (ending : Ending)
  | canceled (canceler : Canceler)
  | continued (ending : Ending) (stand : Stand)

namespace Fate

def returned? : Fate → Option Canceler
  | .returned c => some c
  | _ => none

def kept? : Fate → Option (Exit Value Value)
  | .kept x => some x
  | _ => none

def ended? : Fate → Option Ending
  | .ended ending => some ending
  | _ => none

def canceled? : Fate → Option Canceler
  | .canceled c => some c
  | _ => none

def continued? : Fate → Option (Ending × Stand)
  | .continued ending s => some (ending, s)
  | _ => none

end Fate

/-- What an event means for the registration of an epoch. -/
def Event.fate? (epoch : Nat) : Event → Option Fate
  | .registered r e => if e = epoch then some (.opened r) else none
  | .returned e c => if e = epoch then some (.returned c) else none
  | .kept e x => if e = epoch then some (.kept x) else none
  | .parked e => if e = epoch then some .parked else none
  | .ended e ending => if e = epoch then some (.ended ending) else none
  | .canceled e c => if e = epoch then some (.canceled c) else none
  | .continued e ending s => if e = epoch then some (.continued ending s) else none
  | .launched .. | .began _ | .stepped .. | .requested | .exited _ | .told .. | .unexpected => none

/-- What has happened to the registration of an epoch. -/
def fates (f : FiberId) (epoch : Nat) (es : Chronicle) : List Fate :=
  (history f es).filterMap (Event.fate? epoch)

/-- The canceler that the closure of the registration has returned. -/
def cancelers (fates : List Fate) : List Canceler := fates.filterMap Fate.returned?

/-- The completion that came before the end of the registration. -/
def completions (fates : List Fate) : List (Exit Value Value) := fates.filterMap Fate.kept?

def endings (fates : List Fate) : List Ending := fates.filterMap Fate.ended?

/-- The cancelers that were run. -/
def cancelings (fates : List Fate) : List Canceler := fates.filterMap Fate.canceled?

/-- The stands at which the fiber went on. -/
def continuations (fates : List Fate) : List (Ending × Stand) := fates.filterMap Fate.continued?

/-! ## Stories -/

/-- A registration that has not ended. -/
inductive Underway : Standing → List Fate → Prop where
  | opened (r : Registration) (run : Run) : Underway (.registering run none) [.opened r]
  | kept (r : Registration) (run : Run) (x : Exit Value Value) :
    Underway (.registering run (some x)) [.opened r, .kept x]
  | returned (r : Registration) (run : Run) (c : Canceler) :
    Underway (.returned run none c) [.opened r, .returned c]
  | keptReturned (r : Registration) (run : Run) (x : Exit Value Value) (c : Canceler) :
    Underway (.returned run (some x) c) [.opened r, .kept x, .returned c]
  | returnedKept (r : Registration) (run : Run) (x : Exit Value Value) (c : Canceler) :
    Underway (.returned run (some x) c) [.opened r, .returned c, .kept x]
  | parked (r : Registration) (run : Run) (c : Canceler) :
    Underway (.parked run c) [.opened r, .returned c, .parked]

/-- A registration that an interrupt finds without a completion. -/
inductive Overtaken (run : Run) (c : Canceler) (before : List Fate) : Prop where
  | returned (h : Underway (.returned run none c) before)
  | parked (h : Underway (.parked run c) before)

/-- A registration that has ended, with the canceler run if there is need for it. -/
inductive Concluded (run : Run) : Ending → List Fate → Prop where
  | threw {early : Option (Exit Value Value)} {before : List Fate}
    (h : Underway (.registering run early) before) (d : Defect) :
    Concluded run (.threw d) (before ++ [.ended (.threw d)])
  | early {x : Exit Value Value} {c : Canceler} {before : List Fate}
    (h : Underway (.returned run (some x) c) before) :
    Concluded run (.early x) (before ++ [.ended (.early x)])
  | answered {c : Canceler} {before : List Fate} (h : Underway (.parked run c) before)
    (x : Exit Value Value) : Concluded run (.answered x) (before ++ [.ended (.answered x)])
  | interrupted {c : Canceler} {before : List Fate} (h : Overtaken run c before) :
    Concluded run .interrupted (before ++ [.ended .interrupted] ++ [.canceled c])

/-- The fiber is in the middle of the registration of an epoch, or has not gone on yet after it. -/
def Place.Engaged (p : Place) (epoch : Nat) : Prop :=
  match p.standing with
  | .registering .. | .returned .. | .parked .. => p.epoch = epoch
  | .leaving e .. | .unwinding e .. => e = epoch
  | _ => False

/-- What can have happened to the registration of an epoch when a fiber has come to a place. -/
inductive Story (epoch : Nat) (p : Place) : List Fate → Prop where
  | unknown (h : ¬ p.Engaged epoch) : Story epoch p []
  | underway {fates : List Fate} (hepoch : p.epoch = epoch) (h : Underway p.standing fates) :
    Story epoch p fates
  | unwinding {run : Run} {c : Canceler} {before : List Fate} (hepoch : epoch < p.epoch)
    (hstanding : p.standing = .unwinding epoch run c) (h : Overtaken run c before) :
    Story epoch p (before ++ [.ended .interrupted])
  | leaving {run : Run} {ending : Ending} {fates : List Fate} (hepoch : epoch < p.epoch)
    (hstanding : p.standing = .leaving epoch run ending) (h : Concluded run ending fates) :
    Story epoch p fates
  | past {run : Run} {ending : Ending} {fates : List Fate} (hepoch : epoch < p.epoch)
    (hengaged : ¬ p.Engaged epoch) (h : Concluded run ending fates) :
    Story epoch p (fates ++ [.continued ending ⟨run, .ofExit ending.exit⟩])

section Story

variable {epoch : Nat} {p q : Place} {e : Event} {fates : List Fate}

theorem Underway.engaged (h : Underway p.standing fates) : p.Engaged p.epoch := by
  unfold Place.Engaged
  generalize p.standing = s at h
  cases h <;> rfl

/-- A move that is not about a registration carries its story on if the fiber stays away from it. -/
theorem Story.aside (h : Story epoch p fates) (hp : ¬ p.Engaged epoch) (hq : ¬ q.Engaged epoch)
    (hle : p.epoch ≤ q.epoch) : Story epoch q fates := by
  cases h with
  | unknown _ => exact .unknown hq
  | underway hepoch h =>
    rw [← hepoch] at hp
    exact absurd h.engaged hp
  | unwinding hepoch hstanding h =>
    refine absurd ?_ hp
    simp [Place.Engaged, hstanding]
  | leaving hepoch hstanding h =>
    refine absurd ?_ hp
    simp [Place.Engaged, hstanding]
  | past hepoch _ h => exact .past (Nat.lt_of_lt_of_le hepoch hle) hq h

theorem Story.of_same (h : Story epoch p fates) (hstanding : q.standing = p.standing)
    (hepoch : q.epoch = p.epoch) : Story epoch q fates := by
  have hengaged : q.Engaged epoch ↔ p.Engaged epoch := by
    unfold Place.Engaged
    rw [hstanding, hepoch]
  cases h with
  | unknown h => exact .unknown fun hq => h (hengaged.1 hq)
  | underway he h => exact .underway (hepoch.trans he) (hstanding ▸ h)
  | unwinding he hs h => exact .unwinding (hepoch ▸ he) (hstanding.trans hs) h
  | leaving he hs h => exact .leaving (hepoch ▸ he) (hstanding.trans hs) h
  | past he hnot h => exact .past (hepoch ▸ he) (fun hq => hnot (hengaged.1 hq)) h

theorem Story.underway_of (h : Story p.epoch p fates) (hp : p.Engaged p.epoch) :
    Underway p.standing fates := by
  cases h with
  | unknown hnot => exact absurd hp hnot
  | underway _ h => exact h
  | unwinding hepoch _ _ => exact absurd hepoch (Nat.lt_irrefl _)
  | leaving hepoch _ _ => exact absurd hepoch (Nat.lt_irrefl _)
  | past hepoch _ _ => exact absurd hepoch (Nat.lt_irrefl _)

theorem Story.unwinding_of (h : Story epoch p fates) {run : Run} {c : Canceler}
    (hp : p.standing = .unwinding epoch run c) :
    epoch < p.epoch ∧ ∃ before, fates = before ++ [.ended .interrupted] ∧ Overtaken run c before := by
  have hengaged : p.Engaged epoch := by simp [Place.Engaged, hp]
  cases h with
  | unknown hnot => exact absurd hengaged hnot
  | underway _ h =>
    rw [hp] at h
    cases h
  | unwinding hepoch hstanding h =>
    rw [hp] at hstanding
    cases hstanding
    exact ⟨hepoch, _, rfl, h⟩
  | leaving _ hstanding _ =>
    rw [hp] at hstanding
    cases hstanding
  | past _ hnot _ => exact absurd hengaged hnot

theorem Story.leaving_of (h : Story epoch p fates) {run : Run} {ending : Ending}
    (hp : p.standing = .leaving epoch run ending) : epoch < p.epoch ∧ Concluded run ending fates := by
  have hengaged : p.Engaged epoch := by simp [Place.Engaged, hp]
  cases h with
  | unknown hnot => exact absurd hengaged hnot
  | underway _ h =>
    rw [hp] at h
    cases h
  | unwinding _ hstanding _ =>
    rw [hp] at hstanding
    cases hstanding
  | leaving hepoch hstanding h =>
    rw [hp] at hstanding
    cases hstanding
    exact ⟨hepoch, h⟩
  | past _ hnot _ => exact absurd hengaged hnot

/-- A registration of a later epoch is still to come. -/
theorem Story.eq_nil_of_lt (h : Story epoch p fates) (hlt : p.epoch < epoch) : fates = [] := by
  cases h with
  | unknown _ => rfl
  | underway hepoch _ => omega
  | unwinding hepoch _ _ => omega
  | leaving hepoch _ _ => omega
  | past hepoch _ _ => omega

/-- A move of the registration that is under way leaves the other registrations alone. -/
theorem Story.further (h : Story epoch p fates) {fate : Fate} (hp : ∀ e, p.Engaged e ↔ p.epoch = e)
    (hq : ∀ e, q.Engaged e ↔ p.epoch = e) (hle : p.epoch ≤ q.epoch)
    (hnext : Underway p.standing fates → Story p.epoch q (fates ++ [fate])) :
    Story epoch q (fates ++ (if p.epoch = epoch then some fate else none).toList) := by
  by_cases hepoch : p.epoch = epoch
  · subst hepoch
    rw [if_pos rfl]
    exact hnext (h.underway_of ((hp _).2 rfl))
  · rw [if_neg hepoch, Option.toList_none, List.append_nil]
    exact h.aside (fun he => hepoch ((hp _).1 he)) (fun he => hepoch ((hq _).1 he)) hle

theorem Story.register (h : Story epoch p fates) (hp : ¬ p.Engaged epoch) (run : Run) (r : Registration) :
    Story epoch (p.beyond (.registering run none))
      (fates ++ (Event.fate? epoch (.registered r (p.epoch + 1))).toList) := by
  by_cases hepoch : p.epoch + 1 = epoch
  · have hnil := h.eq_nil_of_lt (by omega)
    subst hnil
    subst hepoch
    rw [Event.fate?, if_pos rfl]
    exact .underway rfl (.opened r run)
  · rw [Event.fate?, if_neg hepoch, Option.toList_none, List.append_nil]
    exact h.aside hp hepoch (Nat.le_succ _)

theorem Story.cancel (h : Story epoch p fates) {ended : Nat} {run : Run} {c : Canceler}
    (hp : p.standing = .unwinding ended run c) :
    Story epoch (p.moveTo (.leaving ended run .interrupted))
      (fates ++ (Event.fate? epoch (.canceled ended c)).toList) := by
  by_cases hepoch : ended = epoch
  · subst hepoch
    obtain ⟨hlt, before, rfl, hbefore⟩ := h.unwinding_of hp
    rw [Event.fate?, if_pos rfl]
    exact .leaving hlt rfl (.interrupted hbefore)
  · rw [Event.fate?, if_neg hepoch, Option.toList_none, List.append_nil]
    exact h.aside (by simpa [Place.Engaged, hp] using hepoch) hepoch (Nat.le_refl _)

theorem Story.continue (h : Story epoch p fates) {ended : Nat} {run : Run} {ending : Ending}
    (hp : p.standing = .leaving ended run ending) :
    Story epoch (p.moveTo (.ready ⟨run, .ofExit ending.exit⟩))
      (fates ++ (Event.fate? epoch (.continued ended ending ⟨run, .ofExit ending.exit⟩)).toList) := by
  by_cases hepoch : ended = epoch
  · subst hepoch
    obtain ⟨hlt, hconcluded⟩ := h.leaving_of hp
    rw [Event.fate?, if_pos rfl]
    exact .past hlt id hconcluded
  · rw [Event.fate?, if_neg hepoch, Option.toList_none, List.append_nil]
    exact h.aside (by simpa [Place.Engaged, hp] using hepoch) id (Nat.le_refl _)

/-- **Every move carries the story of every registration on.** -/
theorem Story.move (h : Story epoch p fates) (hmove : Move p e q) :
    Story epoch q (fates ++ (e.fate? epoch).toList) := by
  cases hmove with
  | begin hs | step hs _ _ _ | exit hs _ | tell hs =>
    rw [Event.fate?, Option.toList_none, List.append_nil]
    exact h.aside (by simp [Place.Engaged, hs]) id (Nat.le_refl _)
  | request _ =>
    rw [Event.fate?, Option.toList_none, List.append_nil]
    exact h.of_same rfl rfl
  | register hs _ => exact h.register (by simp [Place.Engaged, hs]) _ _
  | «return» hs c =>
    refine h.further (by simp [Place.Engaged, hs]) (fun _ => Iff.rfl) (Nat.le_refl _) fun hunderway => ?_
    rw [hs] at hunderway
    refine .underway rfl ?_
    cases hunderway with
    | opened r => exact .returned r _ c
    | kept r _ x => exact .keptReturned r _ x c
  | keepRegistering hs x =>
    refine h.further (by simp [Place.Engaged, hs]) (fun _ => Iff.rfl) (Nat.le_refl _) fun hunderway => ?_
    rw [hs] at hunderway
    refine .underway rfl ?_
    cases hunderway with
    | opened r => exact .kept r _ x
  | keepReturned hs x =>
    refine h.further (by simp [Place.Engaged, hs]) (fun _ => Iff.rfl) (Nat.le_refl _) fun hunderway => ?_
    rw [hs] at hunderway
    refine .underway rfl ?_
    cases hunderway with
    | returned r => exact .returnedKept r _ x _
  | park hs _ =>
    refine h.further (by simp [Place.Engaged, hs]) (fun _ => Iff.rfl) (Nat.le_refl _) fun hunderway => ?_
    rw [hs] at hunderway
    refine .underway rfl ?_
    cases hunderway with
    | returned r => exact .parked r _ _
  | throw hs d =>
    refine h.further (by simp [Place.Engaged, hs]) (fun _ => Iff.rfl) (Nat.le_succ _) fun hunderway => ?_
    rw [hs] at hunderway
    exact .leaving (Nat.lt_succ_self _) rfl (.threw hunderway d)
  | early hs =>
    refine h.further (by simp [Place.Engaged, hs]) (fun _ => Iff.rfl) (Nat.le_succ _) fun hunderway => ?_
    rw [hs] at hunderway
    exact .leaving (Nat.lt_succ_self _) rfl (.early hunderway)
  | answer hs x =>
    refine h.further (by simp [Place.Engaged, hs]) (fun _ => Iff.rfl) (Nat.le_succ _) fun hunderway => ?_
    rw [hs] at hunderway
    exact .leaving (Nat.lt_succ_self _) rfl (.answered hunderway x)
  | interruptReturned hs _ _ =>
    refine h.further (by simp [Place.Engaged, hs]) (fun _ => Iff.rfl) (Nat.le_succ _) fun hunderway => ?_
    rw [hs] at hunderway
    exact .unwinding (Nat.lt_succ_self _) rfl (.returned hunderway)
  | interruptParked hs _ _ =>
    refine h.further (by simp [Place.Engaged, hs]) (fun _ => Iff.rfl) (Nat.le_succ _) fun hunderway => ?_
    rw [hs] at hunderway
    exact .unwinding (Nat.lt_succ_self _) rfl (.parked hunderway)
  | cancel hs => exact h.cancel hs
  | «continue» hs => exact h.continue hs

/-- What has happened to a registration in the course of a fiber. -/
theorem Course.story {events : List Event} (h : Course events p) (epoch : Nat) :
    Story epoch p (events.filterMap (Event.fate? epoch)) := by
  refine h.invariant (P := fun events p => Story epoch p (events.filterMap (Event.fate? epoch)))
    (fun root hook => .unknown id) ?_
  intro es p e q hstory hmove
  rw [Event.filterMap_concat]
  exact hstory.move hmove

end Story

/-! ## What a registration can have come to -/

/-- A registration is opened once, before anything else happens to it. -/
def Begun (fates : List Fate) : Prop := ∃ r rest, fates = .opened r :: rest ∧ ∀ r', .opened r' ∉ rest

/-- How a registration has ended, and what that says about its completions and its canceler. -/
inductive Outcome (fates : List Fate) : Ending → Prop where
  /-- The completion that came before the end is delivered, and nothing is cancelled. -/
  | early (x : Exit Value Value) (c : Canceler) (hkept : completions fates = [x])
    (hreturned : cancelers fates = [c]) (hcanceled : cancelings fates = []) : Outcome fates (.early x)
  /-- The first completion comes to a fiber that is parked, and nothing is cancelled. -/
  | answered (x : Exit Value Value) (c : Canceler) (hparked : .parked ∈ fates) (hkept : completions fates = [])
    (hreturned : cancelers fates = [c]) (hcanceled : cancelings fates = []) : Outcome fates (.answered x)
  /-- No completion has come, and the canceler that was returned has run once. -/
  | interrupted (c : Canceler) (hkept : completions fates = []) (hreturned : cancelers fates = [c])
    (hcanceled : cancelings fates = [c]) : Outcome fates .interrupted
  /-- The closure has not returned, so there is nothing to cancel. -/
  | threw (d : Defect) (hreturned : cancelers fates = []) (hcanceled : cancelings fates = []) :
    Outcome fates (.threw d)

/-- What can have happened to a registration. -/
inductive OneShot (fates : List Fate) : Prop where
  /-- It has not ended. -/
  | pending (hended : endings fates = []) (hcanceled : cancelings fates = [])
    (hcontinued : continuations fates = [])
  /-- It was interrupted after its closure has returned, and is about to be cancelled. -/
  | unwinding (c : Canceler) (hended : endings fates = [.interrupted]) (hkept : completions fates = [])
    (hreturned : cancelers fates = [c]) (hcanceled : cancelings fates = [])
    (hcontinued : continuations fates = [])
  /-- It has ended once, and the fiber has gone on once with what that amounts to. -/
  | past (ending : Ending) (run : Run) (hended : endings fates = [ending]) (houtcome : Outcome fates ending)
    (hcontinued : continuations fates = [(ending, ⟨run, .ofExit ending.exit⟩)])

section OneShot

variable {epoch : Nat} {p : Place} {fates : List Fate} {run : Run} {c : Canceler}

@[simp] theorem cancelers_append (before after : List Fate) :
    cancelers (before ++ after) = cancelers before ++ cancelers after := List.filterMap_append

@[simp] theorem completions_append (before after : List Fate) :
    completions (before ++ after) = completions before ++ completions after := List.filterMap_append

@[simp] theorem endings_append (before after : List Fate) :
    endings (before ++ after) = endings before ++ endings after := List.filterMap_append

@[simp] theorem cancelings_append (before after : List Fate) :
    cancelings (before ++ after) = cancelings before ++ cancelings after := List.filterMap_append

@[simp] theorem continuations_append (before after : List Fate) :
    continuations (before ++ after) = continuations before ++ continuations after := List.filterMap_append

theorem Underway.pending {s : Standing} (h : Underway s fates) :
    endings fates = [] ∧ cancelings fates = [] ∧ continuations fates = [] := by
  cases h <;> exact ⟨rfl, rfl, rfl⟩

theorem Underway.begun {s : Standing} (h : Underway s fates) : Begun fates := by
  cases h <;> exact ⟨_, _, rfl, by simp⟩

theorem Begun.append (h : Begun fates) {after : List Fate} (hafter : ∀ r, .opened r ∉ after) :
    Begun (fates ++ after) := by
  obtain ⟨r, rest, rfl, hrest⟩ := h
  refine ⟨r, rest ++ after, rfl, fun r' hmem => ?_⟩
  rcases List.mem_append.1 hmem with hmem | hmem
  · exact hrest r' hmem
  · exact hafter r' hmem

theorem Overtaken.begun (h : Overtaken run c fates) : Begun fates := by
  cases h with
  | returned h => exact h.begun
  | parked h => exact h.begun

theorem Concluded.begun {ending : Ending} (h : Concluded run ending fates) : Begun fates := by
  cases h with
  | threw h d => exact h.begun.append (by simp)
  | early h => exact h.begun.append (by simp)
  | answered h x => exact h.begun.append (by simp)
  | interrupted h => exact (h.begun.append (by simp)).append (by simp)

theorem Story.begun (h : Story epoch p fates) : fates = [] ∨ Begun fates := by
  cases h with
  | unknown _ => exact Or.inl rfl
  | underway _ h => exact Or.inr h.begun
  | unwinding _ _ h => exact Or.inr (h.begun.append (by simp))
  | leaving _ _ h => exact Or.inr h.begun
  | past _ _ h => exact Or.inr (h.begun.append (by simp))

theorem Underway.of_registering {early : Option (Exit Value Value)}
    (h : Underway (.registering run early) fates) : cancelers fates = [] := by
  cases h <;> rfl

theorem Underway.of_returned {early : Option (Exit Value Value)}
    (h : Underway (.returned run early c) fates) :
    completions fates = early.toList ∧ cancelers fates = [c] := by
  cases h <;> exact ⟨rfl, rfl⟩

theorem Underway.of_parked (h : Underway (.parked run c) fates) :
    .parked ∈ fates ∧ completions fates = [] ∧ cancelers fates = [c] := by
  cases h with
  | parked r => exact ⟨by simp, rfl, rfl⟩

theorem Overtaken.summary (h : Overtaken run c fates) :
    completions fates = [] ∧ cancelers fates = [c] ∧
      endings fates = [] ∧ cancelings fates = [] ∧ continuations fates = [] := by
  cases h with
  | returned h => exact ⟨h.of_returned.1, h.of_returned.2, h.pending⟩
  | parked h => exact ⟨h.of_parked.2.1, h.of_parked.2.2, h.pending⟩

theorem Concluded.ends {ending : Ending} (h : Concluded run ending fates) :
    endings fates = [ending] ∧ continuations fates = [] := by
  cases h with
  | threw h d =>
    obtain ⟨hended, -, hcontinued⟩ := h.pending
    rw [endings_append, continuations_append, hended, hcontinued]
    exact ⟨rfl, rfl⟩
  | early h =>
    obtain ⟨hended, -, hcontinued⟩ := h.pending
    rw [endings_append, continuations_append, hended, hcontinued]
    exact ⟨rfl, rfl⟩
  | answered h x =>
    obtain ⟨hended, -, hcontinued⟩ := h.pending
    rw [endings_append, continuations_append, hended, hcontinued]
    exact ⟨rfl, rfl⟩
  | interrupted h =>
    obtain ⟨-, -, hended, -, hcontinued⟩ := h.summary
    simp only [endings_append, continuations_append, hended, hcontinued]
    exact ⟨rfl, rfl⟩

/-- Whatever comes after its end, the outcome of a registration is that of its ending. -/
theorem Concluded.outcome {ending : Ending} (h : Concluded run ending fates) {s : Stand} :
    Outcome (fates ++ [.continued ending s]) ending := by
  cases h with
  | threw h d =>
    refine .threw d ?_ ?_
    · simp only [cancelers_append, h.of_registering]
      rfl
    · simp only [cancelings_append, h.pending.2.1]
      rfl
  | @early x c before h =>
    refine .early x c ?_ ?_ ?_
    · simp only [completions_append, h.of_returned.1]
      rfl
    · simp only [cancelers_append, h.of_returned.2]
      rfl
    · simp only [cancelings_append, h.pending.2.1]
      rfl
  | @answered c before h x =>
    obtain ⟨hparked, hkept, hreturned⟩ := h.of_parked
    refine .answered x c ?_ ?_ ?_ ?_
    · exact List.mem_append_left _ (List.mem_append_left _ hparked)
    · simp only [completions_append, hkept]
      rfl
    · simp only [cancelers_append, hreturned]
      rfl
    · simp only [cancelings_append, h.pending.2.1]
      rfl
  | @interrupted c before h =>
    obtain ⟨hkept, hreturned, -, hcanceled, -⟩ := h.summary
    refine .interrupted c ?_ ?_ ?_
    · simp only [completions_append, hkept]
      rfl
    · simp only [cancelers_append, hreturned]
      rfl
    · simp only [cancelings_append, hcanceled]
      rfl

/-- The fiber has not gone on yet after the registration of an epoch. -/
def Place.Leaves (p : Place) (epoch : Nat) : Prop := ∃ run ending, p.standing = .leaving epoch run ending

theorem Story.oneShot (h : Story epoch p fates) (hp : ¬ p.Leaves epoch) : OneShot fates := by
  cases h with
  | unknown _ => exact .pending rfl rfl rfl
  | underway _ h =>
    obtain ⟨hended, hcanceled, hcontinued⟩ := h.pending
    exact .pending hended hcanceled hcontinued
  | @unwinding run c before hepoch hstanding h =>
    obtain ⟨hkept, hreturned, hended, hcanceled, hcontinued⟩ := h.summary
    refine .unwinding c ?_ ?_ ?_ ?_ ?_
    · rw [endings_append, hended]
      rfl
    · rw [completions_append, hkept]
      rfl
    · rw [cancelers_append, hreturned]
      rfl
    · rw [cancelings_append, hcanceled]
      rfl
    · rw [continuations_append, hcontinued]
      rfl
  | leaving _ hstanding _ => exact absurd ⟨_, _, hstanding⟩ hp
  | @past run ending fates hepoch hengaged h =>
    obtain ⟨hended, hcontinued⟩ := h.ends
    refine .past ending run ?_ h.outcome ?_
    · rw [endings_append, hended]
      rfl
    · rw [continuations_append, hcontinued]
      rfl

theorem Outcome.of_interrupted (h : Outcome fates .interrupted) : ∃ c, cancelings fates = [c] := by
  cases h with
  | interrupted c hkept hreturned hcanceled => exact ⟨c, hcanceled⟩

/-- Once a registration has ended, the fiber is in a later epoch. -/
theorem Story.lt_of_ended (h : Story epoch p fates) {ending : Ending} (hended : ending ∈ endings fates) :
    epoch < p.epoch := by
  cases h with
  | unknown _ => cases hended
  | underway _ h =>
    rw [h.pending.1] at hended
    cases hended
  | unwinding hepoch _ _ => exact hepoch
  | leaving hepoch _ _ => exact hepoch
  | past hepoch _ _ => exact hepoch

/-- An interrupted registration whose canceler has not run is being unwound. -/
theorem Story.unwinding_of_ended (h : Story epoch p fates) (hp : ¬ p.Leaves epoch)
    (hended : endings fates = [.interrupted]) (hcanceled : cancelings fates = []) :
    ∃ run c, p.standing = .unwinding epoch run c ∧ cancelers fates = [c] := by
  cases h with
  | unknown _ => cases hended
  | underway _ h =>
    rw [h.pending.1] at hended
    cases hended
  | @unwinding run c before _ hstanding h =>
    refine ⟨run, c, hstanding, ?_⟩
    rw [cancelers_append, h.summary.2.1]
    rfl
  | leaving _ hstanding _ => exact absurd ⟨_, _, hstanding⟩ hp
  | past _ _ h =>
    rw [endings_append, h.ends.1] at hended
    obtain rfl : _ = Ending.interrupted := List.head_eq_of_cons_eq hended
    obtain ⟨c, hrun⟩ := Outcome.of_interrupted h.outcome
    exact nomatch hcanceled.symm.trans hrun

end OneShot

/-! ## Registrations of a run -/

/-- What holds of the registration of an epoch at a moment, given what has happened before. -/
structure OneShotAt (es : Chronicle) (m : Moment) (f : FiberId) (epoch : Nat) : Prop where
  /-- It is opened before anything else happens to it. -/
  begun : fates f epoch es = [] ∨ Begun (fates f epoch es)
  /-- It ends at most once, in one of the four ways, and the fiber goes on once for that. -/
  shot : OneShot (fates f epoch es)
  /-- It is interrupted only if that was requested. -/
  requested : endings (fates f epoch es) = [.interrupted] → .requested ∈ history f es
  /-- Until the canceler of an interrupted registration has run, a task or the turn that is under way is to run
  it and then to go on with the fiber. -/
  unwinds : endings (fates f epoch es) = [.interrupted] → cancelings (fates f epoch es) = [] →
    ∃ run c, cancelers (fates f epoch es) = [c] ∧
      (m.world.tasksOf f = [.unwind f c run] ∨ ∃ left, m.activity = .canceling f left run c)
  /-- A completion that was kept when the closure has returned is what the fiber goes on with, whether or not it
  is to be interrupted. -/
  delivers : ∀ left run c x, m.activity = .returning f left run c → m.world.epoch f = epoch →
    completions (fates f epoch es) = [x] →
      m.next = ⟨m.world.advanceEpoch f .running, .running f left ⟨run, .ofExit x⟩⟩
  /-- Once it has ended, its callback changes nothing. -/
  stale : ∀ ending ∈ endings (fates f epoch es), ∀ x, m.world.settle ⟨f, epoch⟩ x = m.world

section Main

variable {f : FiberId} {epoch : Nat} {m : Moment} {p : Place} {es : Chronicle}

/-- A registration is interrupted only after that was requested. -/
theorem Course.requested {events : List Event} (h : Course events p) {epoch : Nat}
    (hended : .ended epoch .interrupted ∈ events) : .requested ∈ events := by
  have hboth : (p.requested = true → .requested ∈ events) ∧
      (∀ epoch, .ended epoch .interrupted ∈ events → .requested ∈ events) := by
    refine h.invariant (P := fun events p => (p.requested = true → .requested ∈ events) ∧
      (∀ epoch, .ended epoch .interrupted ∈ events → .requested ∈ events)) ?_ ?_
    · intro root hook
      exact ⟨nofun, fun epoch hmem => nomatch List.mem_singleton.1 hmem⟩
    · intro es p e q ih hmove
      have hsame : q.requested = p.requested ∨ e = .requested := by
        cases hmove with
        | request _ => exact Or.inr rfl
        | _ => exact Or.inl rfl
      have hflag : ∀ epoch, e = .ended epoch .interrupted → p.requested = true := by
        rintro epoch rfl
        cases hmove with
        | interruptReturned _ _ hrequested | interruptParked _ _ hrequested => exact hrequested
      refine ⟨fun hq => ?_, fun epoch hmem => ?_⟩
      · rcases hsame with hsame | rfl
        · exact List.mem_append_left _ (ih.1 (hsame.symm.trans hq))
        · exact List.mem_append_right _ List.mem_cons_self
      · rcases List.mem_append.1 hmem with hmem | hmem
        · exact List.mem_append_left _ (ih.2 epoch hmem)
        · exact List.mem_append_left _ (ih.1 (hflag epoch (List.mem_singleton.1 hmem).symm))
  exact hboth.2 epoch hended

theorem mem_endings_iff {ending : Ending} :
    ending ∈ endings (fates f epoch es) ↔ .ended epoch ending ∈ history f es := by
  unfold endings fates
  rw [List.filterMap_filterMap, List.mem_filterMap]
  constructor
  · rintro ⟨e, hmem, he⟩
    obtain ⟨fate, hfate, hending⟩ := Option.bind_eq_some_iff.1 he
    cases fate with
    | ended ending' =>
      cases hending
      cases e with
      | ended e' ending'' =>
        simp only [Event.fate?, Option.ite_none_right_eq_some] at hfate
        obtain ⟨rfl, hfate⟩ := hfate
        cases hfate
        exact hmem
      | _ => simp [Event.fate?] at hfate
    | _ => cases hending
  · intro hmem
    refine ⟨_, hmem, ?_⟩
    simp [Event.fate?, Fate.ended?]

/-- No moment is in the middle of leaving a registration. -/
theorem Fits.not_leaves (h : Fits f (m.view f) p) : ¬ p.Leaves epoch := by
  rintro ⟨run, ending, hstanding⟩
  have hheld := h.held
  rw [hstanding] at hheld
  cases hheld

theorem Fits.unwinding (h : Fits f (m.view f) p) (hquiet : m.world.TimersQuiet) {run : Run} {c : Canceler}
    (hp : p.standing = .unwinding epoch run c) :
    m.world.tasksOf f = [.unwind f c run] ∨ ∃ left, m.activity = .canceling f left run c := by
  have hheld : Held f p.epoch p.hook p.standing (m.world.tokens f) (m.activity.of f) := h.held
  rw [World.tasksOf_eq_tokens hquiet]
  rw [hp] at hheld
  generalize m.world.tokens f = tokens at hheld
  generalize hactivity : m.activity.of f = a at hheld
  cases hheld with
  | unwinding => exact Or.inl rfl
  | canceling _ _ _ left => exact Or.inr ⟨left, Activity.eq_of_of hactivity nofun⟩

theorem Fits.delivers (h : Fits f (m.view f) p) {fates : List Fate} (hstory : Story p.epoch p fates)
    {left : Nat} {run : Run} {c : Canceler} {x : Exit Value Value}
    (hactivity : m.activity = .returning f left run c) (hkept : completions fates = [x]) :
    m.next = ⟨m.world.advanceEpoch f .running, .running f left ⟨run, .ofExit x⟩⟩ := by
  obtain ⟨⟨early, hstanding⟩, -⟩ := (h.held_of_activity hactivity rfl).of_returning
  have hunderway := hstory.underway_of (by simp [Place.Engaged, hstanding])
  rw [hstanding] at hunderway
  have hearly : early = some x := by
    have htoList := hunderway.of_returned.1.symm.trans hkept
    cases early with
    | none => cases htoList
    | some y =>
      cases htoList
      rfl
  have hphase : (m.world.fiber? f).map Fiber.phase = some (.registering (some x)) := by
    refine h.phase?_eq.trans ?_
    rw [hstanding, hearly]
    rfl
  unfold Moment.next
  rw [hactivity]
  simp only [World.leaveRegistration, hphase]

/-- **Every registration of every run is one-shot**, whenever its callback is completed and the fiber is
interrupted, and whatever other registrations there are. -/
theorem Reachable.one_shot (h : Reachable es m) (f : FiberId) (epoch : Nat) : OneShotAt es m f epoch := by
  rcases (h.accounted f).cases with ⟨hnil, -⟩ | ⟨p, hcourse, hfits⟩
  · have hfates : fates f epoch es = [] := by
      rw [fates, hnil]
      rfl
    refine ⟨Or.inl hfates, ?_, ?_, ?_, ?_, ?_⟩
    · rw [hfates]
      exact .pending rfl rfl rfl
    all_goals
      rw [hfates]
      intros
      contradiction
  · have hstory : Story epoch p (fates f epoch es) := hcourse.story epoch
    obtain ⟨home, hrecord⟩ := hfits.record
    refine ⟨hstory.begun, hstory.oneShot hfits.not_leaves, ?_, ?_, ?_, ?_⟩
    · intro hended
      have hmem : .interrupted ∈ endings (fates f epoch es) := by
        rw [hended]
        exact List.mem_singleton_self _
      exact hcourse.requested (mem_endings_iff.1 hmem)
    · intro hended hcanceled
      obtain ⟨run, c, hstanding, hreturned⟩ := hstory.unwinding_of_ended hfits.not_leaves hended hcanceled
      exact ⟨run, c, hreturned, hfits.unwinding h.timersQuiet hstanding⟩
    · intro left run c x hactivity hepoch hkept
      have hp : p.epoch = epoch := (World.epoch_of_record hrecord).symm.trans hepoch
      subst hp
      exact hfits.delivers hstory hactivity hkept
    · intro ending hended x
      have hlt := hstory.lt_of_ended hended
      have hsettle := @World.settle_of_record_epoch m.world _ ⟨f, epoch⟩ hrecord (Nat.ne_of_gt hlt) x
      exact hsettle.1

/-- The world in which a fiber was parked for ever and then interrupted. -/
def interruptedWaiter : World :=
  (((Scenario.initial {} []).fork .never).2.pass.interrupt ⟨0⟩).pass

/-- A fiber that was interrupted while it was parked has left its registration, and nobody can complete it. -/
theorem Reachable.one_shot_of_interrupt : ∃ es,
    interruptedWaiter.fiberState ⟨0⟩ = .cancelled ∧ Reachable es ⟨interruptedWaiter, .idle⟩ ∧
      OneShotAt es ⟨interruptedWaiter, .idle⟩ ⟨0⟩ 1 := by
  have hfork : Between (Scenario.initial {} []) ((Scenario.initial {} []).fork .never).2 :=
    Between.requested (PermitsCommon.launch (R := Requested) _ .never .publish)
  have hinterrupt (w : World) : Between w (w.interrupt ⟨0⟩) :=
    Between.requested ⟨_, .one (.interrupt w ⟨0⟩)⟩
  obtain ⟨es, hes⟩ := (Reachable.initial {} []).between
    (((hfork.trans (Between.pass _)).trans (hinterrupt _)).trans (Between.pass _))
  exact ⟨[] ++ es, rfl, hes, Reachable.one_shot hes ⟨0⟩ 1⟩

end Main

end FiberLoop
