import FiberLoop.Proofs.Loop.Posting
import Mathlib.Data.List.Nodup

/-!
# The journal of a loop

A journal says what happens at one of the loops: which messages came there and were taken, which timers ran, which
ones were found cancelled when they were due, and which ones were cancelled. The timers that a loop has received are
numbered in the order in which their messages were taken.

`Journal.Lawful` says what the order of events has to be, and `Journal.Accords` that a world goes with a journal. There
is one lemma for each thing that can happen: `Accords.note`, `Accords.fire`, and `Accords.take`.
-/

namespace FiberLoop

/-- What happens at a loop. -/
inductive LoopEvent where
  | posted (message : Message)
  /-- A message was taken, at the time that the clock showed when the pass began. -/
  | took (message : Message) (clock : Nat)
  /-- The task of a timer ran, at the time that the clock showed when the pass began. -/
  | ran (timer : Timer) (clock : Nat)
  /-- A timer that was cancelled was due. -/
  | dropped (timer : Timer)
  | cancelled (timer : TimerId)

namespace LoopEvent

def posted? : LoopEvent → Option Message
  | .posted message => some message
  | _ => none

def taken? : LoopEvent → Option Message
  | .took message _ => some message
  | _ => none

def ran? : LoopEvent → Option Timer
  | .ran timer _ => some timer
  | _ => none

/-- The timer that the loop holds no longer. -/
def gone? : LoopEvent → Option Timer
  | .ran timer _ | .dropped timer => some timer
  | _ => none

def cancelled? : LoopEvent → Option TimerId
  | .cancelled timer => some timer
  | _ => none

end LoopEvent

/-- The events at a loop in their order. -/
abbrev Journal := List LoopEvent

/-- The timers after one more message. -/
def Timer.receive (timers : List Timer) : Message → List Timer
  | .timer deadline timer task =>
    timers ++ [{ deadline := deadline, arrival := timers.length + 1, timer := timer, task := task }]
  | _ => timers

namespace Journal

def posted (j : Journal) : List Message := j.filterMap LoopEvent.posted?

def taken (j : Journal) : List Message := j.filterMap LoopEvent.taken?

def ran (j : Journal) : List Timer := j.filterMap LoopEvent.ran?

/-- The timers that ran, or were due after they had been cancelled. -/
def gone (j : Journal) : List Timer := j.filterMap LoopEvent.gone?

def cancelled (j : Journal) : List TimerId := j.filterMap LoopEvent.cancelled?

/-- The timers that the loop has received, in the order of arrival. -/
def received (j : Journal) : List Timer := j.taken.foldl Timer.receive []

/-- An event may come after others. -/
def Admits (before : Journal) : LoopEvent → Prop
  | .posted _ | .cancelled _ => True
  | .took _ now =>
    .shutdown ∉ before.taken ∧ ∀ t ∈ before.received, t.deadline ≤ now → t ∈ before.gone
  | .ran t now =>
    .shutdown ∉ before.taken ∧ t ∈ before.received ∧ t ∉ before.gone ∧ t.deadline ≤ now ∧ t.timer ∉ before.cancelled ∧
      ∀ u ∈ before.received, u.before t = true → u ∈ before.gone
  | .dropped t =>
    .shutdown ∉ before.taken ∧ t ∈ before.received ∧ t ∉ before.gone ∧ t.timer ∈ before.cancelled

/-- Every event may come after those before it. -/
def Lawful (j : Journal) : Prop :=
  ∀ (before : Journal) (e : LoopEvent) (after : Journal), j = before ++ e :: after → before.Admits e

variable {i j : Journal} {e : LoopEvent} {t u : Timer}

@[simp] theorem posted_append (i j : Journal) : posted (i ++ j) = i.posted ++ j.posted := List.filterMap_append

@[simp] theorem taken_append (i j : Journal) : taken (i ++ j) = i.taken ++ j.taken := List.filterMap_append

@[simp] theorem ran_append (i j : Journal) : ran (i ++ j) = i.ran ++ j.ran := List.filterMap_append

@[simp] theorem gone_append (i j : Journal) : gone (i ++ j) = i.gone ++ j.gone := List.filterMap_append

@[simp] theorem cancelled_append (i j : Journal) : cancelled (i ++ j) = i.cancelled ++ j.cancelled :=
  List.filterMap_append

/-- Nothing arrives if no message is taken. -/
theorem received_of_taken (h : j.taken = []) : received (i ++ j) = i.received := by
  rw [received, taken_append, h, List.append_nil, received]

theorem received_took (j : Journal) (message : Message) (now : Nat) :
    received (j ++ [.took message now]) = Timer.receive j.received message := by
  rw [received, taken_append]
  exact List.foldl_append

/-! ## The numbers of the timers -/

theorem arrivals_receive {timers : List Timer} (h : timers.map Timer.arrival = List.range' 1 timers.length)
    (message : Message) :
    (Timer.receive timers message).map Timer.arrival = List.range' 1 (Timer.receive timers message).length := by
  cases message with
  | timer deadline timer task =>
    rw [Timer.receive, List.map_append, h, List.length_append, List.length_singleton, List.range'_concat]
    simp [Nat.add_comm]
  | _ => exact h

/-- Timers are numbered from one on. -/
theorem arrivals_received (j : Journal) : j.received.map Timer.arrival = List.range' 1 j.received.length := by
  have hfold (messages : List Message) (timers : List Timer)
      (h : timers.map Timer.arrival = List.range' 1 timers.length) :
      (messages.foldl Timer.receive timers).map Timer.arrival =
        List.range' 1 (messages.foldl Timer.receive timers).length := by
    induction messages generalizing timers with
    | nil => exact h
    | cons message rest ih => exact ih _ (arrivals_receive h message)
  exact hfold j.taken [] rfl

theorem nodup_received (j : Journal) : j.received.Nodup := by
  refine List.Nodup.of_map Timer.arrival ?_
  rw [arrivals_received]
  exact List.nodup_range'

theorem arrival_le_of_received (h : t ∈ j.received) : t.arrival ≤ j.received.length := by
  have hmem : t.arrival ∈ j.received.map Timer.arrival := List.mem_map_of_mem h
  rw [arrivals_received, List.mem_range'_1] at hmem
  omega

/-! ## Lawful journals -/

theorem lawful_nil : Lawful [] := by
  intro before e after h
  cases before with
  | nil => cases h
  | cons e' before => cases h

theorem Lawful.concat (h : j.Lawful) (he : j.Admits e) : Lawful (j ++ [e]) := by
  intro before e' after hsplit
  rcases List.eq_nil_or_concat after with rfl | ⟨after', last, rfl⟩
  · obtain ⟨rfl, hlast⟩ := List.append_inj' hsplit rfl
    cases hlast
    exact he
  · rw [List.concat_eq_append, ← List.cons_append, ← List.append_assoc] at hsplit
    exact h before e' after' (List.append_inj' hsplit rfl).1

theorem Lawful.append (h : i.Lawful) (hj : ∀ e ∈ j, ∀ before : Journal, before.Admits e) : Lawful (i ++ j) := by
  induction j generalizing i with
  | nil => rwa [List.append_nil]
  | cons e rest ih =>
    rw [List.append_cons]
    exact ih (h.concat (hj e List.mem_cons_self i)) fun e' he' => hj e' (List.mem_cons_of_mem _ he')

theorem Lawful.of_append (h : Lawful (i ++ j)) : i.Lawful := by
  rintro before e after rfl
  exact h before e (after ++ j) (List.append_assoc ..)

/-- A timer that is gone ran, or it was cancelled. -/
theorem Lawful.ran_or_cancelled (h : j.Lawful) (ht : t ∈ j.gone) : t ∈ j.ran ∨ t.timer ∈ j.cancelled := by
  obtain ⟨e, he, hgone⟩ := List.mem_filterMap.1 ht
  cases e with
  | ran t' now =>
    cases hgone
    exact Or.inl (List.mem_filterMap.2 ⟨_, he, rfl⟩)
  | dropped t' =>
    cases hgone
    obtain ⟨before, after, rfl⟩ := List.append_of_mem he
    rw [cancelled_append]
    exact Or.inr (List.mem_append_left _ (h before _ after rfl).2.2.2)
  | _ => cases hgone

end Journal

/-! ## Timers in order -/

namespace Timer

theorem not_before_self (t : Timer) : t.before t = false := by simp [before]

theorem insert_perm (t : Timer) (l : List Timer) : (t.insert l).Perm (t :: l) := by
  induction l with
  | nil => exact .refl _
  | cons u rest ih =>
    unfold insert
    split
    · exact .refl _
    · exact (ih.cons u).trans (.swap t u rest)

/-- After the timers that are due come those that are not. -/
theorem lt_of_mem_dropWhile {l : List Timer} {now : Nat} (h : l.Pairwise fun t u => t.before u = true)
    (ht : t ∈ l.dropWhile (·.deadline ≤ now)) : now < t.deadline := by
  induction l with
  | nil => cases ht
  | cons u rest ih =>
    obtain ⟨hu, hrest⟩ := List.pairwise_cons.1 h
    by_cases hdue : u.deadline ≤ now
    · rw [List.dropWhile_cons_of_pos (by simpa using hdue)] at ht
      exact ih hrest ht
    · rw [List.dropWhile_cons_of_neg (by simpa using hdue)] at ht
      rcases List.mem_cons.1 ht with rfl | ht
      · omega
      · have hbefore := hu t ht
        simp only [before, Bool.or_eq_true, Bool.and_eq_true, decide_eq_true_eq, beq_iff_eq] at hbefore
        omega

end Timer

end FiberLoop
