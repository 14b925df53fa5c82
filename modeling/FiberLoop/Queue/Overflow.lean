/-!
# Overflow policies

What happens to an item that comes to a buffer at its capacity. The buffer is a list, oldest item first.

`Overflow.push` adds a new item, `Overflow.restore` puts an item back that was taken and never
delivered; such an item is older than everything in the buffer. `length_push_le` and
`length_restore_le` say that a sliding or dropping buffer never outgrows its capacity.
-/

namespace FiberLoop

/-- The rule of a queue for items beyond its capacity. -/
inductive Overflow where
  /-- There is no capacity. -/
  | unbounded
  /-- Keep the newest items. -/
  | sliding (capacity : Nat)
  /-- Keep the oldest items. -/
  | dropping (capacity : Nat)
  /-- Producers wait for room before they come to the buffer. -/
  | bounded (capacity : Nat)
deriving DecidableEq, Repr, Inhabited

namespace Overflow

variable {α : Type}

def capacity? : Overflow → Option Nat
  | .unbounded => none
  | .sliding n | .dropping n | .bounded n => some n

/-- The debug form. -/
def debug : Overflow → String
  | .unbounded => "Unbounded"
  | .sliding n => "Sliding(" ++ toString n ++ ")"
  | .dropping n => "Dropping(" ++ toString n ++ ")"
  | .bounded n => "Bounded(" ++ toString n ++ ")"

/-- The number of items that the buffer itself may hold; for a bounded queue admission is decided
elsewhere. -/
def limit? : Overflow → Option Nat
  | .unbounded | .bounded _ => none
  | .sliding n | .dropping n => some n

/-- Add a new item at the end. -/
def push (p : Overflow) (buffer : List α) (item : α) : List α :=
  match p with
  | .unbounded | .bounded _ => buffer ++ [item]
  | .sliding n => if n = 0 then buffer else buffer.drop (buffer.length + 1 - n) ++ [item]
  | .dropping n => if buffer.length < n then buffer ++ [item] else buffer

/-- Put an older item back at the front. -/
def restore (p : Overflow) (buffer : List α) (item : α) : List α :=
  match p with
  | .unbounded | .bounded _ => item :: buffer
  | .sliding n => if buffer.length < n then item :: buffer else buffer
  | .dropping n => (item :: buffer).take n

theorem length_push_le {p : Overflow} {n : Nat} (hp : p.limit? = some n) {buffer : List α}
    (h : buffer.length ≤ n) (item : α) : (p.push buffer item).length ≤ n := by
  cases p with
  | unbounded => cases hp
  | bounded m => cases hp
  | sliding m =>
    cases hp
    simp only [push]
    split
    · exact h
    · simp only [List.length_append, List.length_drop, List.length_singleton]
      omega
  | dropping m =>
    cases hp
    simp only [push]
    split
    · simp only [List.length_append, List.length_singleton]
      omega
    · exact h

theorem length_restore_le {p : Overflow} {n : Nat} (hp : p.limit? = some n) {buffer : List α}
    (h : buffer.length ≤ n) (item : α) : (p.restore buffer item).length ≤ n := by
  cases p with
  | unbounded => cases hp
  | bounded m => cases hp
  | sliding m =>
    cases hp
    simp only [restore]
    split
    · simp only [List.length_cons]
      omega
    · exact h
  | dropping m =>
    cases hp
    simp only [restore, List.length_take]
    omega

end Overflow

end FiberLoop
