import FiberLoop.Queue.Overflow
import Mathlib.Data.List.DropRight

/-!
# Overflow as trimming

What a policy leaves of a list of items does not depend on when the items came: it is the list, trimmed to the
capacity at the end that the policy gives up (`Overflow.trim`). A new item trims the list that it is appended to
(`push_trim`), and an item that is put back trims the list that it is the head of (`restore_trim`).

So the buffer after any number of new items is a trimmed list (`pushAll_of_fits`), and putting the head back is
the same as never having taken it (`restore_pushAll`).
-/

namespace FiberLoop

namespace Overflow

variable {α : Type} {p : Overflow} {buffer : List α}

/-- What a policy leaves of items that come one after another. -/
def trim (p : Overflow) (items : List α) : List α :=
  match p with
  | .unbounded | .bounded _ => items
  | .sliding n => items.rtake n
  | .dropping n => items.take n

/-- Add new items, one after another. -/
def pushAll (p : Overflow) (buffer items : List α) : List α := items.foldl p.push buffer

/-- Whether a buffer respects the capacity. -/
def Fits (p : Overflow) (buffer : List α) : Prop := ∀ n, p.limit? = some n → buffer.length ≤ n

@[simp] theorem pushAll_nil (p : Overflow) (buffer : List α) : p.pushAll buffer [] = buffer := rfl

theorem pushAll_cons (p : Overflow) (buffer : List α) (item : α) (items : List α) :
    p.pushAll buffer (item :: items) = p.pushAll (p.push buffer item) items := rfl

theorem pushAll_append (p : Overflow) (buffer items items' : List α) :
    p.pushAll buffer (items ++ items') = p.pushAll (p.pushAll buffer items) items' := List.foldl_append

@[simp] theorem trim_nil (p : Overflow) : p.trim ([] : List α) = [] := by
  cases p with
  | unbounded | bounded n => rfl
  | sliding n => exact List.rtake_nil n
  | dropping n => exact List.take_nil

theorem fits_nil (p : Overflow) : p.Fits ([] : List α) := fun _ _ => Nat.zero_le _

theorem Fits.push (h : p.Fits buffer) (item : α) : p.Fits (p.push buffer item) :=
  fun n hn => length_push_le hn (h n hn) item

theorem Fits.restore (h : p.Fits buffer) (item : α) : p.Fits (p.restore buffer item) :=
  fun n hn => length_restore_le hn (h n hn) item

theorem Fits.tail {item : α} (h : p.Fits (item :: buffer)) : p.Fits buffer :=
  fun n hn => Nat.le_trans (Nat.le_succ _) (h n hn)

theorem fits_trim (p : Overflow) (items : List α) : p.Fits (p.trim items) := by
  intro n hn
  cases p with
  | unbounded | bounded m => cases hn
  | sliding m =>
    cases hn
    simp only [trim, List.rtake, List.length_drop]
    omega
  | dropping m =>
    cases hn
    exact List.length_take_le ..

/-- A buffer that respects the capacity is left as it is. -/
theorem trim_of_fits (h : p.Fits buffer) : p.trim buffer = buffer := by
  cases p with
  | unbounded | bounded n => rfl
  | sliding n =>
    simp only [trim, List.rtake, Nat.sub_eq_zero_of_le (h n rfl), List.drop_zero]
  | dropping n => exact List.take_of_length_le (h n rfl)

/-- A new item trims the list that it is appended to. -/
theorem push_trim (p : Overflow) (items : List α) (item : α) : p.push (p.trim items) item = p.trim (items ++ [item]) := by
  cases p with
  | unbounded | bounded n => rfl
  | sliding n =>
    cases n with
    | zero => simp only [push, trim, if_true, List.rtake_zero]
    | succ n =>
      -- The oldest item goes exactly when the list has reached the capacity.
      have hlength : (items.rtake (n + 1)).length + 1 - (n + 1) = items.length - n - (items.length - (n + 1)) := by
        simp only [List.rtake, List.length_drop]
        omega
      have hdrop : items.length - (n + 1) + (items.length - n - (items.length - (n + 1))) = items.length - n := by omega
      simp only [push, trim, Nat.add_one_ne_zero, if_false, List.rtake_concat_succ]
      rw [hlength, List.rtake, List.drop_drop, hdrop, List.rtake]
  | dropping n =>
    simp only [push, trim, List.length_take]
    split
    · rename_i hlt
      have hshort : items.length < n := by omega
      rw [List.take_of_length_le (Nat.le_of_lt hshort), List.take_of_length_le]
      rw [List.length_append, List.length_singleton]
      exact hshort
    · rename_i hge
      rw [List.take_append_of_le_length (by omega)]

/-- An item that is put back trims the list that it is the head of. -/
theorem restore_trim (p : Overflow) (items : List α) (item : α) :
    p.restore (p.trim items) item = p.trim (item :: items) := by
  cases p with
  | unbounded | bounded n => rfl
  | sliding n =>
    simp only [restore, trim, List.rtake, List.length_drop, List.length_cons]
    split
    · rename_i hlt
      have hshort : items.length < n := by omega
      rw [Nat.sub_eq_zero_of_le (Nat.le_of_lt hshort), Nat.sub_eq_zero_of_le hshort, List.drop_zero, List.drop_zero]
    · rename_i hge
      rw [Nat.succ_sub (by omega), List.drop_succ_cons]
  | dropping n =>
    cases n with
    | zero => rfl
    | succ n => simp only [restore, trim, List.take_succ_cons, List.take_take, Nat.le_succ, Nat.min_eq_left]

/-- New items trim the list that they are appended to. -/
theorem pushAll_trim (p : Overflow) (items items' : List α) : p.pushAll (p.trim items) items' = p.trim (items ++ items') := by
  induction items' generalizing items with
  | nil => rw [pushAll_nil, List.append_nil]
  | cons item rest ih => rw [pushAll_cons, push_trim, ih, List.append_assoc, List.singleton_append]

/-- The buffer after new items: everything that was there and came since, trimmed. -/
theorem pushAll_of_fits (h : p.Fits buffer) (items : List α) : p.pushAll buffer items = p.trim (buffer ++ items) := by
  rw [← pushAll_trim, trim_of_fits h]

/-- New items in an empty buffer. -/
theorem pushAll_empty (p : Overflow) (items : List α) : p.pushAll [] items = p.trim items :=
  pushAll_of_fits p.fits_nil items

/-- **Putting the head back commutes with new items.** -/
theorem restore_pushAll {item : α} (h : p.Fits (item :: buffer)) (items : List α) :
    p.restore (p.pushAll buffer items) item = p.pushAll (item :: buffer) items := by
  rw [pushAll_of_fits h.tail, restore_trim, pushAll_of_fits h, List.cons_append]

/-- An item put back after new items to an empty buffer, of which it was the first. -/
theorem restore_pushAll_empty (p : Overflow) (item : α) (items : List α) :
    p.restore (p.pushAll [] items) item = p.pushAll [] (item :: items) := by
  rw [pushAll_empty, restore_trim, pushAll_empty]

end Overflow

end FiberLoop
