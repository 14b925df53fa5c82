/-!
# Growing tables

A table hands out a fresh index for each row that is added and never removes a row. Its view is the partial
function `get?` from indices to rows; `get?_push` and `get?_modify` say what the two operations do to it.
-/

namespace FiberLoop

/-- Rows numbered from zero. -/
structure Table (α : Type) where
  rows : Array α := #[]

namespace Table

variable {α : Type}

/-- The row at an index. -/
def get? (t : Table α) (i : Nat) : Option α := t.rows[i]?

/-- The index that the next row will get. -/
def size (t : Table α) : Nat := t.rows.size

/-- Add a row at index `size`. -/
def push (t : Table α) (row : α) : Table α := ⟨t.rows.push row⟩

/-- Change the row at an index, if there is one. -/
def modify (t : Table α) (i : Nat) (f : α → α) : Table α := ⟨t.rows.modify i f⟩

/-- Replace the row at an index, if there is one. -/
def set (t : Table α) (i : Nat) (row : α) : Table α := ⟨t.rows.setIfInBounds i row⟩

instance : Inhabited (Table α) := ⟨{}⟩

@[simp] theorem size_push (t : Table α) (row : α) : (t.push row).size = t.size + 1 := by
  simp [size, push]

@[simp] theorem size_modify (t : Table α) (i : Nat) (f : α → α) : (t.modify i f).size = t.size := by
  simp [size, modify]

@[simp] theorem size_set (t : Table α) (i : Nat) (row : α) : (t.set i row).size = t.size := by
  simp [size, set]

theorem get?_push (t : Table α) (row : α) (i : Nat) :
    (t.push row).get? i = if i = t.size then some row else t.get? i := by
  simp only [get?, push, size]
  exact Array.getElem?_push ..

theorem get?_modify (t : Table α) (i : Nat) (f : α → α) (j : Nat) :
    (t.modify i f).get? j = if i = j then (t.get? j).map f else t.get? j := by
  simp [get?, modify, Array.getElem?_modify]

theorem get?_set (t : Table α) (i : Nat) (row : α) (j : Nat) :
    (t.set i row).get? j = if i = j then (t.get? j).map fun _ => row else t.get? j := by
  simp only [get?, set, Array.getElem?_setIfInBounds]
  split
  · split <;> simp_all
  · rfl

/-- Tables with the same rows are the same. -/
theorem ext_get? {t u : Table α} (h : ∀ i, t.get? i = u.get? i) : t = u := by
  obtain ⟨rows⟩ := t
  obtain ⟨rows'⟩ := u
  exact congrArg _ (Array.ext_getElem? h)

/-- A change that leaves the row as it is. -/
theorem modify_eq_self {t : Table α} {i : Nat} {f : α → α} (h : ∀ a, t.get? i = some a → f a = a) :
    t.modify i f = t := by
  refine ext_get? fun k => ?_
  rw [get?_modify]
  split
  · rename_i hk
    subst hk
    cases hrow : t.get? i with
    | none => rfl
    | some a => rw [Option.map_some, h a hrow]
  · rfl

/-! ## What holds of all rows -/

section Rows

variable {t : Table α} {P : Nat → α → Prop}

theorem forall_push {row : α} (h : ∀ i a, t.get? i = some a → P i a) (hrow : P t.size row) :
    ∀ i a, (t.push row).get? i = some a → P i a := by
  intro i a ha
  rw [get?_push] at ha
  split at ha
  · rename_i hi
    cases ha
    exact hi ▸ hrow
  · exact h i a ha

theorem forall_modify {i : Nat} {f : α → α} (h : ∀ j a, t.get? j = some a → P j a) (hf : ∀ a, P i a → P i (f a)) :
    ∀ j a, (t.modify i f).get? j = some a → P j a := by
  intro j a ha
  rw [get?_modify] at ha
  split at ha
  · rename_i hij
    subst hij
    obtain ⟨b, hb, rfl⟩ := Option.map_eq_some_iff.1 ha
    exact hf b (h i b hb)
  · exact h j a ha

theorem forall_set {i : Nat} {row : α} (h : ∀ j a, t.get? j = some a → P j a) (hrow : P i row) :
    ∀ j a, (t.set i row).get? j = some a → P j a := by
  intro j a ha
  rw [get?_set] at ha
  split at ha
  · rename_i hij
    subst hij
    obtain ⟨b, -, rfl⟩ := Option.map_eq_some_iff.1 ha
    exact hrow
  · exact h j a ha

end Rows

/-- Two changes of one row, one after the other. -/
theorem modify_modify (t : Table α) (i : Nat) (f g : α → α) :
    (t.modify i f).modify i g = t.modify i fun a => g (f a) := by
  refine ext_get? fun k => ?_
  simp only [get?_modify]
  split
  · exact Option.map_map ..
  · rfl

/-- Two changes of rows can change places if they can where they meet. -/
theorem modify_modify_comm (t : Table α) {i j : Nat} {f g : α → α} (h : i = j → ∀ a, f (g a) = g (f a)) :
    (t.modify i f).modify j g = (t.modify j g).modify i f := by
  refine ext_get? fun k => ?_
  simp only [get?_modify]
  by_cases hi : i = k
  · by_cases hj : j = k
    · simp only [hi, hj, if_true, Option.map_map]
      exact congrArg (Option.map · (t.get? k)) (funext fun a => (h (hi.trans hj.symm) a).symm)
    · simp only [hi, hj, if_true, if_false]
  · simp only [hi, if_false]

/-- A new row does not stand in the way of a change of another one. -/
theorem push_modify {t : Table α} {i : Nat} (h : i < t.size) (f : α → α) (row : α) :
    (t.modify i f).push row = (t.push row).modify i f := by
  refine ext_get? fun k => ?_
  simp only [get?_push, get?_modify, size_modify]
  by_cases hk : k = t.size
  · have hik : i ≠ k := by omega
    simp only [hk, if_true, hk ▸ hik, if_false]
  · simp only [hk, if_false]

/-- An index below the size has a row, and no other has. -/
theorem isSome_get?_iff (t : Table α) (i : Nat) : (t.get? i).isSome = true ↔ i < t.size := by
  simp [get?, size]

end Table

end FiberLoop
