import FiberLoop.Proofs.Parallel.Joints

/-!
# How the rows of races and pairings change

A race or a pairing starts with a new row, which holds the callback of the fiber that waits, and with two new fibers
(`World.Starts`). It ends when it gives the callback up (`World.Ends`). All other rows stay as they are.

The first of the two fibers to end ends a race (`World.finishRace_of_open`). A pairing keeps the first value and ends
with the second one, or with the first cause (`World.finishPairing_of_first`, `World.finishPairing_of_second`,
`World.finishPairing_of_cause`).
-/

namespace FiberLoop

/-- The values of the left and of the right fiber, given that of a side and that of the other one. -/
def Side.pick {α : Type} : Side → α → α → α × α
  | .left, own, other => (own, other)
  | .right, own, other => (other, own)

namespace World

/-- A race or a pairing has the same row in two worlds. -/
def SameRow (j : Joint) (w w' : World) : Prop :=
  match j with
  | .race r => w'.race? r = w.race? r
  | .pairing p => w'.pairing? p = w.pairing? p

/-- A race or a pairing is started: it gets a new row, which holds the callback, and two new fibers. -/
structure Starts (j : Joint) (callback : Callback) (left right : Effect) (w w' : World) : Prop where
  fresh : w.sides j = []
  holder : w'.holder? j = some callback
  sides : w'.sides j = [⟨w.fibers.size⟩, ⟨w.fibers.size + 1⟩]
  rows : ∀ i, i ≠ j → w.SameRow i w'
  launched : ∃ races pairings, w' =
    { ((w.launch left (j.hook .left) none).2.launch right (j.hook .right) none).2 with
      stores := { w.stores with races := races, pairings := pairings } }

/-- A race or a pairing gives its callback up. -/
structure Ends (j : Joint) (w w' : World) : Prop where
  holder : w'.holder? j = none
  sides : w'.sides j = w.sides j
  rows : ∀ i, i ≠ j → w.SameRow i w'
  stores : ∃ races pairings, w' = { w with stores := { w.stores with races := races, pairings := pairings } }

section Rows

variable {i j : Joint} {callback : Callback} {left right : Effect} {w w' : World} {reserved : Callback → Prop}
  {r r' : RaceId} {p p' : PairingId}

/-! ## The same row -/

namespace SameRow

theorem refl (j : Joint) (w : World) : w.SameRow j w := by
  cases j with
  | race r => rfl
  | pairing p => rfl

theorem of_tables (hraces : w'.stores.races = w.stores.races) (hpairings : w'.stores.pairings = w.stores.pairings)
    (j : Joint) : w.SameRow j w' := by
  cases j with
  | race r => exact congrArg (Table.get? · r.index) hraces
  | pairing p => exact congrArg (Table.get? · p.index) hpairings

theorem trans {u v : World} (h : u.SameRow j v) (h' : v.SameRow j w) : u.SameRow j w := by
  cases j with
  | race r => exact Eq.trans h' h
  | pairing p => exact Eq.trans h' h

theorem holder? (h : w.SameRow j w') : w'.holder? j = w.holder? j := by
  cases j with
  | race r => exact congrArg (Option.bind · _) h
  | pairing p => exact congrArg (Option.bind · _) h

theorem sides (h : w.SameRow j w') : w'.sides j = w.sides j := by
  cases j with
  | race r => exact congrArg (Option.elim · _ _) h
  | pairing p => exact congrArg (Option.elim · _ _) h

end SameRow

theorem race?_modifyRace (w : World) (r r' : RaceId) (change : Race → Race) :
    (w.modifyRace r change).race? r' = if r' = r then (w.race? r').map change else w.race? r' := by
  have hmodify := Table.get?_modify w.stores.races r.index change r'.index
  by_cases hr : r' = r
  · rw [if_pos hr]
    rwa [if_pos (congrArg RaceId.index hr).symm] at hmodify
  · rw [if_neg hr]
    rwa [if_neg fun he => hr (congrArg RaceId.mk he).symm] at hmodify

theorem pairing?_modifyPairing (w : World) (p p' : PairingId) (change : Pairing → Pairing) :
    (w.modifyPairing p change).pairing? p' = if p' = p then (w.pairing? p').map change else w.pairing? p' := by
  have hmodify := Table.get?_modify w.stores.pairings p.index change p'.index
  by_cases hp : p' = p
  · rw [if_pos hp]
    rwa [if_pos (congrArg PairingId.index hp).symm] at hmodify
  · rw [if_neg hp]
    rwa [if_neg fun he => hp (congrArg PairingId.mk he).symm] at hmodify

theorem sameRow_modifyRace (hi : i ≠ .race r) (w : World) (change : Race → Race) : w.SameRow i (w.modifyRace r change) := by
  cases i with
  | race r' => exact (race?_modifyRace w r r' change).trans (if_neg fun he => hi (congrArg Joint.race he))
  | pairing p => rfl

theorem sameRow_modifyPairing (hi : i ≠ .pairing p) (w : World) (change : Pairing → Pairing) :
    w.SameRow i (w.modifyPairing p change) := by
  cases i with
  | race r => rfl
  | pairing p' => exact (pairing?_modifyPairing w p p' change).trans (if_neg fun he => hi (congrArg Joint.pairing he))

theorem sides_modifyPairing (w : World) (p : PairingId) {change : Pairing → Pairing}
    (hchange : ∀ row, (change row).fibers = row.fibers) : (w.modifyPairing p change).sides (.pairing p) = w.sides (.pairing p) := by
  rw [World.sides, World.sides, pairing?_modifyPairing, if_pos rfl]
  cases w.pairing? p with
  | none => rfl
  | some row => exact hchange row

/-! ## Starts -/

theorem startRace_fst (left right : Effect) (callback : Callback) (w : World) :
    (w.startRace left right callback).1 = [⟨w.fibers.size⟩, ⟨w.fibers.size + 1⟩] := by
  simp [startRace, prepare]

theorem startPairing_fst (left right : Effect) (f : Combine) (callback : Callback) (w : World) :
    (w.startPairing left right f callback).1 = [⟨w.fibers.size⟩, ⟨w.fibers.size + 1⟩] := by
  simp [startPairing, prepare]

/-- The row of a race that was started. -/
theorem race?_startRace (left right : Effect) (callback : Callback) (w : World) (r : RaceId) :
    (w.startRace left right callback).2.race? r = if r = ⟨w.stores.races.size⟩ then
      some { callback := some callback, fibers := [⟨w.fibers.size⟩, ⟨w.fibers.size + 1⟩] } else w.race? r := by
  have hfibers := startRace_fst left right callback w
  show ((w.stores.races.push _).modify w.stores.races.size _).get? r.index = _
  rw [Table.get?_modify, Table.get?_push]
  by_cases hr : r = ⟨w.stores.races.size⟩
  · subst hr
    rw [if_pos rfl, if_pos rfl, if_pos rfl, Option.map_some]
    exact congrArg (fun fibers => some { callback := some callback, fibers := fibers : Race }) hfibers
  · have hindex : r.index ≠ w.stores.races.size := fun he => hr (congrArg RaceId.mk he)
    rw [if_neg (Ne.symm hindex), if_neg hindex, if_neg hr]
    rfl

/-- The row of a pairing that was started. -/
theorem pairing?_startPairing (left right : Effect) (f : Combine) (callback : Callback) (w : World) (p : PairingId) :
    (w.startPairing left right f callback).2.pairing? p = if p = ⟨w.stores.pairings.size⟩ then
      some { callback := some callback, fibers := [⟨w.fibers.size⟩, ⟨w.fibers.size + 1⟩], combine := f }
      else w.pairing? p := by
  have hfibers := startPairing_fst left right f callback w
  show ((w.stores.pairings.push _).modify w.stores.pairings.size _).get? p.index = _
  rw [Table.get?_modify, Table.get?_push]
  by_cases hp : p = ⟨w.stores.pairings.size⟩
  · subst hp
    rw [if_pos rfl, if_pos rfl, if_pos rfl, Option.map_some]
    exact congrArg (fun fibers => some { callback := some callback, fibers := fibers, combine := f : Pairing }) hfibers
  · have hindex : p.index ≠ w.stores.pairings.size := fun he => hp (congrArg PairingId.mk he)
    rw [if_neg (Ne.symm hindex), if_neg hindex, if_neg hp]
    rfl

theorem race?_size (w : World) : w.race? ⟨w.stores.races.size⟩ = none := by
  rw [race?, ← Option.not_isSome_iff_eq_none, Table.isSome_get?_iff]
  exact Nat.lt_irrefl _

theorem pairing?_size (w : World) : w.pairing? ⟨w.stores.pairings.size⟩ = none := by
  rw [pairing?, ← Option.not_isSome_iff_eq_none, Table.isSome_get?_iff]
  exact Nat.lt_irrefl _

theorem starts_startRace (left right : Effect) (callback : Callback) (w : World) :
    w.Starts (.race ⟨w.stores.races.size⟩) callback left right (w.startRace left right callback).2 where
  fresh := by rw [World.sides, race?_size, Option.elim_none]
  holder := by rw [World.holder?, race?_startRace, if_pos rfl, Option.bind_some]
  sides := by rw [World.sides, race?_startRace, if_pos rfl, Option.elim_some]
  rows i hi := by
    cases i with
    | race r => exact (race?_startRace left right callback w r).trans (if_neg fun he => hi (congrArg Joint.race he))
    | pairing p => rfl
  launched := ⟨_, _, rfl⟩

theorem starts_startPairing (left right : Effect) (f : Combine) (callback : Callback) (w : World) :
    w.Starts (.pairing ⟨w.stores.pairings.size⟩) callback left right (w.startPairing left right f callback).2 where
  fresh := by rw [World.sides, pairing?_size, Option.elim_none]
  holder := by rw [World.holder?, pairing?_startPairing, if_pos rfl, Option.bind_some]
  sides := by rw [World.sides, pairing?_startPairing, if_pos rfl, Option.elim_some]
  rows i hi := by
    cases i with
    | race r => rfl
    | pairing p =>
      exact (pairing?_startPairing left right f callback w p).trans (if_neg fun he => hi (congrArg Joint.pairing he))
  launched := ⟨_, _, rfl⟩

/-- The closure of a registration that starts a race or a pairing does that and nothing else. -/
theorem run_of_isJoint {registration : Registration} (h : registration.isJoint = true) (callback : Callback) (w : World) :
    ∃ j left right w', w.Starts j callback left right w' ∧ (registration.run callback).caught w =
      (.ok (.interrupt [⟨w.fibers.size⟩, ⟨w.fibers.size + 1⟩]), w') := by
  cases registration with
  | race left right =>
    refine ⟨_, left, right, _, starts_startRace left right callback w, ?_⟩
    rw [← startRace_fst left right callback w]
    rfl
  | parZip left right f =>
    refine ⟨_, left, right, _, starts_startPairing left right f callback w, ?_⟩
    rw [← startPairing_fst left right f callback w]
    rfl
  | _ => cases h

namespace Starts

variable (h : w.Starts j callback left right w')

include h

/-- There are two new fibers, which have the hooks of the two sides, and the others are as they were. -/
theorem fiber? (g : FiberId) : w'.fiber? g =
    if g = ⟨w.fibers.size + 1⟩ then
      some { home := w.here, phase := .created right, hook := some (j.hook .right), notice := none }
    else if g = ⟨w.fibers.size⟩ then
      some { home := w.here, phase := .created left, hook := some (j.hook .left), notice := none }
    else w.fiber? g := by
  obtain ⟨races, pairings, he⟩ := h.launched
  have hsize : (w.launch left (j.hook .left) none).2.fibers.size = w.fibers.size + 1 := Table.size_push _ _
  have hright := fiber?_launch (w.launch left (j.hook .left) none).2 right (j.hook .right) none g
  rw [hsize, fiber?_launch w left (j.hook .left) none g] at hright
  rw [he]
  exact hright

theorem hook? (g : FiberId) : w'.hook? g =
    if g = ⟨w.fibers.size + 1⟩ then some (j.hook .right)
    else if g = ⟨w.fibers.size⟩ then some (j.hook .left) else w.hook? g := by
  rw [World.hook?, h.fiber? g]
  split
  · rfl
  · split <;> rfl

/-- The two fibers are started in order. -/
theorem inbox : w'.loop.inbox =
    w.loop.inbox ++ [.task (.start ⟨w.fibers.size⟩), .task (.start ⟨w.fibers.size + 1⟩)] := by
  obtain ⟨races, pairings, he⟩ := h.launched
  have hsize : (w.launch left (j.hook .left) none).2.fibers.size = w.fibers.size + 1 := Table.size_push _ _
  rw [he, ← hsize]
  exact List.append_assoc ..

theorem holds {callback' : Callback} (hholds : w.Holds callback') : w'.Holds callback' := by
  obtain ⟨races, pairings, he⟩ := h.launched
  rw [he]
  exact (hholds.launch left _ none).launch right _ none

theorem parked {callback' : Callback} {run : Run} {canceler : Canceler} (hparked : w.Parked callback' run canceler) :
    w'.Parked callback' run canceler := by
  obtain ⟨races, pairings, he⟩ := h.launched
  rw [he]
  exact (hparked.launch left _ none).launch right _ none

theorem epoch_le (g : FiberId) : w.epoch g ≤ w'.epoch g := by
  obtain ⟨races, pairings, he⟩ := h.launched
  have hlater := (Later.launch w left (j.hook .left) none).trans (.launch _ right (j.hook .right) none)
  rw [he]
  exact hlater.epoch_le g

theorem confined (hw : w.Confined (.reserving reserved)) : w'.Confined (.reserving reserved) := by
  obtain ⟨races, pairings, he⟩ := h.launched
  have hnotice (side : Side) : (j.hook side).notice = none := by cases j <;> rfl
  have heffect (e : Effect) : e.In (.reserving reserved) := fun _ _ => trivial
  have hboth := (hw.stays_launchBoth (heffect left) (heffect right)
    (j.hook .left) (j.hook .right) (hnotice _) (hnotice _)).confined
  rw [he]
  exact hboth.withStores ⟨hw.stores.cells, hw.stores.deferreds, hw.stores.queues, fun _ _ _ => False.elim,
    fun _ _ _ => False.elim, fun _ _ => trivial⟩

end Starts

/-! ## Ends -/

theorem ends_modifyRace (w : World) (r : RaceId) :
    w.Ends (.race r) (w.modifyRace r fun row => { row with callback := none }) where
  holder := by
    rw [World.holder?, race?_modifyRace, if_pos rfl]
    cases w.race? r <;> rfl
  sides := by
    rw [World.sides, World.sides, race?_modifyRace, if_pos rfl]
    cases w.race? r <;> rfl
  rows _ hi := sameRow_modifyRace hi w _
  stores := ⟨_, _, rfl⟩

theorem ends_modifyPairing (w : World) (p : PairingId) :
    w.Ends (.pairing p) (w.modifyPairing p fun row => { row with callback := none }) where
  holder := by
    rw [World.holder?, pairing?_modifyPairing, if_pos rfl]
    cases w.pairing? p <;> rfl
  sides := sides_modifyPairing w p fun _ => rfl
  rows _ hi := sameRow_modifyPairing hi w _
  stores := ⟨_, _, rfl⟩

/-- The first of the two fibers ends the race. -/
theorem finishRace_of_open {row : Race} (h : w.race? r = some row) (hcallback : row.callback = some callback)
    (side : Side) (x : Exit Value Value) : w.finishRace r side x =
      ((w.modifyRace r fun row => { row with callback := none }).interruptAll (row.fibers.eraseIdx side.index)).settle
        callback x := by
  rw [finishRace, h]
  dsimp only
  rw [hcallback]

section Pairings

variable {row : Pairing} (h : w.pairing? p = some row) (hcallback : row.callback = some callback) (side : Side)

include h hcallback

/-- The first cause ends a pairing. -/
theorem finishPairing_of_cause (c : Cause Value) : w.finishPairing p side (.cause c) =
    ((w.modifyPairing p fun row => { row with callback := none }).interruptAll
      (row.fibers[side.other.index]?).toList).settle callback (.cause c) := by
  rw [finishPairing, h]
  dsimp only
  rw [hcallback]

/-- The first value is kept. -/
theorem finishPairing_of_first (hother : row.value? side.other = none) (v : Value) :
    w.finishPairing p side (.value v) = w.modifyPairing p fun row => row.store side v := by
  rw [finishPairing, h]
  dsimp only
  rw [hcallback]
  dsimp only
  rw [hother]

/-- The second value ends a pairing: the two are combined, the one of the left fiber first. -/
theorem finishPairing_of_second {v' : Value} (hother : row.value? side.other = some v') (v : Value) :
    w.finishPairing p side (.value v) = (w.modifyPairing p fun row => { row with callback := none }).deliverCombined
      callback row.combine (side.pick v v').1 (side.pick v v').2 := by
  rw [finishPairing, h]
  dsimp only
  rw [hcallback]
  dsimp only
  rw [hother]
  cases side <;> rfl

end Pairings

/-- A value that is kept gives no callback up. -/
theorem holder?_store (w : World) (p : PairingId) (side : Side) (v : Value) :
    (w.modifyPairing p fun row => row.store side v).holder? (.pairing p) = w.holder? (.pairing p) := by
  rw [World.holder?, pairing?_modifyPairing, if_pos rfl, World.holder?]
  cases w.pairing? p with
  | none => rfl
  | some row => cases side <;> rfl

end Rows

end World

end FiberLoop
