import FiberLoop.Closures

/-!
# Two fibers side by side

A race keeps the first exit of two fibers; a pairing combines their values, or stops with the first cause. Both
hold the callback of the waiting fiber until they have ended, so nothing that comes later has an effect, and
both ask for the interruption of the fiber that is no longer needed before they complete the callback.
-/

namespace FiberLoop

/-- The place of a side among the two fibers. -/
def Side.index : Side → Nat
  | .left => 0
  | .right => 1

namespace World

def race? (w : World) (r : RaceId) : Option Race := w.stores.races.get? r.index

def modifyRace (r : RaceId) (change : Race → Race) (w : World) : World :=
  { w with stores := { w.stores with races := w.stores.races.modify r.index change } }

def pairing? (w : World) (p : PairingId) : Option Pairing := w.stores.pairings.get? p.index

def modifyPairing (p : PairingId) (change : Pairing → Pairing) (w : World) : World :=
  { w with stores := { w.stores with pairings := w.stores.pairings.modify p.index change } }

/-- Start two fibers as a race; the answer is the two fibers. -/
def startRace (left right : Effect) (callback : Callback) (w : World) : List FiberId × World :=
  let r : RaceId := ⟨w.stores.races.size⟩
  let w := { w with stores := { w.stores with races := w.stores.races.push { callback := some callback } } }
  let (a, w) := w.prepare left (.race r .left) none
  let (b, w) := w.prepare right (.race r .right) none
  let w := w.modifyRace r fun row => { row with fibers := [a, b] }
  ([a, b], (w.start a).start b)

/-- One side of a race has ended. The first to end wins: the other side is interrupted and the exit delivered. -/
def finishRace (r : RaceId) (side : Side) (exit : Exit Value Value) (w : World) : World :=
  match w.race? r with
  | none => w
  | some row =>
    match row.callback with
    | none => w
    | some callback =>
      ((w.modifyRace r fun row => { row with callback := none }).interruptAll
        (row.fibers.eraseIdx side.index)).settle callback exit

/-- Start two fibers as a pairing; the answer is the two fibers. -/
def startPairing (left right : Effect) (f : Combine) (callback : Callback) (w : World) :
    List FiberId × World :=
  let p : PairingId := ⟨w.stores.pairings.size⟩
  let w := { w with stores := { w.stores with
    pairings := w.stores.pairings.push { callback := some callback, combine := f } } }
  let (a, w) := w.prepare left (.parZip p .left) none
  let (b, w) := w.prepare right (.parZip p .right) none
  let w := w.modifyPairing p fun row => { row with fibers := [a, b] }
  ([a, b], (w.start a).start b)

end World

namespace Pairing

/-- The value of a side, if it is there. -/
def value? (row : Pairing) : Side → Option Value
  | .left => row.left
  | .right => row.right

/-- Keep the value of a side. -/
def store (row : Pairing) (side : Side) (v : Value) : Pairing :=
  match side with
  | .left => { row with left := some v }
  | .right => { row with right := some v }

end Pairing

namespace World

/-- Complete a callback with the combination of two values, or with the defect that combining them throws. -/
def deliverCombined (callback : Callback) (f : Combine) (a b : Value) (w : World) : World :=
  match (f.apply a b).caught w with
  | (.ok v, w) => w.settle callback (.value v)
  | (.error d, w) => w.settle callback (.aborted d)

/-- One side of a pairing has ended. The second value completes the pairing; a cause stops it and interrupts the
other side. -/
def finishPairing (p : PairingId) (side : Side) (exit : Exit Value Value) (w : World) : World :=
  match w.pairing? p with
  | none => w
  | some row =>
    match row.callback with
    | none => w
    | some callback =>
      match exit with
      | .value v =>
        match row.value? side.other with
        | none => w.modifyPairing p fun row => row.store side v
        | some v' =>
          let w := w.modifyPairing p fun row => { row with callback := none }
          match side with
          | .left => w.deliverCombined callback row.combine v v'
          | .right => w.deliverCombined callback row.combine v' v
      | .cause c =>
        ((w.modifyPairing p fun row => { row with callback := none }).interruptAll
          (row.fibers[side.other.index]?).toList).settle callback (.cause c)

/-- A race that has ended ignores the later exit. -/
theorem finishRace_of_ended {w : World} {r : RaceId} {row : Race} (h : w.race? r = some row)
    (hc : row.callback = none) (side : Side) (exit : Exit Value Value) : w.finishRace r side exit = w := by
  simp [finishRace, h, hc]

/-- A pairing that has ended ignores the later exit. -/
theorem finishPairing_of_ended {w : World} {p : PairingId} {row : Pairing} (h : w.pairing? p = some row)
    (hc : row.callback = none) (side : Side) (exit : Exit Value Value) :
    w.finishPairing p side exit = w := by
  simp [finishPairing, h, hc]

end World

end FiberLoop
