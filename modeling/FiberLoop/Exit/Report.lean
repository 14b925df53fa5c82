import FiberLoop.Exit
import FiberLoop.Word

/-!
# Reports on exits and defects

Everything that can be told about an exit whose errors are texts and whose values are signed 64-bit numbers, and
about a defect: its debug forms, what its observers say, and what comes out of transforming either side.
-/

namespace FiberLoop

/-- What can be told about a defect. -/
structure DefectReport where
  message : Option String
  display : String
  debug : String
  number : Option Int
  isText : Bool
  /-- Whether the defect agrees with a copy of itself. -/
  agreesWithCopy : Bool
deriving DecidableEq, Repr

def Defect.report (d : Defect) : DefectReport where
  message := d.message?
  display := d.display
  debug := d.debug
  number := d.number?
  isText := d.isText
  agreesWithCopy := d.agrees d

/-- What can be told about a cause. -/
structure CauseReport where
  failed : Bool
  aborted : Bool
  interrupted : Bool
  failure : Option String
  display : String
  debug : String
  /-- The debug form after errors were replaced by their size in bytes plus an offset. -/
  mapError : String
  /-- Whether the exit by this cause is the exit it was taken from. -/
  backEqual : Bool
deriving DecidableEq, Repr

/-- What can be told about an exit. -/
structure ExitReport where
  debug : String
  isValue : Bool
  isInterrupted : Bool
  value : Option Int
  cause : Option CauseReport
  /-- The debug form after values were multiplied by a factor. -/
  map : String
  /-- The debug form after a number was written behind errors. -/
  mapError : String
  fold : String
  getOr : Int
  /-- The debug form of the result that keeps the cause as its error. -/
  result : String
  /-- Whether the exit equals another one. -/
  equal : Option Bool
deriving DecidableEq, Repr

namespace Exit

/-- The debug form of an exit with texts and numbers. -/
def debugText (x : Exit String Int) : String := x.debug Text.quote toString

/-- The report on a cause and the exit it was taken from. -/
def causeReport (x : Exit String Int) (offset : Int) (c : Cause String) : CauseReport where
  failed := c.isFailed
  aborted := c.isAborted
  interrupted := c.isInterrupted
  failure := c.failure?
  display := c.display Text.quote
  debug := c.debug Text.quote
  mapError := (c.mapError fun s => wrapWord (s.utf8ByteSize + offset)).debug toString
  backEqual := (Exit.cause c : Exit String Int) == x

/-- The report on an exit; `k` is the factor, the offset and the number written behind errors. -/
def report (x : Exit String Int) (default k : Int) (other : Option (Exit String Int)) : ExitReport where
  debug := x.debugText
  isValue := x.isValue
  isInterrupted := x.isInterrupted
  value := x.value?
  cause := x.cause?.map (x.causeReport k)
  map := (x.map fun n => wrapWord (n * k)).debugText
  mapError := (x.mapError fun s => s ++ toString k).debugText
  fold := x.fold (fun n => "v" ++ toString n) fun c => "c:" ++ c.display Text.quote
  getOr := x.getOr default
  result :=
    match x.toExcept with
    | .ok n => "Ok(" ++ toString n ++ ")"
    | .error c => "Err(" ++ c.debug Text.quote ++ ")"
  equal := other.map (x == ·)

end Exit

end FiberLoop
