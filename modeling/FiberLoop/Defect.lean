import FiberLoop.Text.Quoted

/-!
# Defects

What an effect leaves behind when it goes wrong unexpectedly: usually a message, sometimes a payload
that nothing can be read from.

Two defects agree if their messages do; a payload without a message agrees only with itself, so each
such payload carries the serial number it was made under. `Defect.agrees_self` and
`Defect.agrees_comm` say that agreement is reflexive and symmetric.
-/

namespace FiberLoop

/-- The reason carried by an abort. -/
inductive Defect where
  /-- A message composed while running. -/
  | text (message : String)
  /-- A message fixed beforehand. -/
  | literal (message : String)
  /-- A number wrapped without a message, made under the given serial number. -/
  | sealed (payload : Int) (serial : Nat)
deriving Repr, Inhabited

/-- What a closure can throw: a text, or a number that is not meant to be read. -/
inductive Payload where
  | text (message : String)
  | number (value : Int)
deriving DecidableEq, Repr

namespace Defect

/-- The message, if the payload is a text. -/
def message? : Defect → Option String
  | .text m => some m
  | .literal m => some m
  | .sealed _ _ => none

/-- The wrapped number, if there is one. -/
def number? : Defect → Option Int
  | .sealed n _ => some n
  | _ => none

/-- Whether the payload is a text composed while running. -/
def isText : Defect → Bool
  | .text _ => true
  | _ => false

/-- The defect of a thrown payload: a text keeps its message, anything else loses it. -/
def ofPayload : Payload → Defect
  | .text m => .text m
  | .number _ => .literal "unknown panic"

/-- One line for a reader. -/
def display (d : Defect) : String := d.message?.getD "<opaque defect>"

/-- The debug form. -/
def debug (d : Defect) : String :=
  match d.message? with
  | some m => "Defect(" ++ Text.quote m ++ ")"
  | none => "Defect(<opaque>)"

/-- Same message, or the very same payload. -/
def agrees : Defect → Defect → Bool
  | .sealed _ serial, .sealed _ serial' => serial == serial'
  | a, b =>
    match a.message?, b.message? with
    | some m, some n => m == n
    | _, _ => false

instance : BEq Defect := ⟨agrees⟩

theorem agrees_self (d : Defect) : d.agrees d = true := by
  cases d <;> simp [agrees, message?]

theorem agrees_comm (a b : Defect) : a.agrees b = b.agrees a := by
  cases a <;> cases b <;> simp [agrees, message?, Bool.beq_comm]

/-- A text and a fixed message agree exactly if they read the same. -/
theorem text_agrees_literal (m n : String) :
    (Defect.text m).agrees (.literal n) = true ↔ m = n := by
  simp [agrees, message?]

theorem message?_ofPayload_isSome (p : Payload) : (ofPayload p).message?.isSome = true := by
  cases p <;> rfl

end Defect

end FiberLoop
