import FiberLoop.Text.Printable

/-!
# Quoted text

The debug form of a text: double quotes around it, and inside them an escape for the quote, the
backslash, the four named control characters and every character that a reader could not see.

A character has one of three written forms: itself, a backslash and a letter, or `\u` with the
code point in braces. `quoteChar_plain` says when it is written as itself.
-/

namespace FiberLoop.Text

/-- The lower-case hexadecimal digits of a number, without leading zeros. -/
def hexDigits (n : Nat) : String := String.ofList (Nat.toDigits 16 n)

/-- The escape that spells out a code point. -/
def codePointEscape (c : Char) : String :=
  "\\u\x7b" ++ hexDigits c.toNat ++ "\x7d"

/-- The letter that names a control character, a double quote or a backslash after a backslash. -/
def namedEscape? : Char → Option Char
  | '\x00' => some '0'
  | '\t' => some 't'
  | '\n' => some 'n'
  | '\r' => some 'r'
  | '"' => some '"'
  | '\\' => some '\\'
  | _ => none

/-- One character inside double quotes. -/
def quoteChar (c : Char) : String :=
  match namedEscape? c with
  | some letter => String.ofList ['\\', letter]
  | none => if isCombining c || isHidden c then codePointEscape c else String.singleton c

/-- The debug form of a text. -/
def quote (s : String) : String :=
  "\"" ++ String.join (s.toList.map quoteChar) ++ "\""

theorem quoteChar_named {c letter : Char} (h : namedEscape? c = some letter) :
    quoteChar c = String.ofList ['\\', letter] := by
  simp [quoteChar, h]

/-- A character that has no name as an escape and can be seen on its own stands for itself. -/
theorem quoteChar_plain {c : Char} (hname : namedEscape? c = none) (hcombining : isCombining c = false)
    (hhidden : isHidden c = false) : quoteChar c = String.singleton c := by
  simp [quoteChar, hname, hcombining, hhidden]

theorem quote_empty : quote "" = "\"\"" := by decide

end FiberLoop.Text
