import Population.Text.Decimal
import Population.Text.Quoted

/-!
# Numbers as arguments

Numbers given on the command line, in the environment or in a settings file. A number may be asked
for in decimal, or in the base that its beginning names: `0x`, `0o`, `0b`, or a leading zero for
octal; in the latter case underscores may separate digits.
-/

namespace Population.Text

def NumberFault.reason : NumberFault → Text
  | malformed => "invalid syntax"
  | outOfRange => "value out of range"

namespace Radix

/-- The value of a letter or digit. -/
def digit (b : UInt8) : Option Nat :=
  if isDigit b then some (b.toNat - 48)
  else
    let c := lowerByte b
    if byte 'a' ≤ c ∧ c ≤ byte 'z' then some (c.toNat - 87) else none

/-- Reads digits of a base up to a limit; of two faults the first in the text counts. -/
def readDigits (base limit : Nat) : (value : Nat) → Text → Except NumberFault Nat
  | value, [] => .ok value
  | value, b :: rest =>
    match digit b with
    | none => .error .malformed
    | some d =>
      if base ≤ d then .error .malformed
      else if limit ≤ value * base + d then .error .outOfRange
      else readDigits base limit (value * base + d) rest

/-- The base that the beginning of a number names, and the digits behind it. -/
def cutBase (t : Text) : Nat × Text :=
  match t with
  | zero :: mark :: rest =>
    if zero ≠ byte '0' then (10, t)
    else if rest.isEmpty then (8, mark :: rest)
    else if lowerByte mark = byte 'b' then (2, rest)
    else if lowerByte mark = byte 'o' then (8, rest)
    else if lowerByte mark = byte 'x' then (16, rest)
    else (8, mark :: rest)
  | _ => (10, t)

/-- Whether every underscore of a run stands between digits; `after` tells whether a digit or the
base stands before the run. -/
def separated (after : Bool) : Text → Bool
  | [] => true
  | b :: rest =>
    if b = byte '_' then
      after && !rest.isEmpty && rest.head? != some (byte '_') && separated false rest
    else separated true rest

/-- Reads a number without a sign in the base that its beginning names. -/
def readMagnitude (limit : Nat) (t : Text) : Except NumberFault Nat := do
  if t.isEmpty then throw .malformed
  let (base, digits) := cutBase t
  let n ← readDigits base limit 0 (digits.filter (· ≠ byte '_'))
  if separated (base ≠ 10) digits then return n else throw .malformed

/-- Reads a decimal without a sign, of at most the given number of bits. -/
def readUnsigned (bits : Nat) (t : Text) : Except NumberFault Nat :=
  if t.isEmpty then .error .malformed else readDigits 10 (Nat.pow 2 bits) 0 t

/-- Gives a sign to a magnitude that was read. -/
def withSign (bits : Nat) (read : Nat → Text → Except NumberFault Nat) (t : Text) :
    Except NumberFault Int := do
  let (negative, rest) := cutSign t
  signed bits negative (← read (Nat.pow 2 bits) rest)

/-- Reads a signed decimal of the given width; of two faults the first in the text counts. -/
def readDecimal (bits : Nat) (t : Text) : Except NumberFault Int :=
  withSign bits (fun limit t => if t.isEmpty then .error .malformed else readDigits 10 limit 0 t) t

/-- Reads a signed 64-bit number in the base that its beginning names. -/
def readInteger (t : Text) : Except NumberFault Int :=
  withSign 64 readMagnitude t

def readNatural (t : Text) : Except NumberFault Nat :=
  readMagnitude 0x10000000000000000 t

def readBool (t : Text) : Except NumberFault Bool :=
  if ["1", "t", "T", "TRUE", "true", "True"].any fun (s : String) => ofString s == t then .ok true
  else if ["0", "f", "F", "FALSE", "false", "False"].any fun (s : String) => ofString s == t then
    .ok false
  else .error .malformed

def complaint (reader : Text) (t : Text) (f : NumberFault) : Text :=
  cat ["strconv.", reader, ": parsing ", t.quote, ": ", f.reason]

end Radix

end Population.Text
