import Population.Text.Decimal

/-!
# Points in time

A point in time is a date, or a date and a time of day. Between them stands the letter T, and then
a zone follows; or spaces, and then none does. Only the year needs all its digits.
-/

namespace Population.Yaml

namespace Timestamp

open Text (byte isDigit digitsValue)

/-- Reads a number of one or two digits in a range. -/
def field? (least greatest : Nat) (t : Text) : Option (Nat × Text) :=
  let digits := (t.take 2).takeWhile isDigit
  let n := digitsValue digits
  if digits.isEmpty || n < least || greatest < n then none else some (n, t.drop digits.length)

def mark? (c : Char) : Text → Option Text
  | b :: rest => if b = byte c then some rest else none
  | [] => none

def isLeap (year : Nat) : Bool :=
  year % 4 == 0 && (year % 100 != 0 || year % 400 == 0)

def daysIn (year month : Nat) : Nat :=
  if month = 2 then if isLeap year then 29 else 28
  else if month = 4 ∨ month = 6 ∨ month = 9 ∨ month = 11 then 30
  else 31

/-- Reads a date behind which something may follow. -/
def date? (t : Text) : Option Text := do
  let digits := t.takeWhile isDigit
  guard (digits.length = 4)
  let t ← mark? '-' (t.drop 4)
  let (month, t) ← field? 1 12 t
  let t ← mark? '-' t
  let (_, t) ← field? 1 (daysIn (digitsValue digits) month) t
  return t

def dropFraction : Text → Text
  | b :: d :: rest =>
    if (b = byte '.' ∨ b = byte ',') ∧ isDigit d then rest.dropWhile isDigit else b :: d :: rest
  | t => t

/-- Reads a time of day behind which something may follow. -/
def clock? (t : Text) : Option Text := do
  let (_, t) ← field? 0 23 t
  let (_, t) ← field? 0 59 (← mark? ':' t)
  let (_, t) ← field? 0 59 (← mark? ':' t)
  return dropFraction t

def isUpTo (greatest : Nat) (digits : Text) : Bool :=
  digits.all isDigit && digitsValue digits ≤ greatest

/-- Whether a text is a zone: that of the letter Z, or hours and minutes away from it. -/
def isZone : Text → Bool
  | [z] => z == byte 'Z'
  | [sign, h, h', colon, m, m'] =>
    (sign == byte '+' || sign == byte '-') && colon == byte ':' && isUpTo 24 [h, h'] &&
      isUpTo 60 [m, m']
  | _ => false

/-- Whether a text is what may follow a date. -/
def isDayTime : Text → Bool
  | [] => true
  | b :: rest =>
    if b = byte 'T' ∨ b = byte 't' then (clock? rest).any isZone
    else b == byte ' ' && (clock? (rest.dropWhile (· == byte ' '))).any List.isEmpty

end Timestamp

def isTimestamp (t : Text) : Bool :=
  (Timestamp.date? t).any Timestamp.isDayTime

end Population.Yaml
