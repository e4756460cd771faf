import Population.Text.Basic

/-!
# Decimal numbers

Counters, weights and bounds are 64-bit signed integers, written in decimal with a leading minus
sign for negative values. Reading accepts an optional sign and at least one ASCII digit, and fails
on anything else and on values outside 64 bits.
-/

namespace Population.Text

def ofNat (n : Nat) : Text :=
  (Nat.toDigits 10 n).map byte

def ofInt : Int → Text
  | .ofNat n => ofNat n
  | .negSucc n => byte '-' :: ofNat (n + 1)

def ofInt64 (n : Int64) : Text :=
  ofInt n.toInt

def isDigit (b : UInt8) : Bool :=
  byte '0' ≤ b && b ≤ byte '9'

def digitsValue (t : Text) : Nat :=
  t.foldl (fun n b => 10 * n + (b.toNat - 48)) 0

/-- Why a decimal cannot be read. -/
inductive NumberFault where
  /-- The text is not an optional sign followed by digits. -/
  | malformed
  | outOfRange
  deriving DecidableEq

/-- Splits an optional sign from a number; the flag tells a minus sign. -/
def cutSign : Text → Bool × Text
  | [] => (false, [])
  | b :: rest =>
    if b = byte '+' then (false, rest)
    else if b = byte '-' then (true, rest)
    else (false, b :: rest)

/-- The value with the given sign when it fits in `bits` bits, two's complement. -/
def signed (bits : Nat) (negative : Bool) (magnitude : Nat) : Except NumberFault Int :=
  if negative then
    if magnitude ≤ Nat.pow 2 (bits - 1) then .ok (-(magnitude : Int)) else .error .outOfRange
  else if magnitude < Nat.pow 2 (bits - 1) then .ok magnitude else .error .outOfRange

/-- Reads a signed decimal of the given width. -/
def readSigned (bits : Nat) (t : Text) : Except NumberFault Int :=
  let (negative, digits) := cutSign t
  if digits.isEmpty || !digits.all isDigit then .error .malformed
  else signed bits negative (digitsValue digits)

def readInt64 (t : Text) : Except NumberFault Int64 :=
  (readSigned 64 t).map Int64.ofInt

/-- Reads a 64-bit decimal, without telling why it cannot. -/
def toInt64? (t : Text) : Option Int64 :=
  match readInt64 t with
  | .ok n => some n
  | .error _ => none

end Population.Text
