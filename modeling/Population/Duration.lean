import Population.Text.Decimal
import Population.Text.Quoted

/-!
# Durations

A duration is a 64-bit number of nanoseconds. It is written with the largest fitting units, such as
`1h0m0s`, `1.5s` or `250ms`, and read from a sequence of numbers with units.
-/

namespace Population

open Text (byte)

/-- A number of nanoseconds. -/
abbrev Duration := Int64

namespace Duration

def microsecond : Nat := 1000

def millisecond : Nat := 1000 * microsecond

def second : Nat := 1000 * millisecond

/-- The magnitude of the least duration, one more than that of the greatest. -/
def bound : Nat := 0x8000000000000000

def dropZeros (digits : Text) : Text :=
  (digits.reverse.dropWhile (· == byte '0')).reverse

/-- The last `places` decimal digits of a number. -/
def lastDigits (places n : Nat) : Text :=
  let digits := Text.ofNat (n % Nat.pow 10 places)
  List.replicate (places - digits.length) (byte '0') ++ digits

/-- A number divided by ten to the `places`, without zeros at the end. -/
def scaled (places n : Nat) : Text :=
  let fraction := dropZeros (lastDigits places n)
  Text.ofNat (n / Nat.pow 10 places) ++ if fraction.isEmpty then [] else byte '.' :: fraction

/-- A number of nanoseconds from a second on: hours, minutes and seconds. -/
def clockText (n : Nat) : Text :=
  let seconds := n / second
  let hours := seconds / 3600
  let minutes := seconds / 60
  Text.cat
    [if 0 < hours then Text.ofNat hours ++ "h" else [],
      if 0 < minutes then Text.ofNat (minutes % 60) ++ "m" else [],
      scaled 9 (n % (60 * second)), "s"]

def magnitudeText (n : Nat) : Text :=
  if n = 0 then "0s"
  else if n < microsecond then Text.ofNat n ++ "ns"
  else if n < millisecond then scaled 3 n ++ "µs"
  else if n < second then scaled 6 n ++ "ms"
  else clockText n

def text (d : Duration) : Text :=
  if d < 0 then byte '-' :: magnitudeText d.toInt.natAbs else magnitudeText d.toInt.natAbs

inductive Fault where
  /-- It is no sequence of numbers with units, or it is too long. -/
  | invalid
  | missingUnit
  | unknownUnit (unit : Text)
  deriving DecidableEq

/-- A text between quotes; what is not printable ASCII is written by its bytes. -/
def quote (t : Text) : Text :=
  let escape (b : UInt8) : Text :=
    if b < 0x20 ∨ 0x80 ≤ b then "\\x" ++ Text.hex 2 b.toNat
    else if b = byte '"' ∨ b = byte '\\' then [byte '\\', b]
    else [b]
  Text.cat ["\"", t.flatMap escape, "\""]

def Fault.message (t : Text) : Fault → Text
  | invalid => "time: invalid duration " ++ quote t
  | missingUnit => "time: missing unit in duration " ++ quote t
  | unknownUnit u => Text.cat ["time: unknown unit ", quote u, " in duration ", quote t]

def units : List (Text × Nat) :=
  [("ns", 1), ("us", microsecond), ("µs", microsecond), ("μs", microsecond), ("ms", millisecond),
    ("s", second), ("m", 60 * second), ("h", 3600 * second)]

def isNumeric (b : UInt8) : Bool :=
  b == byte '.' || Text.isDigit b

/-- The digits behind the point that count, as many as fit in 63 bits, and what they are to be
divided by: ten for each of them. -/
def fractionDigits : (value : Nat) → (scale : Float) → Text → Nat × Float
  | value, scale, [] => (value, scale)
  | value, scale, b :: rest =>
    let next := 10 * value + (b.toNat - 48)
    if bound < next then (value, scale) else fractionDigits next (scale * 10) rest

def fractionOf (digits : Text) (unit : Nat) : Nat :=
  let (f, scale) := fractionDigits 0 1 digits
  if f = 0 then 0 else (Float.ofNat f * (Float.ofNat unit / scale)).toUInt64.toNat

/-- Reads one number with its unit: its nanoseconds and the rest. -/
def readPart (t : Text) : Except Fault (Nat × Text) := do
  let whole := t.takeWhile Text.isDigit
  let rest := t.dropWhile Text.isDigit
  let (fraction, rest) := match rest with
    | b :: more =>
      if b = byte '.' then (more.takeWhile Text.isDigit, more.dropWhile Text.isDigit)
      else ([], rest)
    | [] => ([], rest)
  if whole.isEmpty && fraction.isEmpty then throw .invalid
  if bound < Text.digitsValue whole then throw .invalid
  let unit := rest.takeWhile fun b => !isNumeric b
  if unit.isEmpty then throw .missingUnit
  match units.lookup unit with
  | none => throw (.unknownUnit unit)
  | some scale =>
    let n := Text.digitsValue whole * scale + fractionOf fraction scale
    if bound < n then throw .invalid
    return (n, rest.dropWhile fun b => !isNumeric b)

/-- Reads numbers with units and adds them up in 64 bits; each takes at least one byte. -/
def readParts : (fuel : Nat) → (total : Nat) → Text → Except Fault Nat
  | _, total, [] => .ok total
  | 0, _, _ :: _ => .error .invalid
  | fuel + 1, total, t => do
    let (n, rest) ← readPart t
    let total := (total + n) % (2 * bound)
    if bound < total then throw .invalid
    readParts fuel total rest

/-- Reads a duration such as `1h30m` or `-1.5s`. -/
def read (t : Text) : Except Fault Duration := do
  let (negative, rest) := Text.cutSign t
  if rest == "0" then return 0
  if rest.isEmpty then throw .invalid
  let n ← readParts rest.length 0 rest
  if negative then return Int64.ofInt (-(n : Int))
  else if bound ≤ n then throw .invalid
  else return Int64.ofNat n

end Duration

end Population
