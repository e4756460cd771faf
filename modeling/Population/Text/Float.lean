import Population.Text.Decimal

/-!
# Floating-point numbers as decimals

A number that is read may have a point and an exponent. It is rounded to the nearest floating-point
number; one that is too large for any is refused.

The text of a number that is not negative has the fewest digits that read back as the same number,
of two candidates the nearer. They are written out in full, or with an exponent where the number is
below a ten-thousandth or from a million on.
-/

namespace Population.Text.Scientific

/-- The value of the digits of an exponent; from ten thousand on further digits do not count. -/
def exponentValue (digits : Text) : Nat :=
  digits.foldl (fun n b => if n < 10000 then 10 * n + (b.toNat - 48) else n) 0

/-- Reads what may stand behind the digits of a number: nothing, or an exponent. -/
def exponent? : Text → Option Int
  | [] => some 0
  | b :: rest =>
    let (negative, digits) := cutSign rest
    if lowerByte b ≠ byte 'e' || digits.isEmpty || !digits.all isDigit then none
    else
      let n : Int := exponentValue digits
      some (if negative then -n else n)

/-- The digits before and behind the point, and the rest. -/
def cutDigits (t : Text) : Text × Text × Text :=
  let whole := t.takeWhile isDigit
  match t.dropWhile isDigit with
  | b :: rest =>
    if b = byte '.' then (whole, rest.takeWhile isDigit, rest.dropWhile isDigit)
    else (whole, [], b :: rest)
  | [] => (whole, [], [])

/-- The floating-point number nearest to a whole number times a power of ten. -/
def scale (n : Nat) (power : Int) : Float :=
  let size : Int := (ofNat n).length + power
  if n = 0 || size < -400 then 0
  else if 400 < size then 1 / 0
  else if 0 ≤ power then Float.ofScientific n false power.toNat
  else Float.ofScientific n true power.natAbs

def read? (t : Text) : Option Float := do
  let (negative, t) := cutSign t
  let (whole, fraction, rest) := cutDigits t
  let power ← exponent? rest
  guard !(whole.isEmpty && fraction.isEmpty)
  let x := scale (digitsValue (whole ++ fraction)) (power - fraction.length)
  guard !x.isInf
  return if negative then -x else x

end Population.Text.Scientific

namespace Population.Shortest

open Text (byte)

structure Decimal where
  digits : Nat
  exponent : Int
  deriving DecidableEq

def Decimal.toFloat (d : Decimal) : Float :=
  if d.exponent < 0 then .ofScientific d.digits true d.exponent.natAbs
  else .ofScientific d.digits false d.exponent.natAbs

/-- A finite number as `m * 2 ^ q`. -/
def parts (x : Float) : Nat × Int :=
  let bits := x.toBits.toNat
  let fraction : Nat := bits % 0x10000000000000
  let power : Nat := bits / 0x10000000000000 % 0x800
  if power = 0 then (fraction, -1074) else (fraction + 0x10000000000000, power - 1075)

def fraction (x : Float) : Nat × Nat :=
  let (m, q) := parts x
  if q < 0 then (m, Nat.pow 2 q.natAbs) else (m * Nat.pow 2 q.natAbs, 1)

/-- The quotient of a fraction by a power of ten, rounded down, and whether the next larger one is
nearer. -/
def onGrid (num den : Nat) (exponent : Int) : Nat × Bool :=
  let scale := Nat.pow 10 exponent.natAbs
  let (n, d) := if exponent < 0 then (num * scale, den) else (num, den * scale)
  (n / d, d < 2 * (n % d))

/-- The decimals next to a number on the grid of a power of ten, the nearer first. -/
def neighbours (num den : Nat) (exponent : Int) : List Decimal :=
  let (low, up) := onGrid num den exponent
  let both := [⟨low, exponent⟩, ⟨low + 1, exponent⟩]
  if up then both.reverse else both

/-- The number of digits before the point, zero or negative for numbers below one. -/
def magnitude (num den : Nat) : Int :=
  if den ≤ num then ((Nat.toDigits 10 (num / den)).length : Int)
  else 1 - ((Nat.toDigits 10 ((den - 1) / num)).length : Int)

/-- The first decimal that reads back, with at most `more` digits beyond the `count` tried first. -/
def search (x : Float) (num den : Nat) : (more : Nat) → (count : Nat) → Decimal
  | more, count =>
    let exponent := magnitude num den - count
    match (neighbours num den exponent).find? fun d => d.toFloat == x with
    | some d => d
    | none =>
      match more with
      | 0 => ⟨(onGrid num den exponent).1, exponent⟩
      | more + 1 => search x num den more (count + 1)
termination_by structural more => more

def decimal (x : Float) : Decimal :=
  let (num, den) := fraction x
  search x num den 17 1

/-- The digits of a decimal without zeros at the end. -/
def significant (d : Decimal) : Text :=
  ((Text.ofNat d.digits).reverse.dropWhile (· == byte '0')).reverse

/-- Digits with the point after the first `whole` of them. -/
def positional (digits : Text) (whole : Int) : Text :=
  let n := whole.natAbs
  if whole ≤ 0 then Text.cat ["0.", List.replicate n (byte '0'), digits]
  else if digits.length ≤ n then digits ++ List.replicate (n - digits.length) (byte '0')
  else Text.cat [digits.take n, ".", digits.drop n]

/-- Digits with an exponent of at least two digits. -/
def scientific (digits : Text) (exponent : Int) : Text :=
  let power := Text.ofNat exponent.natAbs
  Text.cat
    [digits.take 1, if digits.length ≤ 1 then [] else byte '.' :: digits.drop 1,
      if exponent < 0 then "e-" else "e+", if power.length < 2 then "0" else [], power]

/-- The number of digits of a decimal before the point. -/
def Decimal.whole (d : Decimal) : Int :=
  ((Text.ofNat d.digits).length : Int) + d.exponent

def fullText (x : Float) : Text :=
  if x == 0 then "0"
  else
    let d := decimal x
    positional (significant d) d.whole

/-- The text of a number, with an exponent if it is very small or large. -/
def text (x : Float) : Text :=
  let d := decimal x
  if x != 0 && (d.whole - 1 < -4 || 6 ≤ d.whole - 1) then
    scientific (significant d) (d.whole - 1)
  else fullText x

end Population.Shortest
