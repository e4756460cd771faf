import Population.Text.Quoted
import Population.Text.Radix

/-!
# Parameters

Names with values, written `a=b&c=d`. A percent sign with two hexadecimal digits stands for a byte
and a plus sign for a space. A list that cannot be read is refused as a whole: a semicolon counts
before any percent sign that stands alone, and of those the first.
-/

namespace Population.Parameters

open Text (byte)

/-- Why parameters cannot be read. -/
inductive Fault where
  /-- A percent sign without two digits, with what follows it. -/
  | badEscape (part : Text)
  /-- A semicolon separates nothing. -/
  | semicolon
  deriving DecidableEq

def Fault.message : Fault → Text
  | badEscape part => "invalid URL escape " ++ part.quote
  | semicolon => "invalid semicolon separator in query"

/-- The byte that two hexadecimal digits stand for. -/
def octet? (high low : UInt8) : Option UInt8 :=
  match Text.Radix.readDigits 16 256 0 [high, low] with
  | .ok n => some (.ofNat n)
  | .error _ => none

/-- Reads escapes; `done` is what has been read, in reverse. -/
def decodeFrom (done : Text) : Text → Except Fault Text
  | [] => .ok done.reverse
  | b :: rest =>
    if b = byte '%' then
      match rest with
      | high :: low :: more =>
        match octet? high low with
        | some o => decodeFrom (o :: done) more
        | none => .error (.badEscape [b, high, low])
      | _ => .error (.badEscape (b :: rest))
    else decodeFrom ((if b = byte '+' then byte ' ' else b) :: done) rest

def decode (t : Text) : Except Fault Text :=
  decodeFrom [] t

structure Reading where
  entries : List (Text × Text) := []
  fault : Option Fault := none

/-- Reads one parameter; one without an equals sign has an empty value. -/
def Reading.add (r : Reading) (piece : Text) : Reading :=
  if piece.contains (byte ';') then { r with fault := some .semicolon }
  else if piece.isEmpty then r
  else
    let (name, value) := (Text.cut (byte '=') piece).getD (piece, [])
    match decode name, decode value with
    | .ok n, .ok v => { r with entries := r.entries ++ [(n, v)] }
    | .error f, _ | _, .error f => { r with fault := r.fault.or (some f) }

def read (t : Text) : Except Fault (List (Text × Text)) :=
  let r := (Text.split (byte '&') t).foldl Reading.add {}
  match r.fault with
  | some f => .error f
  | none => .ok r.entries

def valuesOf (name : Text) (entries : List (Text × Text)) : List Text :=
  (entries.filter fun e => e.1 == name).map (·.2)

/-- The first value of a name; one that is missing is empty. -/
def first (name : Text) (entries : List (Text × Text)) : Text :=
  (entries.lookup name).getD []

end Population.Parameters
