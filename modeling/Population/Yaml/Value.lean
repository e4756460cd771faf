import Population.Text.Decimal
import Population.Text.Float
import Population.Text.Radix
import Population.Yaml.Timestamp

/-!
# Values of scalars

What a scalar stands for is told by its tag, and without one by how it is written: a few words stand
for truth values and for nothing, what looks like a number or a point in time is one, and everything
else is a text. A scalar that its tag does not fit is refused.

Bytes are given in base 64: three bytes are written as four characters of six bits each. At the end
one or two bytes are written as two or three characters, and equals signs fill the group. Line ends
between characters do not count.
-/

namespace Population.Text.Base64

/-- The six bits of a character. -/
def value? (b : UInt8) : Option Nat :=
  if byte 'A' ≤ b ∧ b ≤ byte 'Z' then some (b.toNat - 65)
  else if byte 'a' ≤ b ∧ b ≤ byte 'z' then some (b.toNat - 71)
  else if isDigit b then some (b.toNat + 4)
  else if b = byte '+' then some 62
  else if b = byte '/' then some 63
  else none

def filler : UInt8 := byte '='

/-- The bits of some characters, the first one highest. -/
def bits? (group : Text) : Option Nat :=
  group.foldl (fun n b => do return 64 * (← n) + (← value? b)) (some 0)

/-- The bytes of the last group; bits that make no byte are dropped. -/
def lastBytes? (a b c d : UInt8) : Option Text :=
  if d ≠ filler then
    (bits? [a, b, c, d]).map fun n => [.ofNat (n / 65536), .ofNat (n / 256), .ofNat n]
  else if c ≠ filler then
    (bits? [a, b, c]).map fun n => [.ofNat (n / 1024), .ofNat (n / 4)]
  else (bits? [a, b]).map fun n => [.ofNat (n / 16)]

/-- Decodes group after group behind the bytes in `done`, which are in reverse. -/
def decodeFrom (done : Text) : Text → Option Text
  | [] => some done.reverse
  | [a, b, c, d] => (lastBytes? a b c d).map fun last => done.reverse ++ last
  | a :: b :: c :: d :: rest => do
    let n ← bits? [a, b, c, d]
    decodeFrom (.ofNat n :: .ofNat (n / 256) :: .ofNat (n / 65536) :: done) rest
  | _ => none

def decode? (t : Text) : Option Text :=
  decodeFrom [] (t.filter fun b => b ≠ byte '\n' && b ≠ byte '\r')

end Population.Text.Base64

namespace Population.Yaml

open Text (byte isDigit)

inductive Value where
  | null
  | bool (b : Bool)
  | int (n : Int)
  | float (x : Float)
  | time
  | text (t : Text)

namespace Value

def tag : Value → Text
  | null => "!!null"
  | bool _ => "!!bool"
  | int _ => "!!int"
  | float _ => "!!float"
  | time => "!!timestamp"
  | text _ => "!!str"

/-- The words that stand for a value. -/
def words : List (List String × Value) :=
  [(["true", "True", "TRUE"], bool true),
    (["false", "False", "FALSE"], bool false),
    (["", "~", "null", "Null", "NULL"], null),
    ([".nan", ".NaN", ".NAN"], float (0 / 0)),
    ([".inf", ".Inf", ".INF", "+.inf", "+.Inf", "+.INF"], float (1 / 0)),
    (["-.inf", "-.Inf", "-.INF"], float (-1 / 0))]

def ofWord? (t : Text) : Option Value :=
  (words.find? fun w => w.1.any fun s => Text.ofString s == t).map (·.2)

/-- Whether every underscore stands between digits; `after` tells whether a digit stands before the
text. -/
def separatesDigits (after : Bool) : Text → Bool
  | [] => true
  | b :: rest =>
    if b = byte '_' then after && rest.head?.any isDigit && separatesDigits false rest
    else separatesDigits (isDigit b) rest

def dropUnderscores (t : Text) : Text :=
  t.filter (· ≠ byte '_')

/-- Reads a whole number in a base that its beginning names. -/
def integer? (t : Text) : Option Int :=
  match Text.Radix.readInteger t, Text.Radix.readNatural t with
  | .ok n, _ => some n
  | .error _, .ok n => some n
  | .error _, .error _ => none

/-- Reads a whole number whose sign stands behind the name of its base. -/
def lateSigned? (t : Text) : Option Int :=
  let read (base : Nat) (digits : Text) : Option Int :=
    (Text.Radix.withSign 64 (fun limit ds =>
      if ds.isEmpty then .error .malformed else Text.Radix.readDigits base limit 0 ds)
      digits).toOption
  match Text.after? t "0b", Text.after? t "0o" with
  | some digits, _ => read 2 digits
  | none, some digits => read 8 digits
  | none, none => none

/-- Reads a number; underscores do not count. -/
def number? (t : Text) : Option Value :=
  let t := dropUnderscores t
  (integer? t).map int <|> (Text.Scientific.read? t).map float <|> (lateSigned? t).map int

/-- Whether a number or a point in time may start with a byte. -/
def startsNumber (b : UInt8) : Bool :=
  isDigit b || b == byte '+' || b == byte '-'

/-- The value of a scalar without a tag; points in time are optional. -/
def ofPlain (times : Bool) (t : Text) : Value :=
  let found := ofWord? t <|> match t with
    | [] => none
    | b :: _ =>
      if b = byte '.' then
        if separatesDigits false t then (Text.Scientific.read? (dropUnderscores t)).map float
        else none
      else if !startsNumber b then none
      else if times && isTimestamp t then some time
      else number? t
  found.getD (text t)

def isSmall (n : Int) : Bool :=
  Int64.minValue.toInt ≤ n && n ≤ Int64.maxValue.toInt

/-- The tags that are checked against how a scalar is written. -/
def checkedTags : List Text :=
  ["!!bool", "!!int", "!!float", "!!null", "!!timestamp"]

/-- The value of a scalar with a tag, or why the tag does not fit. -/
def ofTagged (tag t : Text) : Except Text Value :=
  if tag = "!!binary" then
    match Text.Base64.decode? t with
    | some bytes => .ok (text bytes)
    | none => .error "!!binary value contains invalid base64 data"
  else if !checkedTags.contains tag then .ok (text t)
  else
    let v := ofPlain (tag = "!!timestamp") t
    if v.tag = tag then .ok v
    else
      match v with
      | int n =>
        if tag = "!!float" && isSmall n then .ok (float (Float.ofInt n))
        else .error (mismatch v)
      | _ => .error (mismatch v)
where
  /-- The refusal of a value that is not what its tag says. -/
  mismatch (v : Value) : Text :=
    Text.cat ["cannot decode ", v.tag, " \x60", t, "\x60 as a ", tag]

end Value

end Population.Yaml
