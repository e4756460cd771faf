import Population.Duration
import Population.Text.Radix
import Population.Text.Word

/-!
# Log records

A record has a level, a message and attributes in order. It is written as a line of `key=value`
pairs, where texts that would be ambiguous are quoted, or as a line of JSON.
-/

namespace Population

open Text (byte)

/-- The severity of a record; records below a logger's level are dropped. -/
structure Level where
  value : Int64
  deriving DecidableEq

inductive LevelFault where
  | unknownName
  | badOffset (offset : Text) (fault : Text.NumberFault)
  deriving DecidableEq

namespace Level

def debug : Level := ⟨-4⟩

def info : Level := ⟨0⟩

def warn : Level := ⟨4⟩

def error : Level := ⟨8⟩

def named : List (Text × Level) :=
  [("DEBUG", debug), ("INFO", info), ("WARN", warn), ("ERROR", error)]

/-- A name with the distance from its level. -/
def offsetText (base : Text) (offset : Int64) : Text :=
  if offset = 0 then base
  else if offset < 0 then base ++ Text.ofInt64 offset
  else Text.cat [base, "+", Text.ofInt64 offset]

/-- The level by the nearest name at or below it. -/
def text (l : Level) : Text :=
  if l.value < info.value then offsetText "DEBUG" (l.value - debug.value)
  else if l.value < warn.value then offsetText "INFO" (l.value - info.value)
  else if l.value < error.value then offsetText "WARN" (l.value - warn.value)
  else offsetText "ERROR" (l.value - error.value)

/-- The name in capitals; the dotless i has the same capital as the i. -/
def capitals (name : Text) : Text :=
  name.chars.flatMap fun c =>
    if c = Char.ofNat 0x131 then [byte 'I'] else String.utf8EncodeChar c.toUpper

/-- Reads a name with an optional signed offset. -/
def readTrimmed (t : Text) : Except LevelFault Level :=
  let isSign (b : UInt8) : Bool := b == byte '+' || b == byte '-'
  let name := t.takeWhile fun b => !isSign b
  let offset := t.dropWhile fun b => !isSign b
  let distance : Except Text.NumberFault Int64 :=
    if offset.isEmpty then .ok 0 else (Text.Radix.readDecimal 64 offset).map Int64.ofInt
  match distance with
  | .error fault => .error (.badOffset offset fault)
  | .ok n =>
    match named.lookup (capitals name) with
    | none => .error .unknownName
    | some l => .ok ⟨l.value + n⟩

/-- Reads a level; a blank text is the ordinary one. -/
def read (t : Text) : Except LevelFault Level :=
  if t.trim.isEmpty then .ok info else readTrimmed t.trim

def faultMessage (t : Text) (fault : LevelFault) : Text :=
  Text.cat
    ["log level ", t.quote, ": slog: level string ", t.trim.quote, ": ",
      match fault with
      | .unknownName => "unknown name"
      | .badOffset offset f => Text.Radix.complaint "Atoi" offset f]

end Level

inductive LogValue where
  | text (t : Text)
  | int (n : Int)
  | duration (d : Duration)
  | counts (entries : List (Text × Nat))
  deriving DecidableEq

instance : Coe Text LogValue := ⟨.text⟩

structure LogRecord where
  level : Level
  message : Text
  attributes : List (Text × LogValue)
  deriving DecidableEq

namespace LogRecord

/-- Whether a glyph makes quotes necessary. -/
def isAmbiguous : Glyph → Bool
  | .stray _ => true
  | .scalar c =>
    if c.toNat < 0x80 then c.toNat ≤ 0x20 || c == '=' || c == '"'
    else c.toNat == 0xFFFD || Text.isBlank c || !Text.isPrintable c

/-- A text in a line of pairs, quoted when it is empty or ambiguous. -/
def pairText (t : Text) : Text :=
  if t.isEmpty || t.glyphs.any isAmbiguous then t.quote else t

def valueText : LogValue → Text
  | .text t => pairText t
  | .int n => Text.ofInt n
  | .duration d => d.text
  | .counts es =>
    pairText (Text.cat
      ["map[", Text.join " " (es.map fun (k, n) => Text.cat [k, ":", Text.ofNat n]), "]"])

/-- The record as pairs, behind an optional time. -/
def line (time : Option Text) (r : LogRecord) : Text :=
  let pair (k : Text) (v : Text) : Text := Text.cat [pairText k, "=", v]
  Text.join " "
    ((time.map (pair "time")).toList ++
      [pair "level" (pairText r.level.text), pair "msg" (pairText r.message)] ++
      r.attributes.map fun (k, v) => pair k (valueText v))

def jsonChar (c : Char) : Text :=
  if c = '"' ∨ c = '\\' then [byte '\\', byte c]
  else if c = '\n' then "\\n"
  else if c = '\r' then "\\r"
  else if c = '\t' then "\\t"
  else if c.toNat < 0x20 ∨ c.toNat = 0x2028 ∨ c.toNat = 0x2029 then "\\u" ++ Text.hex 4 c.toNat
  else String.utf8EncodeChar c

/-- A text as a JSON string; a stray byte is written as the escaped replacement character. -/
def jsonText (t : Text) : Text :=
  [byte '"'] ++ (t.glyphs.flatMap fun
    | .scalar c => jsonChar c
    | .stray _ => "\\ufffd") ++ [byte '"']

/-- A value in JSON; durations are nanoseconds. -/
def jsonValue : LogValue → Text
  | .text t => jsonText t
  | .int n => Text.ofInt n
  | .duration d => Text.ofInt64 d
  | .counts es =>
    Text.cat ["\x7b", Text.join "," (es.map fun (k, n) =>
      Text.cat [jsonText k, ":", Text.ofNat n]), "\x7d"]

def jsonLine (time : Text) (r : LogRecord) : Text :=
  let pair (k : Text) (v : Text) : Text := Text.cat [jsonText k, ":", v]
  Text.cat ["\x7b", Text.join ","
    ([pair "time" (jsonText time), pair "level" (jsonText r.level.text),
      pair "msg" (jsonText r.message)] ++
      r.attributes.map fun (k, v) => pair k (jsonValue v)), "\x7d"]

end LogRecord

structure Logger where
  json : Bool
  /-- The least level that is written. -/
  level : Level
  deriving DecidableEq

/-- What the logger writes for records, each on a line of its own, with the given time. -/
def Logger.write (l : Logger) (time : Text) (records : List LogRecord) : Text :=
  (records.filter fun r => l.level.value ≤ r.level.value).flatMap fun r =>
    (if l.json then r.jsonLine time else r.line (some time)) ++ "\n"

end Population
