import Population.Text.Printable

/-!
# Quoted texts

Messages show foreign text between double quotes. Printable characters stand for themselves; the
quote and the backslash are escaped; control characters, stray bytes and other characters that do
not print are written as escapes of a fixed width.
-/

namespace Population.Text

def hexDigit (n : Nat) : UInt8 :=
  if n < 10 then UInt8.ofNat (48 + n) else UInt8.ofNat (87 + n)

/-- The last `width` hexadecimal digits of `n`, most significant first. -/
def hex : (width : Nat) → (n : Nat) → Text
  | 0, _ => []
  | width + 1, n => hex width (n / 16) ++ [hexDigit (n % 16)]

/-- The letter after the backslash for control characters that have one. -/
def controlLetter (code : Nat) : Option Char :=
  match code with
  | 7 => some 'a'
  | 8 => some 'b'
  | 12 => some 'f'
  | 10 => some 'n'
  | 13 => some 'r'
  | 9 => some 't'
  | 11 => some 'v'
  | _ => none

/-- A character inside quotes of the given kind. -/
def escapeChar (quoteMark : Char) (c : Char) : Text :=
  let code := c.toNat
  if c = quoteMark ∨ c = '\\' then [byte '\\', byte c]
  else if isPrintable c then String.utf8EncodeChar c
  else match controlLetter code with
    | some letter => [byte '\\', byte letter]
    | none =>
      if code < 0x20 ∨ code = 0x7F then "\\x" ++ hex 2 code
      else if code < 0x10000 then "\\u" ++ hex 4 code
      else "\\U" ++ hex 8 code

def escape (quoteMark : Char) : Glyph → Text
  | .scalar c => escapeChar quoteMark c
  | .stray b => "\\x" ++ hex 2 b.toNat

/-- The text between double quotes. -/
def quote (t : Text) : Text :=
  [byte '"'] ++ (glyphs t).flatMap (escape '"') ++ [byte '"']

/-- The byte, read as a Latin-1 character, between single quotes. -/
def quoteByte (b : UInt8) : Text :=
  [byte '\''] ++ escapeChar '\'' (Char.ofNat b.toNat) ++ [byte '\'']

end Population.Text
