import Population.Text.Basic

/-!
# Glyphs

A text decodes into glyphs: code points whose UTF-8 encoding is well formed, and stray bytes that
belong to none. Decoding goes from the left and gives each byte to exactly one glyph.
-/

namespace Population

/-- One unit of a decoded text. -/
inductive Glyph where
  /-- A code point with a well-formed encoding. -/
  | scalar (c : Char)
  /-- A byte that is not part of a well-formed encoding. -/
  | stray (b : UInt8)
  deriving DecidableEq

namespace Glyph

def bytes : Glyph → Text
  | scalar c => String.utf8EncodeChar c
  | stray b => [b]

/-- A continuation byte. -/
def isTail (b : UInt8) : Bool :=
  0x80 ≤ b && b ≤ 0xBF

/-- The second bytes that may follow the first byte of a three-byte encoding. -/
def opensThree (a b : UInt8) : Bool :=
  if a = 0xE0 then 0xA0 ≤ b && b ≤ 0xBF
  else if a = 0xED then 0x80 ≤ b && b ≤ 0x9F
  else 0xE1 ≤ a && a ≤ 0xEF && isTail b

/-- The second bytes that may follow the first byte of a four-byte encoding. -/
def opensFour (a b : UInt8) : Bool :=
  if a = 0xF0 then 0x90 ≤ b && b ≤ 0xBF
  else if a = 0xF4 then 0x80 ≤ b && b ≤ 0x8F
  else 0xF1 ≤ a && a ≤ 0xF3 && isTail b

def code2 (a b : UInt8) : Char :=
  Char.ofNat (a.toNat % 32 * 64 + b.toNat % 64)

def code3 (a b c : UInt8) : Char :=
  Char.ofNat (a.toNat % 16 * 4096 + b.toNat % 64 * 64 + c.toNat % 64)

def code4 (a b c d : UInt8) : Char :=
  Char.ofNat (a.toNat % 8 * 262144 + b.toNat % 64 * 4096 + c.toNat % 64 * 64 + d.toNat % 64)

end Glyph

namespace Text

open Glyph

/-- The glyphs of a text behind the glyphs in `done`, all in reverse. -/
def glyphsFrom (done : List Glyph) : Text → List Glyph
  | [] => done
  | [a] => (if a < 0x80 then scalar (Char.ofNat a.toNat) else stray a) :: done
  | a :: b :: rest =>
    if a < 0x80 then glyphsFrom (scalar (Char.ofNat a.toNat) :: done) (b :: rest)
    else if 0xC2 ≤ a && a ≤ 0xDF && isTail b then glyphsFrom (scalar (code2 a b) :: done) rest
    else match rest with
      | c :: rest' =>
        if opensThree a b && isTail c then glyphsFrom (scalar (code3 a b c) :: done) rest'
        else match rest' with
          | d :: rest'' =>
            if opensFour a b && isTail c && isTail d then
              glyphsFrom (scalar (code4 a b c d) :: done) rest''
            else glyphsFrom (stray a :: done) (b :: c :: d :: rest'')
          | [] => glyphsFrom (stray a :: done) [b, c]
      | [] => glyphsFrom (stray a :: done) [b]

/-- The glyphs of a text, read from the left; each byte that starts no well-formed encoding is a
glyph of its own. -/
def glyphs (t : Text) : List Glyph :=
  (glyphsFrom [] t).reverse

def ofGlyphs (gs : List Glyph) : Text :=
  gs.flatMap Glyph.bytes

/-- Whether every byte belongs to a well-formed encoding. -/
def isValid (t : Text) : Bool :=
  (glyphs t).all fun
    | scalar _ => true
    | stray _ => false

def glyphCount (t : Text) : Nat :=
  (glyphs t).length

/-- The code points of a text, with the replacement character U+FFFD for each stray byte. -/
def chars (t : Text) : List Char :=
  (glyphs t).map fun
    | scalar c => c
    | stray _ => Char.ofNat 0xFFFD

def repaired (t : Text) : Text :=
  (chars t).flatMap String.utf8EncodeChar

/-- The string that a text encodes; stray bytes show as the replacement character. -/
def toString (t : Text) : String :=
  String.ofList (chars t)

/-- Adds blanks on the right up to `width` characters. -/
def padRight (width : Nat) (t : Text) : Text :=
  t ++ List.replicate (width - glyphCount t) (byte ' ')

def padLeft (width : Nat) (t : Text) : Text :=
  List.replicate (width - glyphCount t) (byte ' ') ++ t

end Text

end Population
