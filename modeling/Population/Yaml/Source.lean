import Population.Text.Basic

/-!
# Characters of a document

A document is encoded in UTF-8, or in UTF-16 if a byte order mark says so. Bytes are decoded in
blocks. A fault spoils its whole block: the characters of the blocks before it can be read, and
whoever needs more meets the fault.
-/

namespace Population.Yaml

inductive Coding where
  | utf8
  | utf16 (bigEndian : Bool)
  deriving DecidableEq

/-- The characters of a document that can be read, and what is wrong behind them. -/
structure Source where
  characters : List Char
  fault : Option Text := none
  deriving DecidableEq

namespace Source

/-- What a sequence of bytes starts with. -/
inductive Step where
  /-- A character, and how many bytes it takes. -/
  | character (code width : Nat)
  | incomplete (why : Text)
  | bad (why : Text)

/-- The number of bytes of an encoding in UTF-8, by its first byte. -/
def width? (b : UInt8) : Option Nat :=
  if b < 0x80 then some 1
  else if b < 0xC0 then none
  else if b < 0xE0 then some 2
  else if b < 0xF0 then some 3
  else if b < 0xF8 then some 4
  else none

/-- The least code point for a number of bytes. -/
def leastCode : Nat → Nat
  | 2 => 0x80
  | 3 => 0x800
  | 4 => 0x10000
  | _ => 0

def isSurrogate (code : Nat) : Bool :=
  0xD800 ≤ code && code ≤ 0xDFFF

def stepUtf8 (b : UInt8) (rest : Text) : Step :=
  match width? b with
  | none => .bad "invalid leading UTF-8 octet"
  | some 1 => .character b.toNat 1
  | some width =>
    let tail := rest.take (width - 1)
    let code := tail.foldl (fun n t => 64 * n + t.toNat % 64) (b.toNat % Nat.pow 2 (7 - width))
    if tail.length < width - 1 then .incomplete "incomplete UTF-8 octet sequence"
    else if tail.any fun t => t < 0x80 || 0xC0 ≤ t then .bad "invalid trailing UTF-8 octet"
    else if code < leastCode width then .bad "invalid length of a UTF-8 sequence"
    else if isSurrogate code || 0x10FFFF < code then .bad "invalid Unicode character"
    else .character code width

def unit (bigEndian : Bool) (a b : UInt8) : Nat :=
  if bigEndian then 256 * a.toNat + b.toNat else 256 * b.toNat + a.toNat

def stepUtf16 (bigEndian : Bool) : Text → Step
  | a :: b :: rest =>
    let first := unit bigEndian a b
    if !isSurrogate first then .character first 2
    else if 0xDC00 ≤ first then .bad "unexpected low surrogate area"
    else match rest with
      | c :: d :: _ =>
        let second := unit bigEndian c d
        if second < 0xDC00 || 0xDFFF < second then .bad "expected low surrogate area"
        else .character (0x10000 + 0x400 * (first - 0xD800) + (second - 0xDC00)) 4
      | _ => .incomplete "incomplete UTF-16 surrogate pair"
  | _ => .incomplete "incomplete UTF-16 character"

def isAllowed (n : Nat) : Bool :=
  n == 0x09 || n == 0x0A || n == 0x0D || (0x20 ≤ n && n ≤ 0x7E) || n == 0x85 ||
    (0xA0 ≤ n && n ≤ 0xD7FF) || (0xE000 ≤ n && n ≤ 0xFFFD) || 0x10000 ≤ n

/-- Takes a character that may stand in a document. -/
def step (coding : Coding) (b : UInt8) (rest : Text) : Step :=
  let s := match coding with
    | .utf8 => stepUtf8 b rest
    | .utf16 bigEndian => stepUtf16 bigEndian (b :: rest)
  match s with
  | .character code _ => if isAllowed code then s else .bad "control characters are not allowed"
  | _ => s

def blockSize : Nat := 512

/-- What decoding a block leaves: all characters so far in reverse, the bytes of a character that
goes on behind the block, and what is wrong if it does not. -/
structure Block where
  done : List Char
  left : Text := []
  why : Text := []

/-- Decodes a block; every character takes at least one byte. -/
def decodeBlock (coding : Coding) : (fuel : Nat) → (done : List Char) → Text → Except Text Block
  | 0, done, t => .ok { done, left := t }
  | _, done, [] => .ok { done }
  | fuel + 1, done, b :: rest =>
    match step coding b rest with
    | .character code width =>
      decodeBlock coding fuel (Char.ofNat code :: done) (rest.drop (width - 1))
    | .incomplete why => .ok { done, left := b :: rest, why }
    | .bad why => .error why

/-- Decodes block after block, the first one of a given size. -/
def decodeBlocks (coding : Coding) : (fuel size : Nat) → (done : List Char) → Text → Source
  | 0, _, done, _ => ⟨done.reverse, none⟩
  | fuel + 1, size, done, t =>
    match decodeBlock coding size done (t.take size) with
    | .error why => ⟨done.reverse, some why⟩
    | .ok block =>
      match t.drop size with
      | [] => ⟨block.done.reverse, if block.left.isEmpty then none else some block.why⟩
      | more => decodeBlocks coding fuel blockSize block.done (block.left ++ more)

def orderMarks : List (Text × Coding) :=
  [([0xFF, 0xFE], .utf16 false), ([0xFE, 0xFF], .utf16 true), ([0xEF, 0xBB, 0xBF], .utf8)]

/-- The characters of a text. A byte order mark chooses the encoding and is dropped. -/
def ofText (t : Text) : Source :=
  match orderMarks.find? fun m => m.1.isPrefixOf t with
  | some (mark, coding) =>
    decodeBlocks coding (t.length + 1) (blockSize - mark.length) [] (t.drop mark.length)
  | none => decodeBlocks .utf8 (t.length + 1) blockSize [] t

end Source

end Population.Yaml
