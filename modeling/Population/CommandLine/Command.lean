import Population.CommandLine.Flag
import Population.Text.LowerCase

/-!
# Commands

The first operand names the command. To find it, flags and their values are skipped; a flag that is
not known to be a switch is taken to have a value.
-/

namespace Population

open Text (byte)

inductive Command where
  | generate
  | simulate
  | explore
  | check
  | status
  | complete
  deriving DecidableEq

namespace Command

def program : Text := "popsafe"

def all : List Command :=
  [generate, simulate, explore, check, status, complete]

def name : Command → Text
  | generate => "generate"
  | simulate => "simulate"
  | explore => "explore"
  | check => "check"
  | status => "status"
  | complete => "complete"

/-- The flags of a command that no other command needs to have. -/
def ownFlags : Command → List Flag
  | generate => [⟨"output", .text, some (byte 'o')⟩, ⟨"unsafe", .switch, none⟩]
  | simulate =>
    [⟨"gal", .switch, none⟩, ⟨"first", .switch, none⟩, ⟨"steps", .integer, none⟩,
      ⟨"seed", .natural, none⟩]
  | explore =>
    [⟨"gal", .switch, none⟩, ⟨"max-states", .integer, none⟩, ⟨"terminal", .text, none⟩,
      ⟨"dot", .text, none⟩, ⟨"mermaid", .text, none⟩]
  | check => [⟨"oracle", .text, none⟩, ⟨"work-dir", .text, none⟩]
  | status => [⟨"since", .integer, none⟩]
  | complete => []

/-- The flags that may stand before a command. -/
def commonFlags : List Flag :=
  [⟨"config", .text, none⟩, ⟨"metrics-file", .text, none⟩, ⟨"bound", .integer, none⟩,
    ⟨"max-concurrency", .integer, none⟩, ⟨"log-json", .switch, none⟩,
    ⟨"log-level", .text, none⟩]

def helpFlag : Flag := ⟨"help", .switch, some (byte 'h')⟩

/-- All flags of a command, or of the program without a command. -/
def flags (c : Option Command) : List Flag :=
  (c.map ownFlags).getD [] ++ commonFlags ++ [helpFlag]

def isDashed (t : Text) : Bool :=
  t.head? == some (byte '-')

/-- Whether an argument is taken to be a flag whose value follows. -/
def takesNext (flags : List Flag) (arg : Text) : Bool :=
  let isSwitch (p : Flag → Bool) : Bool := flags.any fun f => p f && f.kind == .switch
  !arg.contains (byte '=') &&
    match arg with
    | dash :: b :: body =>
      dash == byte '-' &&
        ((b == byte '-' && !isSwitch fun f => f.name == body) ||
          (body.isEmpty && !isSwitch fun f => f.letter == some b))
    | _ => false

/-- The arguments that are neither flags nor values of flags. -/
def words (flags : List Flag) : List Text → List Text
  | [] => []
  | a :: rest =>
    if a = "--" then []
    else if takesNext flags a then
      match rest with
      | _ :: b :: more => words flags (b :: more)
      | _ => []
    else if a.isEmpty || isDashed a then words flags rest
    else a :: words flags rest

/-- The arguments without the first word that equals `w`. -/
def without (flags : List Flag) (w : Text) : List Text → List Text
  | [] => []
  | a :: rest =>
    if a = "--" then a :: rest
    else if takesNext flags a then
      match rest with
      | v :: more => a :: v :: without flags w more
      | [] => [a]
    else if a = w then rest
    else a :: without flags w rest

/-- The next row of the table of edit distances: `row` belongs to the text before the byte `b`,
`left` is the entry before the next one, and `corner` the one above that. -/
def distanceRow (b : UInt8) (left corner : Nat) : Text → List Nat → List Nat
  | c :: t, above :: row =>
    let d := if b = c then corner else min (min above left) corner + 1
    d :: distanceRow b d above t row
  | _, _ => []

/-- How many bytes have to be inserted, removed or changed to make one text the other. -/
def distance (s t : Text) : Nat :=
  let first := List.range (t.length + 1)
  let last := s.foldl (fun row b =>
    match row with
    | [] => []
    | corner :: above => (corner + 1) :: distanceRow b (corner + 1) corner t above) first
  last.getLast?.getD 0

/-- The words that may be meant by an unknown one: those that start with it or are spelled nearly
the same. -/
def suggestions (typed : Text) : List Text :=
  let typed := typed.lowerCase
  ((all.map name).concat "completion").filter fun n => distance typed n ≤ 2 || typed.isPrefixOf n

/-- What the arguments ask for. -/
inductive Request where
  | run (command : Command) (rest : List Text)
  | usage (rest : List Text)
  | unknown (word : Text)
  deriving DecidableEq

/-- Words that ask how the program is used. -/
def usageWords : List Text := ["help", "completion"]

def find (args : List Text) : Request :=
  match words commonFlags args with
  | [] => .usage args
  | w :: _ =>
    match all.find? fun c => c.name == w with
    | some c => .run c (without commonFlags w args)
    | none => if usageWords.contains w then .usage [] else .unknown w

end Command

end Population
