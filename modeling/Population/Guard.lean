import Population.Marking
import Population.Text.Quoted
import Population.Text.Word

/-!
# Guards and updates

A guard is a conjunction of comparisons of counters with constants; the empty guard is `true`. An
update adds a constant to a counter. Both have a concrete syntax: `a >= 1 && b < 3` and
`a -= 1; b += 1;`.
-/

namespace Population

open Text (byte)

inductive Comparator where
  | ge
  | le
  | eq
  | ne
  | gt
  | lt
  /-- A symbol that names no operator; no comparison with it holds. -/
  | unknown (symbol : Text)
  deriving DecidableEq

namespace Comparator

def symbol : Comparator → Text
  | ge => ">="
  | le => "<="
  | eq => "=="
  | ne => "!="
  | gt => ">"
  | lt => "<"
  | unknown s => s

/-- The operators in the order in which a comparison is searched for them: a sign that starts
another one comes later. -/
def known : List Comparator := [ge, le, eq, ne, gt, lt]

def ofSymbol (s : Text) : Comparator :=
  (known.find? fun op => op.symbol == s).getD (unknown s)

def holds (op : Comparator) (v w : Int64) : Bool :=
  match op with
  | ge => w ≤ v
  | le => v ≤ w
  | eq => v == w
  | ne => v != w
  | gt => w < v
  | lt => v < w
  | unknown _ => false

end Comparator

/-- An atomic condition on one counter. -/
structure Comparison where
  name : Text
  op : Comparator
  value : Int64
  deriving DecidableEq

namespace Comparison

def holds (c : Comparison) (m : Marking) : Bool :=
  c.op.holds (m.get c.name) c.value

end Comparison

/-- A conjunction of comparisons. -/
abbrev Guard := List Comparison

/-- Adds `delta` to a counter. -/
structure Update where
  name : Text
  /-- What is added, modulo 2^64. -/
  delta : Int64
  deriving DecidableEq

/-- Updates that are carried out one after the other. -/
abbrev Updates := List Update

/-- Why a guard or an update sequence cannot be read. -/
inductive FormulaFault where
  | emptyGuard
  /-- The left side of an atom or statement is no name. -/
  | badCounter (name whole : Text)
  /-- The right side of an atom or statement is no 64-bit decimal. -/
  | badLiteral (literal whole : Text)
  | noComparison (atom : Text)
  | noUpdate (statement : Text)
  deriving DecidableEq

/-- The words that open every complaint about the syntax of a counter system. -/
def syntaxHeading : Text := "gal: syntax error: "

def FormulaFault.message : FormulaFault → Text
  | emptyGuard => syntaxHeading ++ "empty guard"
  | badCounter name whole =>
    Text.cat [syntaxHeading, "bad counter name ", name.quote, " in ", whole.quote]
  | badLiteral literal whole =>
    Text.cat [syntaxHeading, "bad literal ", literal.quote, " in ", whole.quote]
  | noComparison atom => Text.cat [syntaxHeading, "no comparison operator in ", atom.quote]
  | noUpdate statement => Text.cat [syntaxHeading, "expected += or -= in ", statement.quote]

/-- Reads the two sides of an operator inside `whole`. -/
def readSides (whole left right : Text) : Except FormulaFault (Text × Int64) :=
  let name := left.trim
  let literal := right.trim
  if !Name.isValid name then .error (.badCounter name whole)
  else match literal.toInt64? with
    | none => .error (.badLiteral literal whole)
    | some v => .ok (name, v)

namespace Comparison

/-- Reads an atom, cut at the first operator of the list that occurs in it. -/
def readWith (atom : Text) : List Comparator → Except FormulaFault Comparison
  | [] => .error (.noComparison atom)
  | op :: others =>
    match atom.cutAt op.symbol with
    | none => readWith atom others
    | some (left, right) => do
      let (name, value) ← readSides atom left right
      return { name, op, value }

/-- Reads `name op value`. -/
def read (atom : Text) : Except FormulaFault Comparison :=
  readWith atom Comparator.known

end Comparison

namespace Guard

def holds (g : Guard) (m : Marking) : Bool :=
  g.all fun c => c.holds m

/-- Reads the atoms of a guard; the word `true` adds nothing. -/
def readAtoms (atoms : List Text) : Except FormulaFault Guard := do
  let parts ← atoms.mapM fun atom =>
    let atom := Text.trim atom
    if atom.sameIgnoringCase "true" then .ok none else (Comparison.read atom).map some
  return parts.filterMap id

def read (t : Text) : Except FormulaFault Guard :=
  let t := t.trim
  if t.isEmpty then .error .emptyGuard
  else readAtoms (t.splitPair (byte '&') (byte '&'))

end Guard

namespace Update

/-- Reads `name += value` or `name -= value`. -/
def read (statement : Text) : Except FormulaFault Update :=
  match statement.cutAt "+=" with
  | some (left, right) => do
    let (name, v) ← readSides statement left right
    return { name, delta := v }
  | none =>
    match statement.cutAt "-=" with
    | some (left, right) => do
      let (name, v) ← readSides statement left right
      return { name, delta := -v }
    | none => .error (.noUpdate statement)

end Update

namespace Updates

def apply (us : Updates) (m : Marking) : Marking :=
  us.foldl (fun m u => m.add u.name u.delta) m

/-- Reads statements ended by semicolons; blank ones are skipped. -/
def read (t : Text) : Except FormulaFault Updates :=
  let statements := (Text.split (byte ';') t).map Text.trim
  (statements.filter fun s => !s.isEmpty).mapM Update.read

@[simp]
theorem apply_nil (m : Marking) : apply [] m = m := rfl

@[simp]
theorem apply_cons (u : Update) (us : Updates) (m : Marking) :
    apply (u :: us) m = apply us (m.add u.name u.delta) := rfl

end Updates

end Population
