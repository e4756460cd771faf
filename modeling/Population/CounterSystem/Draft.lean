import Population.CounterSystem.Basic
import Std.Data.TreeMap

/-!
# Drafts

A draft is a counter system under construction. It carries look-up tables from names to positions;
they are rebuilt before a declaration whenever their sizes differ from those of the lists, and are
trusted otherwise.
-/

namespace Population

/-- Positions by name. -/
abbrev Positions := Std.TreeMap Text Nat

/-- The look-up tables of a draft. -/
structure Tables where
  counters : Positions
  transitions : Positions

/-- Why a declaration is refused. -/
inductive DeclareFault where
  | invalidCounter (name : Text)
  | duplicateCounter (name : Text)
  | invalidTransition (name : Text)
  | duplicateTransition (name : Text)
  deriving DecidableEq

namespace DeclareFault

/-- Whether the fault is one of spelling. -/
def isSyntax : DeclareFault → Bool
  | invalidCounter _ | invalidTransition _ => true
  | duplicateCounter _ | duplicateTransition _ => false

def message : DeclareFault → Text
  | invalidCounter name => Text.cat [syntaxHeading, "invalid variable name ", name.quote]
  | duplicateCounter name => Text.cat ["variable ", name, " already declared"]
  | invalidTransition name => Text.cat [syntaxHeading, "invalid transition name ", name.quote]
  | duplicateTransition name => Text.cat ["transition ", name, " already defined"]

end DeclareFault

/-- The positions of the names of a list; of two equal names the later one counts. -/
def Positions.ofNames (names : List Text) : Positions :=
  names.zipIdx.foldl (fun p (n, i) => p.insert n i) ∅

/-- A counter system under construction. -/
structure Draft where
  system : CounterSystem
  /-- The look-up tables, absent until the first declaration of a system given as a whole. -/
  tables : Option Tables

namespace Draft

def new (name : Text) : Draft :=
  ⟨⟨name, [], []⟩, some ⟨∅, ∅⟩⟩

/-- A draft of a system given as a whole, without tables. -/
def ofSystem (s : CounterSystem) : Draft :=
  ⟨s, none⟩

def freshTables (s : CounterSystem) : Tables :=
  ⟨Positions.ofNames s.counterNames, Positions.ofNames (s.transitions.map (·.name))⟩

/-- The tables that a declaration consults. -/
def currentTables (d : Draft) : Tables :=
  match d.tables with
  | none => freshTables d.system
  | some t =>
    if t.counters.size = d.system.counters.length ∧
        t.transitions.size = d.system.transitions.length then t
    else freshTables d.system

def declare (d : Draft) (name : Text) (initial : Int64) : Except DeclareFault Draft :=
  if !Name.isValid name then .error (.invalidCounter name)
  else
    let t := d.currentTables
    if t.counters.contains name then .error (.duplicateCounter name)
    else .ok
      { system := { d.system with counters := d.system.counters ++ [⟨name, initial⟩] }
        tables := some { t with counters := t.counters.insert name d.system.counters.length } }

def addTransition (d : Draft) (tr : Transition) : Except DeclareFault Draft :=
  if !Name.isValid tr.name then .error (.invalidTransition tr.name)
  else
    let t := d.currentTables
    if t.transitions.contains tr.name then .error (.duplicateTransition tr.name)
    else .ok
      { system := { d.system with transitions := d.system.transitions ++ [tr] }
        tables :=
          some { t with transitions := t.transitions.insert tr.name d.system.transitions.length } }

/-- The draft with the tables that a declaration would consult. -/
def refreshed (d : Draft) : Draft :=
  { d with tables := some d.currentTables }

/-- Appends a counter without any check. -/
def appendCounter (d : Draft) (v : Counter) : Draft :=
  { d with system := { d.system with counters := d.system.counters ++ [v] } }

/-- Appends a transition without any check. -/
def appendTransition (d : Draft) (t : Transition) : Draft :=
  { d with system := { d.system with transitions := d.system.transitions ++ [t] } }

/-- Drops the last counter; the tables stay as they are. -/
def popCounter (d : Draft) : Draft :=
  { d with system := { d.system with counters := d.system.counters.dropLast } }

/-- Drops the last transition; the tables stay as they are. -/
def popTransition (d : Draft) : Draft :=
  { d with system := { d.system with transitions := d.system.transitions.dropLast } }

/-- A change of a draft. -/
inductive Edit where
  | declare (name : Text) (initial : Int64)
  | add (t : Transition)
  | appendCounter (v : Counter)
  | appendTransition (t : Transition)
  | popCounter
  | popTransition

/-- The draft after a refusal: a misspelt name is refused before the tables are consulted, a
duplicate after that. -/
def afterRefusal (d : Draft) (f : DeclareFault) : Draft :=
  if f.isSyntax then d else d.refreshed

/-- Carries out a change; a refused one is reported. -/
def edit (d : Draft) : Edit → Draft × Option DeclareFault
  | .declare name initial =>
    match d.declare name initial with
    | .ok d' => (d', none)
    | .error f => (d.afterRefusal f, some f)
  | .add t =>
    match d.addTransition t with
    | .ok d' => (d', none)
    | .error f => (d.afterRefusal f, some f)
  | .appendCounter v => (d.appendCounter v, none)
  | .appendTransition t => (d.appendTransition t, none)
  | .popCounter => (d.popCounter, none)
  | .popTransition => (d.popTransition, none)

/-- The element of that name: at the position the table gives when it is there, else the first. -/
def find? {α : Type} (nameOf : α → Text) (positions : Option Positions) (xs : List α)
    (name : Text) : Option α :=
  let hinted := do
    let p ← positions
    let i ← p[name]?
    let x ← xs[i]?
    if nameOf x = name then some x else none
  hinted.or (xs.find? fun x => nameOf x == name)

def findCounter (d : Draft) (name : Text) : Option Counter :=
  find? (·.name) (d.tables.map (·.counters)) d.system.counters name

def findTransition (d : Draft) (name : Text) : Option Transition :=
  find? (·.name) (d.tables.map (·.transitions)) d.system.transitions name

end Draft

end Population
