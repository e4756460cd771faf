import Population.Job.Durable
import Population.Job.Memory

/-!
# Job stores

A store is one of two kinds. Every call first asks whether the caller's run may still go on and is
refused if not; a store in memory asks before anything else, a durable one after it has seen that a
job can end the way it is told to.
-/

namespace Population

inductive Store where
  | memory (m : MemoryStore)
  | durable (d : DurableStore)

namespace Store

def require (permitted : Bool) : Except StoreError Unit :=
  if permitted then .ok () else .error .cancelled

/-- The same call of a store of either kind. -/
def either {α : Type} (onMemory : Transaction MemoryStore α)
    (onDurable : Transaction DurableStore α) : Transaction Store α := fun
  | memory m =>
    let (answer, m) := onMemory m
    (answer, memory m)
  | durable d =>
    let (answer, d) := onDurable d
    (answer, durable d)

def create (permitted : Bool) (now : Int) (id : Text) : Transaction Store Job := do
  require permitted
  either (MemoryStore.create now id) (DurableStore.create now id)

def start (permitted : Bool) (now : Int) (id : Text) : Transaction Store Unit := do
  require permitted
  either (MemoryStore.start now id) (DurableStore.start now id)

def append (permitted : Bool) (now : Int) (id : Text) (kind : Kind) (message : Text) :
    Transaction Store Progress := do
  require permitted
  either (MemoryStore.append now id kind message) (DurableStore.append now id kind message)

/-- Ends a job; without a result the stored one stays. -/
def finish (permitted : Bool) (now : Int) (id : Text) (status : Status)
    (result : Option JobResult) : Transaction Store Unit :=
  either
    (do
      require permitted
      MemoryStore.finish now id status result)
    (do
      require (permitted || !status.isTerminal)
      DurableStore.finish now id status result)

def get (s : Store) (permitted : Bool) (id : Text) : Except StoreError Job := do
  require permitted
  match s with
  | memory m => m.get id
  | durable d => d.get id

def updates (s : Store) (permitted : Bool) (id : Text) (since : Int) :
    Except StoreError (List Progress) := do
  require permitted
  match s with
  | memory m => m.updates id since
  | durable d => d.updates id since

def evict (permitted : Bool) (cutoff : Int) : Transaction Store Nat := do
  require permitted
  either (MemoryStore.evict cutoff) (DurableStore.evict cutoff)

/-- The number of jobs, where the store can tell. -/
def size? : Store → Option Nat
  | memory m => some m.size
  | durable _ => none

/-- Closes the store; a store in memory does not mind. -/
def close : Store → Store
  | memory m => memory m
  | durable d => durable { d with isOpen := false }

/-- Closes the store and opens it again; a store in memory starts empty. -/
def reopen : Store → Store
  | memory m => memory { maxUpdates := m.maxUpdates }
  | durable d => durable { d with isOpen := true }

end Store

end Population
