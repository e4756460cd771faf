import Population.Clock
import Population.Job.Store
import Population.Text.Quoted

/-!
# The job registry

A store together with the clock that dates its entries and the source of its identifiers. Jobs and
subscriptions are named by identifiers that are drawn in sequence, so that none is drawn twice.
-/

namespace Population

def Identifier.nth (n : Nat) : Text :=
  "00000000-0000-4000-8000-" ++ Text.hex 12 n

/-- A store with its clock and identifiers. -/
structure Registry where
  store : Store
  clock : VirtualClock
  drawn : Nat := 0

namespace Registry

def now (r : Registry) : Int :=
  r.clock.now

def draw (r : Registry) : Text × Registry :=
  (Identifier.nth (r.drawn + 1), { r with drawn := r.drawn + 1 })

def call {α : Type} (r : Registry) (transaction : Transaction Store α) :
    Except StoreError α × Registry :=
  let (answer, store) := transaction r.store
  (answer, { r with store })

/-- Registers a new job; an identifier is drawn unless the caller may not go on. -/
def create (r : Registry) (permitted : Bool) : Except StoreError Job × Registry :=
  if permitted then
    let (id, r) := r.draw
    r.call (Store.create true r.now id)
  else (.error .cancelled, r)

def start (r : Registry) (permitted : Bool) (id : Text) : Except StoreError Unit × Registry :=
  r.call (Store.start permitted r.now id)

def append (r : Registry) (permitted : Bool) (id : Text) (kind : Kind) (message : Text) :
    Except StoreError Progress × Registry :=
  r.call (Store.append permitted r.now id kind message)

def finish (r : Registry) (permitted : Bool) (id : Text) (status : Status)
    (result : Option JobResult) : Except StoreError Unit × Registry :=
  r.call (Store.finish permitted r.now id status result)

def evict (r : Registry) (permitted : Bool) (cutoff : Int) : Except StoreError Nat × Registry :=
  r.call (Store.evict permitted cutoff)

def advance (r : Registry) (d : Int) : Registry :=
  { r with clock := (r.clock.advance d).1 }

end Registry

end Population
