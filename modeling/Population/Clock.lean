import Population.Text.Basic

/-!
# Virtual clocks

A clock that moves only when told to, and never backward. A timer is released once the clock is at
or past its deadline; timers that come due together are released in order of deadline, those with
the same deadline in order of creation.
-/

namespace Population

/-- A timer that has not been released. -/
structure Timer where
  /-- Timers are numbered from one in order of creation. -/
  number : Nat
  /-- The time in nanoseconds at which it is due. -/
  deadline : Int
  deriving DecidableEq

/-- A released timer and the time it is told. -/
structure Release where
  timer : Nat
  time : Int
  deriving DecidableEq

/-- A clock with its pending timers. -/
structure VirtualClock where
  /-- Nanoseconds since the epoch. -/
  now : Int
  created : Nat := 0
  /-- The pending timers by deadline, then by number. -/
  timers : List Timer := []
  deriving DecidableEq

namespace VirtualClock

/-- Puts a timer behind those with an earlier or equal deadline. -/
def enqueue (t : Timer) : List Timer → List Timer
  | [] => [t]
  | u :: us => if t.deadline < u.deadline then t :: u :: us else u :: enqueue t us

def pending (c : VirtualClock) : Nat :=
  c.timers.length

def isDue (now : Int) (t : Timer) : Bool :=
  t.deadline ≤ now

/-- Creates a timer; one that is due at once is released and never pending. -/
def after (d : Int) (c : VirtualClock) : VirtualClock × List Release :=
  let number := c.created + 1
  if d ≤ 0 then ({ c with created := number }, [⟨number, c.now⟩])
  else ({ c with created := number, timers := enqueue ⟨number, c.now + d⟩ c.timers }, [])

/-- Moves the clock forward to a time and releases what is due; an earlier time changes nothing. -/
def set (t : Int) (c : VirtualClock) : VirtualClock × List Release :=
  if t ≤ c.now then (c, [])
  else
    ({ c with now := t, timers := c.timers.dropWhile (isDue t) },
      (c.timers.takeWhile (isDue t)).map fun u => ⟨u.number, t⟩)

def advance (d : Int) (c : VirtualClock) : VirtualClock × List Release :=
  c.set (c.now + d)

/-- What can be asked of a clock. -/
inductive Call where
  | after (d : Int)
  | advance (d : Int)
  | set (t : Int)
  deriving DecidableEq

def step (c : VirtualClock) : Call → VirtualClock × List Release
  | .after d => c.after d
  | .advance d => c.advance d
  | .set t => c.set t

/-- The clock and all releases, in order, after a sequence of calls. -/
def run (c : VirtualClock) : List Call → VirtualClock × List Release
  | [] => (c, [])
  | call :: calls =>
    let (c₁, now) := c.step call
    let (c₂, later) := c₁.run calls
    (c₂, now ++ later)

/-- The time that has passed since `t`, cut off at the ends of the 64-bit range. -/
def since (c : VirtualClock) (t : Int) : Int :=
  max Int64.minValue.toInt (min Int64.maxValue.toInt (c.now - t))

@[simp]
theorem set_now (t : Int) (c : VirtualClock) : (c.set t).1.now = max c.now t := by
  unfold set
  split <;> simp only <;> omega

@[simp]
theorem after_now (d : Int) (c : VirtualClock) : (c.after d).1.now = c.now := by
  unfold after
  split <;> rfl

end VirtualClock

end Population
