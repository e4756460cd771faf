import Population.CounterSystem.Basic

/-!
# The text of a counter system

Guards and updates are written in the concrete syntax in which they are read. A system is one block:
a declaration line per counter, then, after a blank line each, the transitions with their guard in
brackets and their updates on one line.
-/

namespace Population

/-- The comparison as `name op value`. -/
def Comparison.text (c : Comparison) : Text :=
  Text.cat [c.name, " ", c.op.symbol, " ", Text.ofInt64 c.value]

/-- The comparisons joined by `&&`, or `true`. -/
def Guard.text (g : Guard) : Text :=
  match g with
  | [] => "true"
  | _ => Text.join " && " (g.map Comparison.text)

/-- The update as a statement: a negative amount is written as a decrement. -/
def Update.text (u : Update) : Text :=
  if u.delta < 0 then Text.cat [u.name, " -= ", Text.ofInt64 (-u.delta), ";"]
  else Text.cat [u.name, " += ", Text.ofInt64 u.delta, ";"]

def Updates.text (us : Updates) : Text :=
  Text.join " " (us.map Update.text)

def Counter.text (v : Counter) : Text :=
  Text.cat ["    int ", v.name, " = ", Text.ofInt64 v.initial, ";\n"]

/-- A transition block with the blank line before it. -/
def Transition.text (t : Transition) : Text :=
  Text.cat
    ["\n    transition ", t.name, " [", t.guard.text, "] \x7b\n",
      if t.updates.isEmpty then [] else Text.cat ["        ", t.updates.text, "\n"],
      "    \x7d\n"]

def CounterSystem.text (s : CounterSystem) : Text :=
  Text.cat
    ["gal ", s.name, " \x7b\n", Text.cat (s.counters.map Counter.text),
      Text.cat (s.transitions.map Transition.text), "\x7d\n"]

end Population
