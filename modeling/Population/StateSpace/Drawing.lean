import Population.StateSpace.Basic

/-!
# Drawing state spaces

The reachability graph as a Graphviz digraph or as a Mermaid flowchart. States are labelled with
their counters that are not zero, edges with their transitions; states may be highlighted.
-/

namespace Population.StateSpace

open Text (byte)

/-- The counters that are not zero, one a line; `0` when there is none. -/
def label (m : Marking) : Text :=
  let shown := (m.names.filter fun n => m.get n != 0).map fun n =>
    Text.cat [n, "=", Text.ofInt64 (m.get n)]
  if shown.isEmpty then "0" else Text.join "\n" shown

/-- A text inside a quoted Graphviz string. -/
def escapeQuoted (t : Text) : Text :=
  t.flatMap fun b =>
    if b = byte '\\' then "\\\\"
    else if b = byte '"' then "\\\""
    else if b = byte '\n' then "\\n"
    else [b]

/-- A text inside a Mermaid label. -/
def escapeMarkup (t : Text) : Text :=
  t.flatMap fun b =>
    if b = byte '"' then "&quot;"
    else if b = byte '<' then "&lt;"
    else if b = byte '>' then "&gt;"
    else if b = byte '|' then "&#124;"
    else if b = byte '\n' then "<br/>"
    else [b]

def stateName (id : Nat) : Text :=
  "s" ++ Text.ofNat id

/-- One line per edge, by number of the source. -/
def edgeLines (s : StateSpace) (line : Nat → Edge → Text) : Text :=
  Text.cat ((s.edges.toList.zipIdx).flatMap fun (es, id) => es.map (line id))

/-- The state space as a Graphviz digraph; the initial state is drawn double. -/
def toGraphviz (s : StateSpace) (name : Text) (highlighted : Marking → Bool) : Text :=
  let states := s.markings.zipIdx.map fun (m, id) =>
    Text.cat
      ["  ", stateName id, " [label=\"", escapeQuoted (label m), "\"",
        if id = 0 then " peripheries=2" else "",
        if highlighted m then " style=filled fillcolor=\"#f4a6a6\"" else "", "];\n"]
  Text.cat
    ["digraph \"", escapeQuoted name, "\" \x7b\n  rankdir=LR;\n",
      "  node [fontname=\"Helvetica\" shape=box];\n  edge [fontname=\"Helvetica\"];\n\n",
      Text.cat states, "\n",
      s.edgeLines fun id e =>
        Text.cat ["  ", stateName id, " -> ", stateName e.target, " [label=\"",
          escapeQuoted e.transition, "\"];\n"],
      "\x7d\n"]

def toMermaid (s : StateSpace) (highlighted : Marking → Bool) : Text :=
  let states := s.markings.zipIdx.map fun (m, id) =>
    Text.cat
      ["  ", stateName id, "[\"", escapeMarkup (label m), "\"]\n",
        if highlighted m then Text.cat ["  class ", stateName id, " unsafe\n"] else []]
  Text.cat
    ["graph LR\n  classDef unsafe fill:#f4a6a6\n", Text.cat states,
      s.edgeLines fun id e =>
        Text.cat ["  ", stateName id, " -->|", escapeMarkup e.transition, "| ",
          stateName e.target, "\n"]]

end Population.StateSpace
