import Population.Yaml.Value

/-!
# Documents

A document is a tree of scalars, lists and maps. A node may be referred to by name in other places,
even inside itself, so references are nodes of their own and the nodes with names stand in a table
beside the tree.
-/

namespace Population.Yaml

/-- A part of a document; lines are counted from one. -/
inductive Node where
  | scalar (line : Nat) (tag text : Text)
  | list (line : Nat) (tag : Text) (items : List Node)
  | map (line : Nat) (tag : Text) (entries : List (Node × Node))
  /-- A reference to the node with a name: which reference it is, and to which node of the table. -/
  | reference (line : Nat) (name : Text) (number target : Nat)
  deriving Inhabited

namespace Node

def line : Node → Nat
  | scalar n _ _ => n
  | list n _ _ => n
  | map n _ _ => n
  | reference n _ _ _ => n

/-- The tag of a node, which a reference has not. -/
def tag : Node → Text
  | scalar _ t _ => t
  | list _ t _ => t
  | map _ t _ => t
  | reference .. => []

/-- How a node is written, as far as it is a single word. -/
def text : Node → Text
  | scalar _ _ t => t
  | reference _ name _ _ => name
  | _ => []

def empty (line : Nat) : Node :=
  scalar line "!!null" []

/-- Whether two nodes are of a kind and read the same; lists and maps are not looked into. -/
def sameKey : Node → Node → Bool
  | scalar _ _ a, scalar _ _ b => a == b
  | reference _ a _ _, reference _ b _ _ => a == b
  | list .., list .. => true
  | map .., map .. => true
  | _, _ => false

/-- The tag of the key under which a map takes over the entries of others. -/
def mergeTag : Text := "!!merge"

def isMergeKey : Node → Bool
  | scalar _ tag text => tag == mergeTag && text == "<<"
  | _ => false

end Node

def standardTags : Text := "tag:yaml.org,2002:"

def shortTag (tag : Text) : Text :=
  match Text.after? tag standardTags with
  | some rest => "!!" ++ rest
  | none => tag

/-- The tag of a scalar that has none. -/
def scalarTag (text : Text) (plain : Bool) : Text :=
  if !plain then "!!str"
  else if text = "<<" then Node.mergeTag
  else (Value.ofPlain true text).tag

structure Document where
  root : Node
  named : Array Node := #[]
  references : Nat := 0

end Population.Yaml
