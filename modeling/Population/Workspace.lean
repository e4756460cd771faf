import Population.Text.Basic

/-!
# Workspaces

A path is a text in which slashes separate components. Cleaning removes empty components and dots
and resolves a double dot against the component before it.

The folder in which the program runs: files with their contents, and folders. A path is followed
component by component, so that every component but the last has to be a folder. What a path may
look like is limited: it holds no zero byte, and neither it nor a component is too long.
-/

namespace Population

open Text (byte)

namespace Path

def isRooted (p : Text) : Bool :=
  p.head? == some (byte '/')

/-- Adds a component to those before it, the last one first. -/
def addComponent (rooted : Bool) (done : List Text) (c : Text) : List Text :=
  if c.isEmpty || c == "." then done
  else if c == ".." then
    match done with
    | [] => if rooted then [] else [c]
    | top :: rest => if top == ".." then c :: done else rest
  else c :: done

def components (p : Text) : List Text :=
  ((Text.split (byte '/') p).foldl (addComponent (isRooted p)) []).reverse

/-- The shortest path that means the same; the empty path becomes a dot. -/
def clean (p : Text) : Text :=
  let body := Text.join "/" (components p)
  if isRooted p then "/" ++ body
  else if body.isEmpty then "." else body

def join (folder name : Text) : Text :=
  if folder.isEmpty then clean name else clean (Text.cat [folder, "/", name])

end Path

/-- What goes wrong with a file. -/
inductive FileFault where
  | missing
  | notFolder
  | isFolder
  | alreadyThere
  | tooLong
  | zeroByte
  deriving DecidableEq

def FileFault.reason : FileFault → Text
  | missing => "no such file or directory"
  | notFolder => "not a directory"
  | isFolder => "is a directory"
  | alreadyThere => "file exists"
  | tooLong => "file name too long"
  | zeroByte => "invalid argument"

/-- A step on a path that failed. -/
structure FileError where
  step : Text
  path : Text
  fault : FileFault
  deriving DecidableEq

def FileError.message (e : FileError) : Text :=
  Text.cat [e.step, " ", e.path, ": ", e.fault.reason]

/-- Files and folders by their cleaned paths. -/
structure Workspace where
  files : List (Text × Text) := []
  folders : List Text := []
  deriving DecidableEq

namespace Workspace

inductive Node where
  | file (content : Text)
  | folder
  deriving DecidableEq

/-- Whether a cleaned path leads out of the workspace, or to the workspace itself. -/
def isOutside (p : Text) : Bool :=
  p == "." || p == "/" || (Path.components p).all (· == "..")

def node? (w : Workspace) (p : Text) : Option Node :=
  if isOutside p || w.folders.contains p then some .folder
  else (w.files.lookup p).map .file

def maxComponent : Nat := 255

def maxPath : Nat := 4095

/-- Where a path leads: the folder that its last component stands in, and that component. A path
whose last component is made of dots leads to a folder itself. -/
structure Target where
  folder : Text
  name : Option Text
  /-- Whether the path ends in a slash, so that it can only mean a folder. -/
  closed : Bool
  deriving DecidableEq

def Target.place (t : Target) : Except FileFault Text :=
  match t.name with
  | none => .ok t.folder
  | some c => if maxComponent < c.length then .error .tooLong else .ok (Path.join t.folder c)

def targetIn (folder c : Text) (closed : Bool) : Target :=
  if c == "." || c == ".." then ⟨Path.join folder c, none, closed⟩ else ⟨folder, some c, closed⟩

/-- Follows components from a place that has to be a folder. -/
def follow (w : Workspace) (closed : Bool) (here : Text) : List Text → Except FileFault Target
  | [] => .ok ⟨here, none, closed⟩
  | [c] =>
    match w.node? here with
    | some .folder => .ok (targetIn here c closed)
    | some (.file _) => .error .notFolder
    | none => .error .missing
  | c :: cs =>
    match w.node? here with
    | some .folder => (targetIn here c closed).place >>= fun next => w.follow closed next cs
    | some (.file _) => .error .notFolder
    | none => .error .missing

def target (w : Workspace) (p : Text) : Except FileFault Target :=
  if p.contains 0 then .error .zeroByte
  else if p.isEmpty then .error .missing
  else if maxPath < p.length then .error .tooLong
  else
    let steps := (Text.split (byte '/') p).filter (!·.isEmpty)
    w.follow (p.getLast? == some (byte '/')) (if Path.isRooted p then "/" else ".") steps

def find (w : Workspace) (p : Text) : Except FileFault Node := do
  let t ← w.target p
  match w.node? (← t.place) with
  | none => .error .missing
  | some .folder => .ok .folder
  | some (.file content) => if t.closed then .error .notFolder else .ok (.file content)

def hasFolder (w : Workspace) (p : Text) : Bool :=
  match w.find p with
  | .ok .folder => true
  | _ => false

def read (w : Workspace) (p : Text) : Except FileError Text :=
  match w.find p with
  | .ok (.file t) => .ok t
  | .ok .folder => .error ⟨"read", p, .isFolder⟩
  | .error f => .error ⟨"open", p, f⟩

def put (w : Workspace) (p content : Text) : Workspace :=
  if w.files.any (·.1 == p) then
    { w with files := w.files.map fun (q, t) => if q == p then (q, content) else (q, t) }
  else { w with files := w.files ++ [(p, content)] }

/-- Where a file is written: into a folder that exists, and not in place of one. -/
def writable (w : Workspace) (p : Text) : Except FileFault Text := do
  let t ← w.target p
  if t.closed || t.name.isNone then throw .isFolder
  let place ← t.place
  if w.node? place = some .folder then throw .isFolder
  return place

def write (w : Workspace) (p content : Text) : Except FileError Workspace :=
  match w.writable p with
  | .ok place => .ok (w.put place content)
  | .error f => .error ⟨"open", p, f⟩

/-- Makes one folder where there is nothing. -/
def addFolder (w : Workspace) (p : Text) : Except FileFault Workspace := do
  let t ← w.target p
  if t.name.isNone then throw .alreadyThere
  let place ← t.place
  if (w.node? place).isSome then throw .alreadyThere
  return { w with folders := w.folders ++ [place] }

/-- The path of the folder above: without the last component and the slash before it. -/
def above (p : Text) : Text :=
  let isSlash (b : UInt8) : Bool := b == byte '/'
  (((p.reverse.dropWhile isSlash).dropWhile (!isSlash ·)).drop 1).reverse

/-- Makes a folder where there is none; that there is one already is no error. -/
def ensureFolder (w : Workspace) (p : Text) : Except FileError Workspace :=
  match w.addFolder p with
  | .ok w' => .ok w'
  | .error f => if w.hasFolder p then .ok w else .error ⟨"mkdir", p, f⟩

/-- Makes a folder with all folders above it; each of them has a shorter path. -/
def makeFolders : (fuel : Nat) → Workspace → Text → Except FileError Workspace
  | 0, w, p => w.ensureFolder p
  | fuel + 1, w, p =>
    match w.find p with
    | .ok .folder => .ok w
    | .ok (.file _) => .error ⟨"mkdir", p, .notFolder⟩
    | .error _ => do
      let w ← if (above p).isEmpty then pure w else makeFolders fuel w (above p)
      w.ensureFolder p

def makeFolder (w : Workspace) (p : Text) : Except FileError Workspace :=
  makeFolders p.length w p

def foldersAbove (p : Text) : List Text :=
  let cs := Path.components p
  (List.range cs.length).drop 1 |>.map fun n =>
    (if Path.isRooted p then Text.ofString "/" else []) ++ Text.join "/" (cs.take n)

/-- A workspace with files, and the folders that hold them. -/
def ofFiles (files : List (Text × Text)) : Workspace :=
  files.foldl (fun w (p, t) =>
    let q := Path.clean p
    { w.put q t with
      folders := w.folders ++ (foldersAbove q).filter fun f => !w.folders.contains f }) {}

end Workspace

end Population
