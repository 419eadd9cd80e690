import ClassMachine.Files.Basic
import ClassMachine.Table

/-!
A file system in memory: a tree of directories, and the working directory in it. Paths are looked up
part by part, from the root of the tree or from the working directory.
-/

namespace ClassMachine.Files

/-- A file, a file that stays empty, or a directory with its entries. -/
inductive Tree
  | file (data : Bytes)
  | null
  | dir (entries : List (Bytes × Tree))

namespace Tree

def find? : List Bytes → Tree → Option Tree
  | [], t => some t
  | name :: rest, .dir entries => (Table.find name entries).bind (find? rest)
  | _ :: _, _ => none

def insert (node : Tree) : List Bytes → Tree → Tree
  | [], _ => node
  | name :: rest, .dir entries =>
    .dir (Table.put name (insert node rest ((Table.find name entries).getD (.dir []))) entries)
  | _ :: _, t => t

def remove : List Bytes → Tree → Tree
  | [name], .dir entries => .dir (entries.filter fun e => e.1 ≠ name)
  | name :: rest, .dir entries =>
    match Table.find name entries with
    | some child => .dir (Table.put name (remove rest child) entries)
    | none => .dir entries
  | _, t => t

def common : Tree :=
  .dir [(utf8 "dev", .dir [(utf8 "null", .null)]), (utf8 "etc", .dir []), (utf8 "proc", .dir []),
    (utf8 "tmp", .dir []), (utf8 "usr", .dir [])]

end Tree

structure Volume where
  root : Tree
  home : List Bytes

namespace Volume

/-- A volume with an empty working directory, whose name no path can have. -/
def empty : Volume :=
  let home := [utf8 "tmp", [slash]]
  { root := Tree.insert (.dir []) home Tree.common, home }

def node? (v : Volume) (place : List Bytes) : Option Tree := v.root.find? place

def isDir (v : Volume) (place : List Bytes) : Bool := (v.node? place) matches some (.dir _)

def put (node : Tree) (place : List Bytes) (v : Volume) : Volume :=
  { v with root := Tree.insert node place v.root }

def remove (place : List Bytes) (v : Volume) : Volume := { v with root := v.root.remove place }

def step (v : Volume) (place : List Bytes) (part : Bytes) : Except Fault (List Bytes) :=
  if ¬ v.isDir place then .error .notDirectory
  else if part = [] ∨ part = dot then .ok place
  else if part = dotDot then .ok place.dropLast
  else if 255 < part.length then .error .nameTooLong
  else if (v.node? (place ++ [part])).isSome then .ok (place ++ [part])
  else .error .missing

def walk (v : Volume) (place : List Bytes) : List Bytes → Except Fault (List Bytes)
  | [] => .ok place
  | part :: rest => do v.walk (← v.step place part) rest

def checkPath (path : Bytes) : Except Fault Unit :=
  if path = [] then .error .missing
  else if 0 ∈ path then .error .invalid
  else if 4096 ≤ path.length then .error .nameTooLong
  else .ok ()

def start (v : Volume) (path : Bytes) : List Bytes := if isRooted path then [] else v.home

def look (v : Volume) (path : Bytes) : Except Fault Content := do
  checkPath path
  match v.node? (← v.walk (v.start path) (Bytes.splitOn slash path)) with
  | some (.file data) => return .file data
  | some .null => return .file []
  | some (.dir _) => return .directory
  | none => throw .missing

/-- Replaces or makes a file. Its name is not followed by a slash. -/
def write (v : Volume) (path data : Bytes) : Except Fault Volume := do
  checkPath path
  let parts := (Bytes.splitOn slash path).filter (· ≠ [])
  let last := parts.getLastD []
  let place ← v.walk (v.start path) parts.dropLast
  if ¬ v.isDir place then throw .notDirectory
  if last ∈ [[], dot, dotDot] ∨ path.getLast? = some slash then throw .isDirectory
  match v.step place last with
  | .ok place =>
    match v.node? place with
    | some (.dir _) => throw .isDirectory
    | some .null => return v
    | _ => return v.put (.file data) place
  | .error .missing => return v.put (.file data) (place ++ [last])
  | .error fault => throw fault

def fileSystem : FileSystem (StateM Volume) where
  look path := do return (← get).look path
  write path data := do
    match (← get).write path data with
    | .ok v => set v; return .ok ()
    | .error fault => return .error fault

end Volume

end ClassMachine.Files
