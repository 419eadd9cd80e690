import ClassMachine.Table
import ClassMachine.Toml.Grammar

/-!
Putting the lines of a TOML text together. A table comes up by being defined or by being mentioned:
as the table around another one, in a dotted key, or as an inline table under way. What was only
mentioned may still be defined once, and then keeps what it holds already; only an array gives way
to what it is defined as. Beyond that a key has one value.

An inline table is put together twice: in the document, and for itself. The two can come apart, since
the document keeps a table that it has. Where they have not, one is changed with the other.
-/

namespace ClassMachine.Toml

inductive Value
  | scalar (v : Scalar)
  | array (items : List Value)
  | table (entries : List (Bytes × Value))
  /-- An array of tables, which grows by headers: the latest one, and those before it. -/
  | tables (latest : List (Bytes × Value)) (earlier : List (List (Bytes × Value)))
  /-- In an inline table under way: what the document has at the same place, now and later. -/
  | same

abbrev Entries := List (Bytes × Value)

/-- The table that a value is. Of an array of tables it is the latest one. -/
def Value.entries? : Value → Option Entries
  | .table es => some es
  | .tables latest _ => some latest
  | _ => none

mutual

/-- A value by itself, when the document has `there` at its place. -/
def Value.settle (there : Option Value) : Value → Value
  | .same => there.getD .same
  | .table es => .table (Entries.settle ((there.bind Value.entries?).getD []) es)
  | v => v

/-- The entries of a table by itself, when the document has the table `there` at its place. -/
def Entries.settle (there : Entries) : List (Bytes × Value) → Entries
  | [] => []
  | (k, v) :: rest => (k, v.settle (Table.find k there)) :: Entries.settle there rest

end

namespace Entries

def at? : Path → Entries → Option Entries
  | [], es => some es
  | k :: path, es => ((Table.find k es).bind Value.entries?).bind (at? path)

def putAt (k : Bytes) (v : Value) : Path → Entries → Entries
  | [], es => Table.put k v es
  | k' :: path, es =>
    match Table.find k' es with
    | some (.table inner) => Table.put k' (.table (putAt k v path inner)) es
    | some (.tables latest earlier) => Table.put k' (.tables (putAt k v path latest) earlier) es
    | _ => es

/-- Makes the value that a path leads to one by itself. What is on the way stays as it is. -/
def settleAt (there : Entries) : Path → Entries → Entries
  | [], es => es
  | [k], es =>
    match Table.find k es with
    | some v => Table.put k (v.settle (Table.find k there)) es
    | none => es
  | k :: path, es =>
    match Table.find k es with
    | some (.table inner) =>
      let there := ((Table.find k there).bind Value.entries?).getD []
      Table.put k (.table (settleAt there path inner)) es
    | _ => es

def isSame : Path → Entries → Bool
  | [], _ => false
  | k :: path, es =>
    match Table.find k es with
    | some .same => true
    | some (.table inner) => isSame path inner
    | _ => false

/-- Sets the value of a key in the table at a path, with the tables on the way. There is none behind
a value of another sort. -/
def insert? (k : Bytes) (v : Value) : Path → Entries → Option Entries
  | [], es => some (Table.put k v es)
  | k' :: path, es =>
    match Table.find k' es with
    | none => (insert? k v path []).map fun inner => Table.put k' (.table inner) es
    | some (.table inner) =>
      (insert? k v path inner).map fun inner => Table.put k' (.table inner) es
    | some _ => none

end Entries

structure Draft where
  root : Entries := []
  mentioned : List Path := []
  arrays : List Path := []
  /-- The keys of the headers and the lines, the latest first. -/
  keys : List Path := []

abbrev Drafting := StateT Draft Option

namespace Draft

def refuse {α : Type} : Drafting α := fun _ => none

def note (path : Path) : Drafting Unit := modify fun d => { d with keys := path :: d.keys }

def mention (path : Path) : Drafting Unit := modify fun d => { d with mentioned := path :: d.mentioned }

def unmention (path : Path) : Drafting Unit :=
  modify fun d => { d with mentioned := d.mentioned.filter (· ≠ path) }

/-- What is taken down for the key `k` of the table `context`. Under the empty key it is taken down
for the table itself, unless that is the whole document. -/
def subject (context : Path) (k : Bytes) : Path :=
  if k = [] ∧ context ≠ [] then context else context ++ [k]

def markArray (path : Path) (isArray : Bool) : Drafting Unit := modify fun d =>
  let others := d.arrays.filter (· ≠ path)
  { d with arrays := if isArray then path :: others else others }

def put (context : Path) (k : Bytes) (v : Value) : Drafting Unit :=
  modify fun d => { d with root := Entries.putAt k v context d.root }

def define (context : Path) (k : Bytes) (v : Value) : Drafting Bool := do
  let d ← get
  let path := context ++ [k]
  match Entries.at? context d.root with
  | none => refuse
  | some es =>
    match Table.find k es with
    | none => do
      put context k v
      return true
    | some there =>
      if path ∈ d.mentioned then do
        unmention path
        if path ∈ d.arrays then put context k (v.settle there)
        return path ∈ d.arrays
      else refuse

def openTables (done : Path) : Path → Drafting Unit
  | [] => pure ()
  | k :: path => do
    let d ← get
    match Entries.at? done d.root with
    | none => refuse
    | some es =>
      match Table.find k es with
      | none => do
        mention (done ++ [k])
        put done k (.table [])
      | some _ => pure ()
      openTables (done ++ [k]) path

def addElement (context : Path) (k : Bytes) : Drafting Unit := do
  let d ← get
  match Entries.at? context d.root with
  | none => refuse
  | some es =>
    match Table.find k es with
    | none => put context k (.tables [] [])
    | some (.tables latest earlier) => put context k (.tables [] (latest :: earlier))
    | some _ => refuse

def enter (path : Path) (element : Bool) : Drafting Unit := do
  let context := path.dropLast
  openTables [] context
  match path.getLast? with
  | none => refuse
  | some k => if element then addElement context k else discard (define context k (.table []))

/-- Enters the tables of a dotted key inside `context`, one after the other; `done` leads to the first.
An inline table under way keeps an array that gives way there. -/
def enterDotted (context done : Path) (es : Entries) : Path → Drafting Entries
  | [] => pure es
  | k :: path => do
    let here := done ++ [k]
    let d ← get
    let there := (Entries.at? context d.root).getD []
    mention (context ++ here)
    enter (context ++ here) false
    let es := if context ++ here ∈ d.arrays then Entries.settleAt there here es else es
    enterDotted context here es path

/-- Puts a value into the inline table under way for `context`. What is behind a table of the document
goes there. -/
def putInline (context path : Path) (v : Value) (es : Entries) : Drafting Entries := do
  let way := path.dropLast
  let k := path.getLastD []
  if Entries.isSame way es then do
    let d ← get
    let there := (Entries.at? (context ++ way) d.root).bind (Table.find k)
    put (context ++ way) k (v.settle there)
    return es
  else match Entries.insert? k v way es with
    | some es => return es
    | none => refuse

mutual

/-- The value of the key `k` of a table. An inline table is entered like one with a header, and is put
together for itself as well. -/
def evaluate (context : Path) (k : Bytes) (element : Bool) : Expr → Drafting Value
  | .scalar v => pure (.scalar v)
  | .array items => do
    markArray (subject context k) true
    return .array (← evaluateItems context k items)
  | .inline entries => do
    let path := context ++ [k]
    mention path
    enter path element
    return .table (← assignAll path entries [])

def evaluateItems (context : Path) (k : Bytes) : List Expr → Drafting (List Value)
  | [] => pure []
  | e :: rest => do
    let v ← evaluate context k true e
    let there := (Entries.at? (context ++ [k]) (← get).root).map Value.table
    return v.settle there :: (← evaluateItems context k rest)

def assignAll (context : Path) : List (Path × Expr) → Entries → Drafting Entries
  | [], es => pure es
  | (path, e) :: rest, es => do
    let inner := context ++ path.dropLast
    let k := path.getLastD []
    let es ← enterDotted context [] es path.dropLast
    note (inner ++ [k])
    let v ← evaluate inner k false e
    let taken ← define inner k v
    markArray (subject inner k) (e matches .array _)
    assignAll context rest (← putInline context path (if taken then .same else v) es)

end

def addLines (context : Path) : List Line → Drafting Unit
  | [] => pure ()
  | .table path :: rest => do
    enter path false
    markArray path false
    note path
    addLines path rest
  | .element path :: rest => do
    enter path true
    markArray path false
    note path
    addLines path rest
  | .entry path e :: rest => do
    let _ ← assignAll context [(path, e)] []
    addLines context rest

end Draft

structure Document where
  root : Entries
  keys : List Path

def parse (text : Bytes) : Option Document := do
  let ls ← lines text
  let (_, d) ← Draft.addLines [] ls {}
  return { root := d.root, keys := d.keys.reverse }

def escapeByte (b : UInt8) : Bytes :=
  if b = 34 ∨ b = 92 then [92, b]
  else if b = 8 then utf8 "\\b"
  else if b = 9 then utf8 "\\t"
  else if b = 10 then utf8 "\\n"
  else if b = 12 then utf8 "\\f"
  else if b = 13 then utf8 "\\r"
  else if b < 32 ∨ b = 127 then utf8 "\\u" ++ Bytes.hex 4 b.toNat
  else [b]

def keyPartText (part : Bytes) : Bytes :=
  if part ≠ [] ∧ part.all isBare then part else [34] ++ part.flatMap escapeByte ++ [34]

def keyText (path : Path) : Bytes := Bytes.join (utf8 ".") (path.map keyPartText)

end ClassMachine.Toml
