import ClassMachine.Bytes

/-!
Paths of files: parts between slashes. A path is tidied by its text alone, whatever files there are.
-/

namespace ClassMachine.Files

def slash : UInt8 := 47

def dot : Bytes := utf8 "."

def dotDot : Bytes := utf8 ".."

/-- Adds a part to a tidy path, of which the last part comes first: `..` takes away a part, if there
is one that is not `..` itself. -/
def addPart (rooted : Bool) (tidy : List Bytes) (part : Bytes) : List Bytes :=
  if part = [] ∨ part = dot then tidy
  else if part = dotDot then
    match tidy with
    | [] => if rooted then [] else [dotDot]
    | last :: rest => if last = dotDot then dotDot :: tidy else rest
  else part :: tidy

def isRooted (path : Bytes) : Bool := path.head? == some slash

def clean (path : Bytes) : Bytes :=
  let parts := (Bytes.splitOn slash path).foldl (addPart (isRooted path)) []
  let joined := Bytes.join [slash] parts.reverse
  if isRooted path then slash :: joined else if joined = [] then dot else joined

def join (dir name : Bytes) : Bytes :=
  if dir = [] then clean name else clean (dir ++ [slash] ++ name)

end ClassMachine.Files
