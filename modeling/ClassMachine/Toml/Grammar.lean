import ClassMachine.Toml.Scalar
import ClassMachine.Toml.Strings

/-!
The lines of a TOML text.
-/

namespace ClassMachine.Toml

def skipBlanks (s : Bytes) : Bytes := s.dropWhile isBlank

def skipGap (inComment : Bool) : Bytes → Bytes
  | [] => []
  | b :: rest =>
    if inComment then skipGap (b != ch '\n') rest
    else if isBlank b || isBreak b then skipGap false rest
    else if b = ch '#' then skipGap true rest
    else b :: rest

def lineEnd (s : Bytes) : Option Bytes :=
  match skipBlanks s with
  | [] => some []
  | b :: rest =>
    if isBreak b then some rest
    else if b = ch '#' then some (skipGap true rest)
    else none

def keyPart : Bytes → Option (Bytes × Bytes)
  | 34 :: s => lineString (ch '"') s
  | 39 :: s => lineString (ch '\'') s
  | s => if (s.takeWhile isBare).isEmpty then none else some (s.takeWhile isBare, s.dropWhile isBare)

def keyParts : Nat → Bytes → Option (Path × Bytes)
  | 0, _ => none
  | n + 1, s => do
    let (part, s) ← keyPart (skipBlanks s)
    match skipBlanks s with
    | 46 :: s => (keyParts n s).map fun (more, s) => (part :: more, s)
    | s => some ([part], s)

def key (s : Bytes) : Option (Path × Bytes) := keyParts (s.length + 1) s

def entry (value : Bytes → Option (Expr × Bytes)) (s : Bytes) : Option ((Path × Expr) × Bytes) := do
  let (path, s) ← key s
  let s ← expect (ch '=') s
  let (v, s) ← value (skipBlanks s)
  return ((path, v), s)

/-- Reads at most `n` members up to a closing bracket; commas stand between them, and one may stand
after the last. -/
def members {α : Type} (close : UInt8) (member : Bytes → Option (α × Bytes)) :
    Nat → Bytes → Option (List α × Bytes)
  | 0, _ => none
  | n + 1, s =>
    match expect close (skipGap false s) with
    | some s => some ([], s)
    | none => do
      let (x, s) ← member (skipGap false s)
      let s := skipGap false s
      match expect close s with
      | some s => some ([x], s)
      | none => do
        let s ← expect (ch ',') s
        let (more, s) ← members close member n s
        return (x :: more, s)

/-- Reads a value with at most `depth` brackets around each other. -/
def value : Nat → Bytes → Option (Expr × Bytes)
  | 0, _ => none
  | _ + 1, 34 :: 34 :: 34 :: s => (linesString (ch '"') s).map fun (t, s) => (.scalar (.string t), s)
  | _ + 1, 39 :: 39 :: 39 :: s => (linesString (ch '\'') s).map fun (t, s) => (.scalar (.string t), s)
  | _ + 1, 34 :: s => (lineString (ch '"') s).map fun (t, s) => (.scalar (.string t), s)
  | _ + 1, 39 :: s => (lineString (ch '\'') s).map fun (t, s) => (.scalar (.string t), s)
  | depth + 1, 91 :: s =>
    (members (ch ']') (value depth) (s.length + 1) s).map fun (items, s) => (.array items, s)
  | depth + 1, 123 :: s =>
    (members (ch '}') (entry (value depth)) (s.length + 1) s).map fun (es, s) => (.inline es, s)
  | _ + 1, s =>
    let (w, rest) := word s
    (scalar w).map fun v => (.scalar v, rest)

def line : Bytes → Option (Line × Bytes)
  | 91 :: 91 :: s => do
    let (path, s) ← key s
    let s ← lineEnd (← expect (ch ']') (← expect (ch ']') s))
    return (.element path, s)
  | 91 :: s => do
    let (path, s) ← key s
    let s ← lineEnd (← expect (ch ']') s)
    return (.table path, s)
  | s => do
    let ((path, v), s') ← entry (value (s.length + 1)) s
    return (.entry path v, ← lineEnd s')

def linesFrom : Nat → Bytes → Option (List Line)
  | n, s =>
    match skipGap false s with
    | [] => some []
    | s =>
      match n with
      | 0 => none
      | n + 1 => do
        let (l, s) ← line s
        return l :: (← linesFrom n s)

/-- Whether a text has no control characters but tabs and line breaks. A carriage return is part of
a line break. -/
def isPlain : Bytes → Bool
  | [] => true
  | 13 :: rest => rest.head? == some 10 && isPlain rest
  | b :: rest => (32 ≤ b || b == 9 || b == 10) && b != 127 && isPlain rest

def dropMark : Bytes → Bytes
  | 0xEF :: 0xBB :: 0xBF :: s => s
  | 0xFF :: 0xFE :: s => s
  | 0xFE :: 0xFF :: s => s
  | s => s

def lines (text : Bytes) : Option (List Line) :=
  let s := dropMark text
  if Utf8.valid s && isPlain s then linesFrom s.length s else none

end ClassMachine.Toml
