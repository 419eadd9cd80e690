import ClassMachine.Text.Utf8
import ClassMachine.Toml.Syntax

/-!
Strings: in double quotes with escapes, in single quotes without, on one line or, between three
quotes, on several.
-/

namespace ClassMachine.Toml

/-- Splits a string of one line from what follows its closing quote. In double quotes, a backslash
keeps the next byte from closing, and is not the last byte of the line. -/
def spanLine (quote : UInt8) : Bytes → Option (Bytes × Bytes)
  | [] => none
  | b :: rest =>
    if b = quote then some ([], rest)
    else if isBreak b then none
    else if b = ch '\\' ∧ quote = ch '"' then
      match rest with
      | [] => none
      | c :: rest =>
        if isBreak c then none
        else (spanLine quote rest).map fun (s, after) => (b :: c :: s, after)
    else (spanLine quote rest).map fun (s, after) => (b :: s, after)

/-- Splits a string of several lines from what follows its three closing quotes. One or two more
quotes in front of these belong to the string, and a third one if it follows a backslash. -/
def spanLines (quote : UInt8) (afterBackslash : Bool) : Bytes → Option (Bytes × Bytes)
  | [] => none
  | b :: rest =>
    if b = quote ∧ rest.take 2 = [quote, quote] then
      let rest := rest.drop 2
      let extra := rest.takeWhile (· == quote)
      if extra.length ≤ (if afterBackslash then 3 else 2) then some (extra, rest.drop extra.length)
      else none
    else if b = ch '\\' ∧ quote = ch '"' then
      match rest with
      | [] => none
      | c :: rest =>
        (spanLines quote (c == ch '\\') rest).map fun (s, after) => (b :: c :: s, after)
    else (spanLines quote false rest).map fun (s, after) => (b :: s, after)

def codePoint (hex : Bytes) : Option Bytes := do
  let ds ← hex.mapM digitValue
  let n := ds.foldl (fun n d => n * 16 + d) 0
  if n.isValidChar then some (Utf8.encode (Char.ofNat n)) else none

def endsLine (s : Bytes) : Bool := (s.dropWhile isBlank).head?.any isBreak

/-- Replaces escapes. A backslash at the end of a line takes away the blanks and line breaks up to
the next text; `skipping` says that this is going on. -/
def unescape (skipping : Bool) : Bytes → Option Bytes
  | [] => some []
  | b :: rest =>
    if skipping && (isBlank b || isBreak b) then unescape true rest
    else if b = ch '\\' then
      if endsLine rest then unescape true rest
      else match rest with
        | 98 :: s => (unescape false s).map (8 :: ·)
        | 116 :: s => (unescape false s).map (9 :: ·)
        | 110 :: s => (unescape false s).map (10 :: ·)
        | 102 :: s => (unescape false s).map (12 :: ·)
        | 114 :: s => (unescape false s).map (13 :: ·)
        | 101 :: s => (unescape false s).map (27 :: ·)
        | 34 :: s => (unescape false s).map (34 :: ·)
        | 92 :: s => (unescape false s).map (92 :: ·)
        | 120 :: a :: c :: s => do return (← codePoint [a, c]) ++ (← unescape false s)
        | 117 :: a :: c :: d :: e :: s => do
          return (← codePoint [a, c, d, e]) ++ (← unescape false s)
        | 85 :: a :: c :: d :: e :: f :: g :: h :: i :: s => do
          return (← codePoint [a, c, d, e, f, g, h, i]) ++ (← unescape false s)
        | _ => none
    else (unescape false rest).map (b :: ·)

/-- A line break right after the opening quotes is not part of the string. -/
def dropFirstBreak : Bytes → Bytes
  | 10 :: s => s
  | 13 :: 10 :: s => s
  | s => s

def lineString (quote : UInt8) (s : Bytes) : Option (Bytes × Bytes) := do
  let (raw, rest) ← spanLine quote s
  let text ← if quote = ch '"' then unescape false raw else some raw
  return (text, rest)

def linesString (quote : UInt8) (s : Bytes) : Option (Bytes × Bytes) := do
  let (raw, rest) ← spanLines quote false s
  let raw := dropFirstBreak raw
  let text ← if quote = ch '"' then unescape false raw else some raw
  return (text, rest)

end ClassMachine.Toml
