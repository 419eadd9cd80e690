import ClassMachine.Toml.Syntax

/-!
Values written as one word: numbers, truth values and points in time.
-/

namespace ClassMachine.Toml

/-- The number that digits stand for. Single underscores may stand between digits; `after` says that
a digit has just been read. -/
def digitsFrom (base acc : Nat) (after : Bool) : Bytes → Option Nat
  | [] => if after then some acc else none
  | b :: rest =>
    if b = ch '_' then if after then digitsFrom base acc false rest else none
    else match digitValue b with
      | some d => if d < base then digitsFrom base (acc * base + d) true rest else none
      | none => none

def digits (base : Nat) (s : Bytes) : Option Nat := digitsFrom base 0 false s

/-- A decimal number, which has no zero in front of other digits. -/
def decimal (s : Bytes) : Option Nat :=
  if 1 < s.length ∧ s.head? = some (ch '0') then none else digits 10 s

/-- An integer, whatever its size. A sign goes with decimal numbers only. -/
def unboundedInteger : Bytes → Option Int
  | 43 :: s => (decimal s).map Int.ofNat
  | 45 :: s => (decimal s).map fun n => -Int.ofNat n
  | 48 :: 120 :: s => (digits 16 s).map Int.ofNat
  | 48 :: 111 :: s => (digits 8 s).map Int.ofNat
  | 48 :: 98 :: s => (digits 2 s).map Int.ofNat
  | s => (decimal s).map Int.ofNat

def integer (s : Bytes) : Option Int := do
  let n ← unboundedInteger s
  if -(Nat.pow 2 63 : Int) ≤ n ∧ n < Nat.pow 2 63 then some n else none

/-- Whether `m * 10 ^ e` is below the largest double by rounding, that is, closer to it than to
`2 ^ 1024`. -/
def fitsDouble (m : Nat) (e : Int) : Bool :=
  let bound := Nat.pow 2 1024 - Nat.pow 2 970
  let size := (Bytes.decimal m).length + e
  if m = 0 ∨ size < 300 then true
  else if 320 < size then false
  else if 0 ≤ e then m * Nat.pow 10 e.toNat < bound
  else m < bound * Nat.pow 10 (-e).toNat

def splitSign : Bytes → Bool × Bytes
  | 43 :: s => (false, s)
  | 45 :: s => (true, s)
  | s => (false, s)

def spanDigits (s : Bytes) : Bytes × Bytes :=
  let inNumber b := isDigit b || b == ch '_'
  (s.takeWhile inNumber, s.dropWhile inNumber)

def fraction : Bytes → Option (Bytes × Bytes)
  | 46 :: s =>
    let (f, rest) := spanDigits s
    (digits 10 f).map fun _ => (f.filter isDigit, rest)
  | s => some ([], s)

def exponentLimit : Nat := 10000

/-- The number that the digits of an exponent stand for. Once it has reached the limit, the digits that
follow do not count. -/
def exponentSize (ds : Bytes) : Nat :=
  ds.foldl (fun e b => if e < exponentLimit then e * 10 + (b.toNat - 48) else e) 0

def exponent : Bytes → Option Int
  | [] => some 0
  | b :: s =>
    if b = ch 'e' ∨ b = ch 'E' then
      let (negative, s) := splitSign s
      (digits 10 s).map fun _ =>
        let n := exponentSize (s.filter isDigit)
        if negative then -Int.ofNat n else Int.ofNat n
    else none

/-- How many digits of a floating-point number count, from the first that is not zero on. -/
def digitLimit : Nat := 800

/-- The digits that count of those before and after the point. The others do not count as places
either. -/
def countedDigits (whole places : Bytes) : Bytes × Bytes :=
  let isZero b := b == ch '0'
  match (whole.dropWhile isZero).take digitLimit with
  | [] => ([], places.takeWhile isZero ++ (places.dropWhile isZero).take digitLimit)
  | counted => (counted, places.take (digitLimit - counted.length))

def isFloat (s : Bytes) : Bool :=
  let (_, s) := splitSign s
  if s = utf8 "inf" ∨ s = utf8 "nan" then true
  else
    let (whole, rest) := spanDigits s
    match decimal whole, fraction rest with
    | some _, some (places, rest') =>
      match exponent rest' with
      | some e =>
        let (before, after) := countedDigits (whole.filter isDigit) places
        rest ≠ [] && fitsDouble ((digits 10 (before ++ after)).getD 0) (e - after.length)
      | none => false
    | _, _ => false

def twoDigits : Bytes → Option (Nat × Bytes)
  | a :: b :: rest =>
    if isDigit a && isDigit b then some ((a.toNat - 48) * 10 + (b.toNat - 48), rest) else none
  | _ => none

def expect (c : UInt8) : Bytes → Option Bytes
  | b :: rest => if b = c then some rest else none
  | [] => none

def isLeap (year : Nat) : Bool := year % 4 == 0 && (year % 100 != 0 || year % 400 == 0)

def daysIn (year month : Nat) : Nat :=
  if month = 2 then if isLeap year then 29 else 28
  else if month ∈ [4, 6, 9, 11] then 30
  else 31

def date (s : Bytes) : Option Bytes := do
  let (century, s) ← twoDigits s
  let (rest, s) ← twoDigits s
  let s ← expect (ch '-') s
  let (month, s) ← twoDigits s
  let s ← expect (ch '-') s
  let (day, s) ← twoDigits s
  if 1 ≤ month ∧ month ≤ 12 ∧ 1 ≤ day ∧ day ≤ daysIn (century * 100 + rest) month then some s
  else none

def secondFraction : Bytes → Bytes
  | 46 :: b :: rest => if isDigit b then rest.dropWhile isDigit else 46 :: b :: rest
  | s => s

def seconds : Bytes → Option Bytes
  | 58 :: s => do
    let (n, s) ← twoDigits s
    if n < 60 then some (secondFraction s) else none
  | s => some s

def timeOfDay (s : Bytes) : Option Bytes := do
  let (hour, s) ← twoDigits s
  let s ← expect (ch ':') s
  let (minute, s) ← twoDigits s
  if hour < 24 ∧ minute < 60 then seconds s else none

def offset : Bytes → Option Bytes
  | [] => none
  | b :: s =>
    if b = ch 'Z' ∨ b = ch 'z' then some s
    else if b = ch '+' ∨ b = ch '-' then do
      let (hours, s) ← twoDigits s
      let s ← expect (ch ':') s
      let (minutes, s) ← twoDigits s
      if hours ≤ 24 ∧ minutes ≤ 60 then some s else none
    else none

def isDateEnd (b : UInt8) : Bool := b == ch 'T' || b == ch 't' || b == ch ' '

def isDatetime (s : Bytes) : Bool :=
  match date s with
  | some [] => true
  | some (b :: rest) =>
    isDateEnd b && match timeOfDay rest with
      | some [] => true
      | some zone => offset zone == some []
      | none => false
  | none => timeOfDay s == some []

def scalar (s : Bytes) : Option Scalar :=
  if s = utf8 "true" then some (.boolean true)
  else if s = utf8 "false" then some (.boolean false)
  else match integer s with
    | some n => some (.integer n)
    | none =>
      if isFloat s then some (.float s)
      else if isDatetime s then some (.datetime s)
      else none

def inWord (b : UInt8) : Bool :=
  isLetter b || isDigit b || b ∈ [ch '+', ch '-', ch '_', ch '.', ch ':']

/-- Reads a word. A date takes the time after a blank with it. -/
def word (s : Bytes) : Bytes × Bytes :=
  let first := s.takeWhile inWord
  match s.dropWhile inWord with
  | 32 :: b :: rest =>
    if date first = some [] ∧ isDigit b then
      (first ++ 32 :: (b :: rest).takeWhile inWord, (b :: rest).dropWhile inWord)
    else (first, 32 :: b :: rest)
  | rest => (first, rest)

end ClassMachine.Toml
