import ClassMachine.Bytes

/-!
Integers as they are written on a command line: decimal, or with a leading `0x`, `0o`, `0` or `0b` in
another base, and with underscores between the digits.
-/

namespace ClassMachine.Text

inductive IntegerError
  | malformed
  | outOfRange
deriving DecidableEq

def IntegerError.message : IntegerError → Bytes
  | .malformed => utf8 "parse error"
  | .outOfRange => utf8 "value out of range"

def lower (b : UInt8) : UInt8 := if 65 ≤ b && b ≤ 90 then b + 32 else b

def digitValue? (b : UInt8) : Option Nat :=
  if 48 ≤ b && b ≤ 57 then some (b.toNat - 48)
  else if 97 ≤ lower b && lower b ≤ 122 then some ((lower b).toNat - 87)
  else none

/-- The number that digits stand for; underscores are skipped. A number that does not fit into 64 bits
is found before anything that follows it. -/
def natFrom (base n : Nat) : Bytes → Except IntegerError Nat
  | [] => .ok n
  | b :: rest =>
    if b = 95 then natFrom base n rest
    else match digitValue? b with
      | none => .error .malformed
      | some d =>
        if base ≤ d then .error .malformed
        else if Nat.pow 2 64 ≤ n * base + d then .error .outOfRange
        else natFrom base (n * base + d) rest

def baseOf (letter : UInt8) : Option Nat :=
  if letter = 98 then some 2 else if letter = 111 then some 8 else if letter = 120 then some 16
  else none

/-- Whether underscores stand between digits only; `digit` says that a digit, or a letter for the base,
comes before. -/
def underscoresFit (digit underscore : Bool) : Bytes → Bool
  | [] => ¬ underscore
  | b :: rest =>
    if b = 95 then digit && underscoresFit false true rest
    else underscoresFit true false rest

def natLiteral : Bytes → Except IntegerError Nat
  | [] => .error .malformed
  | 48 :: letter :: c :: rest =>
    match baseOf (lower letter) with
    | some base => checked base true (c :: rest)
    | none => checked 8 true (letter :: c :: rest)
  | 48 :: rest => checked 8 true rest
  | s => checked 10 false s
where
  checked (base : Nat) (digit : Bool) (s : Bytes) : Except IntegerError Nat := do
    let n ← natFrom base 0 s
    if underscoresFit digit false s then .ok n else .error .malformed

def integerLiteral (s : Bytes) : Except IntegerError Int :=
  let (negative, rest) : Bool × Bytes := match s with
    | 43 :: rest => (false, rest)
    | 45 :: rest => (true, rest)
    | rest => (false, rest)
  match natLiteral rest with
  | .error e => .error e
  | .ok n =>
    if negative then if n ≤ Nat.pow 2 63 then .ok (-n) else .error .outOfRange
    else if n < Nat.pow 2 63 then .ok n
    else .error .outOfRange

end ClassMachine.Text
