import ClassMachine.Bytes

/-!
Data items of the concise binary object representation (CBOR), and their canonical encoding: every
number in its shortest form, every length given in front.
-/

namespace ClassMachine.Cbor
open Bytes (bigEndian)

inductive Item
  | uint (n : Nat)
  /-- The number `-1 - n`. -/
  | nint (n : Nat)
  | bytes (b : Bytes)
  /-- A text, in the pieces that it was written in. -/
  | text (pieces : List Bytes)
  | array (items : List Item)
  /-- Keys and values, in turn. -/
  | map (items : List Item)
  | tag (number : Nat) (content : Item)
  /-- A simple value; 20 and 21 are the truth values, 22 is null, and 23 is undefined. -/
  | simple (n : Nat)
  | float (bits : Bytes)

/-- The head of an item: its major type, and a number in the shortest form. -/
def head (major n : Nat) : Bytes :=
  let initial info := UInt8.ofNat (major * 32 + info)
  if n < 24 then [initial n]
  else if n < Nat.pow 2 8 then initial 24 :: bigEndian 1 n
  else if n < Nat.pow 2 16 then initial 25 :: bigEndian 2 n
  else if n < Nat.pow 2 32 then initial 26 :: bigEndian 4 n
  else initial 27 :: bigEndian 8 n

mutual

def Item.encode : Item → Bytes
  | .uint n => head 0 n
  | .nint n => head 1 n
  | .bytes b => head 2 b.length ++ b
  | .text pieces => head 3 pieces.flatten.length ++ pieces.flatten
  | .array items => head 4 items.length ++ encodeAll items
  | .map items => head 5 (items.length / 2) ++ encodeAll items
  | .tag n content => head 6 n ++ content.encode
  | .simple n => head 7 n
  | .float bits => UInt8.ofNat (7 * 32 + (if bits.length = 2 then 25 else if bits.length = 4 then 26 else 27)) :: bits

def encodeAll : List Item → Bytes
  | [] => []
  | i :: rest => i.encode ++ encodeAll rest

end

def null : Item := .simple 22

def Item.isNull : Item → Bool
  | .simple n => n == 22 || n == 23
  | _ => false

end ClassMachine.Cbor
