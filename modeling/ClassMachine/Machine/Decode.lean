import ClassMachine.Machine.Error

/-!
Finding the instruction at an offset of the code.
-/

namespace ClassMachine.Machine

def decodeBytes (pc : Int) : Bytes → Except Cause Instruction
  | [] => .error (.ranOff pc)
  | op :: rest =>
    match Shape.ofOpcode op, rest with
    | none, _ => .error (.unknownOpcode op pc)
    | some (.plain i), _ => .ok i
    | some (.byte build), a :: _ => .ok (build a)
    | some (.byte _), [] => .error (.shortOperands op pc 1 0)
    | some (.pair build), a :: b :: _ => .ok (build a b)
    | some (.pair _), rest => .error (.shortOperands op pc 2 rest.length)

def decode (code : Bytes) (pc : Int) : Except Cause Instruction :=
  if pc < 0 then .error (.ranOff pc) else decodeBytes pc (code.drop pc.toNat)

end ClassMachine.Machine
