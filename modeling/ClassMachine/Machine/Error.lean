import ClassMachine.ClassFile.Error
import ClassMachine.Library.Error
import ClassMachine.Machine.Instruction

/-!
Why an instruction cannot be executed, and why a run stops before its method returns.
-/

namespace ClassMachine.Machine

inductive Cause
  | stackUnderflow (pc : Int) (need depth : Nat)
  | stackOverflow (pc : Int) (maxStack : Nat)
  | unknownOpcode (opcode : UInt8) (pc : Int)
  | constantUse (opcode : UInt8) (pc : Int) (index : UInt16) (kind : Kind)
  | operandType (opcode : UInt8) (pc : Int) (got : ValueKind) (want : String)
  | localIndex (pc index : Int) (maxLocals : Nat)
  | ranOff (pc : Int)
  | shortOperands (opcode : UInt8) (pc : Int) (need got : Nat)
  | branchTarget (pc target : Int) (codeLength : Nat)
  | link (cause : ClassFile.Error)
  | library (cause : Library.Error)
deriving DecidableEq

def Cause.message : Cause → Bytes
  | .stackUnderflow pc need depth =>
    utf8 s!"operand stack underflow at pc {pc}: need {need}, depth {depth}"
  | .stackOverflow pc maxStack => utf8 s!"operand stack overflow at pc {pc}: max_stack {maxStack}"
  | .unknownOpcode op pc =>
    utf8 "unknown opcode 0x" ++ Bytes.hex 2 op.toNat ++ utf8 s!" at pc {pc}"
  | .constantUse op pc index kind =>
    opcodeName op ++ utf8 s!" at pc {pc}: constant #{index} is {kind.name}"
  | .operandType op pc got want =>
    opcodeName op ++ utf8 s!" at pc {pc}: operand is {got.name}, want {want}"
  | .localIndex pc index maxLocals =>
    utf8 s!"local variable {index} out of range at pc {pc} (max_locals {maxLocals})"
  | .ranOff pc => utf8 s!"execution ran off the end of the code at pc {pc}"
  | .shortOperands op pc need got =>
    opcodeName op ++ utf8 s!" at pc {pc}: need {need} operand bytes, have {got}"
  | .branchTarget pc target codeLength =>
    utf8 s!"branch at pc {pc} targets {target} outside code of length {codeLength}"
  | .link e => e.message
  | .library e => e.message

/-- The opcode at which decoding failed; 0 where there was none. -/
def Cause.opcode : Cause → UInt8
  | .unknownOpcode op _ => op
  | .shortOperands op _ _ _ => op
  | _ => 0

inductive Stop
  | fault (method : Bytes) (pc : Int) (opcode : UInt8) (cause : Cause)
  | budget (limit pc : Int)
  | cancelled
deriving DecidableEq

def Stop.message : Stop → Bytes
  | .fault method pc op cause =>
    method ++ utf8 s!": pc {pc} (" ++ opcodeName op ++ utf8 "): " ++ cause.message
  | .budget limit pc => utf8 s!"instruction budget of {limit} exceeded at pc {pc}"
  | .cancelled => utf8 "context canceled"

end ClassMachine.Machine
