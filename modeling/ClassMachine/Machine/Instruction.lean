import ClassMachine.Bytes

/-!
The instructions that the machine knows, and their encoding: an opcode followed by no, one or two
operand bytes.
-/

namespace ClassMachine

inductive SlotKind
  | int
  | reference
deriving DecidableEq

inductive Test
  | eqZero
  | neZero
  | less
  | greaterEq
  | always
deriving DecidableEq

inductive Mode
  | virtual
  | special
  | static
deriving DecidableEq

inductive Instruction
  | nop
  /-- Pushes `n - 1`. -/
  | iconst (n : Fin 7)
  | bipush (n : Int8)
  | sipush (n : Int16)
  | ldc (index : UInt8)
  | ldcWide (index : UInt16)
  | load (kind : SlotKind) (slot : UInt8)
  | loadShort (kind : SlotKind) (slot : Fin 4)
  | store (kind : SlotKind) (slot : UInt8)
  | storeShort (kind : SlotKind) (slot : Fin 4)
  | pop
  | dup
  | iadd
  | isub
  | iinc (slot : UInt8) (amount : Int8)
  /-- The offset counts from the branch instruction itself. -/
  | branch (test : Test) (offset : Int16)
  | ireturn
  | areturn
  | ret
  | getstatic (index : UInt16)
  | invoke (mode : Mode) (index : UInt16)
  | new (index : UInt16)
deriving DecidableEq

namespace Instruction

def opcode : Instruction → UInt8
  | .nop => 0x00
  | .iconst n => UInt8.ofNat (0x02 + n.val)
  | .bipush _ => 0x10
  | .sipush _ => 0x11
  | .ldc _ => 0x12
  | .ldcWide _ => 0x13
  | .load .int _ => 0x15
  | .load .reference _ => 0x19
  | .loadShort .int n => UInt8.ofNat (0x1A + n.val)
  | .loadShort .reference n => UInt8.ofNat (0x2A + n.val)
  | .store .int _ => 0x36
  | .store .reference _ => 0x3A
  | .storeShort .int n => UInt8.ofNat (0x3B + n.val)
  | .storeShort .reference n => UInt8.ofNat (0x4B + n.val)
  | .pop => 0x57
  | .dup => 0x59
  | .iadd => 0x60
  | .isub => 0x64
  | .iinc _ _ => 0x84
  | .branch .eqZero _ => 0x99
  | .branch .neZero _ => 0x9A
  | .branch .less _ => 0xA1
  | .branch .greaterEq _ => 0xA2
  | .branch .always _ => 0xA7
  | .ireturn => 0xAC
  | .areturn => 0xB0
  | .ret => 0xB1
  | .getstatic _ => 0xB2
  | .invoke .virtual _ => 0xB6
  | .invoke .special _ => 0xB7
  | .invoke .static _ => 0xB8
  | .new _ => 0xBB

def operands : Instruction → Bytes
  | .bipush n => [n.toUInt8]
  | .sipush n => Bytes.u2 n.toUInt16
  | .ldc index => [index]
  | .ldcWide index => Bytes.u2 index
  | .load _ slot => [slot]
  | .store _ slot => [slot]
  | .iinc slot amount => [slot, amount.toUInt8]
  | .branch _ offset => Bytes.u2 offset.toUInt16
  | .getstatic index => Bytes.u2 index
  | .invoke _ index => Bytes.u2 index
  | .new index => Bytes.u2 index
  | _ => []

def encode (i : Instruction) : Bytes := i.opcode :: i.operands

def length (i : Instruction) : Nat := i.encode.length

def mnemonic : Instruction → String
  | .nop => "nop"
  | .iconst 0 => "iconst_m1"
  | .iconst n => s!"iconst_{n.val - 1}"
  | .bipush _ => "bipush"
  | .sipush _ => "sipush"
  | .ldc _ => "ldc"
  | .ldcWide _ => "ldc_w"
  | .load .int _ => "iload"
  | .load .reference _ => "aload"
  | .loadShort .int n => s!"iload_{n.val}"
  | .loadShort .reference n => s!"aload_{n.val}"
  | .store .int _ => "istore"
  | .store .reference _ => "astore"
  | .storeShort .int n => s!"istore_{n.val}"
  | .storeShort .reference n => s!"astore_{n.val}"
  | .pop => "pop"
  | .dup => "dup"
  | .iadd => "iadd"
  | .isub => "isub"
  | .iinc _ _ => "iinc"
  | .branch .eqZero _ => "ifeq"
  | .branch .neZero _ => "ifne"
  | .branch .less _ => "if_icmplt"
  | .branch .greaterEq _ => "if_icmpge"
  | .branch .always _ => "goto"
  | .ireturn => "ireturn"
  | .areturn => "areturn"
  | .ret => "return"
  | .getstatic _ => "getstatic"
  | .invoke .virtual _ => "invokevirtual"
  | .invoke .special _ => "invokespecial"
  | .invoke .static _ => "invokestatic"
  | .new _ => "new"

end Instruction

inductive Shape
  | plain (i : Instruction)
  | byte (build : UInt8 → Instruction)
  | pair (build : UInt8 → UInt8 → Instruction)

namespace Shape

def wide (build : UInt16 → Instruction) : Shape := .pair fun a b => build (Bytes.toU2 a b)

def jump (test : Test) : Shape := wide fun n => .branch test n.toInt16

def ofOpcode : UInt8 → Option Shape
  | 0x00 => some (.plain .nop)
  | 0x02 => some (.plain (.iconst 0))
  | 0x03 => some (.plain (.iconst 1))
  | 0x04 => some (.plain (.iconst 2))
  | 0x05 => some (.plain (.iconst 3))
  | 0x06 => some (.plain (.iconst 4))
  | 0x07 => some (.plain (.iconst 5))
  | 0x08 => some (.plain (.iconst 6))
  | 0x10 => some (.byte fun a => .bipush a.toInt8)
  | 0x11 => some (wide fun n => .sipush n.toInt16)
  | 0x12 => some (.byte .ldc)
  | 0x13 => some (wide .ldcWide)
  | 0x15 => some (.byte (.load .int))
  | 0x19 => some (.byte (.load .reference))
  | 0x1A => some (.plain (.loadShort .int 0))
  | 0x1B => some (.plain (.loadShort .int 1))
  | 0x1C => some (.plain (.loadShort .int 2))
  | 0x1D => some (.plain (.loadShort .int 3))
  | 0x2A => some (.plain (.loadShort .reference 0))
  | 0x2B => some (.plain (.loadShort .reference 1))
  | 0x2C => some (.plain (.loadShort .reference 2))
  | 0x2D => some (.plain (.loadShort .reference 3))
  | 0x36 => some (.byte (.store .int))
  | 0x3A => some (.byte (.store .reference))
  | 0x3B => some (.plain (.storeShort .int 0))
  | 0x3C => some (.plain (.storeShort .int 1))
  | 0x3D => some (.plain (.storeShort .int 2))
  | 0x3E => some (.plain (.storeShort .int 3))
  | 0x4B => some (.plain (.storeShort .reference 0))
  | 0x4C => some (.plain (.storeShort .reference 1))
  | 0x4D => some (.plain (.storeShort .reference 2))
  | 0x4E => some (.plain (.storeShort .reference 3))
  | 0x57 => some (.plain .pop)
  | 0x59 => some (.plain .dup)
  | 0x60 => some (.plain .iadd)
  | 0x64 => some (.plain .isub)
  | 0x84 => some (.pair fun a b => .iinc a b.toInt8)
  | 0x99 => some (jump .eqZero)
  | 0x9A => some (jump .neZero)
  | 0xA1 => some (jump .less)
  | 0xA2 => some (jump .greaterEq)
  | 0xA7 => some (jump .always)
  | 0xAC => some (.plain .ireturn)
  | 0xB0 => some (.plain .areturn)
  | 0xB1 => some (.plain .ret)
  | 0xB2 => some (wide .getstatic)
  | 0xB6 => some (wide (.invoke .virtual))
  | 0xB7 => some (wide (.invoke .special))
  | 0xB8 => some (wide (.invoke .static))
  | 0xBB => some (wide .new)
  | _ => none

def width : Shape → Nat
  | .plain _ => 0
  | .byte _ => 1
  | .pair _ => 2

def zero : Shape → Instruction
  | .plain i => i
  | .byte build => build 0
  | .pair build => build 0 0

end Shape

def opcodeName (op : UInt8) : Bytes :=
  match Shape.ofOpcode op with
  | some shape => utf8 shape.zero.mnemonic
  | none => utf8 "opcode(0x" ++ Bytes.hex 2 op.toNat ++ utf8 ")"

end ClassMachine
