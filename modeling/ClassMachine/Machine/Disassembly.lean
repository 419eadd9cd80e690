import ClassMachine.ClassFile.Basic
import ClassMachine.Machine.Decode

/-!
Code as text, one line for an instruction. Operands that refer to the constant pool are followed
by what they refer to, where that resolves.
-/

namespace ClassMachine.Machine

section Constants
variable {look : Type → Type} [Monad look] [LookUp look]

def meaning (pool : Pool) (index : UInt16) : look (Option Bytes) := do
  let kind ← LookUp.kindAt pool index
  if kind = .string then return some (Text.quote (← LookUp.stringValue pool index))
  else if kind = .cls then return some (← LookUp.className pool index)
  else if kind = .fieldref then return some (← LookUp.field pool index).text
  else if kind = .methodref ∨ kind = .interfaceMethodref then
    return some (← LookUp.method pool index).text
  else return none

end Constants

def noteText : Option Bytes → Bytes
  | some text => utf8 " // " ++ text
  | none => []

def numberText (n : Int) : Bytes := utf8 " " ++ Bytes.signed n

/-- Where code is listed. -/
class Listing (m : Type → Type) where
  decode (code : Bytes) (pc : Int) : m (Except Cause Instruction)
  meaning (pool : Pool) (index : UInt16) : m (Except ClassFile.Error (Option Bytes))

instance : Listing Id where
  decode := decode
  meaning pool index := (Machine.meaning pool index : Except ClassFile.Error (Option Bytes))

namespace Listing
variable {m : Type → Type} [Monad m] [Listing m]

def constantText (pool : Pool) (index : UInt16) : m Bytes := do
  let number := utf8 " #" ++ Bytes.decimal index.toNat
  match ← meaning pool index with
  | .ok found => pure (number ++ noteText found)
  | .error _ => pure number

/-- The operands of the instruction at `pc`, each with a blank in front. -/
def operandText (pool : Pool) (pc : Int) : Instruction → m Bytes
  | .bipush n => return numberText n.toInt
  | .sipush n => return numberText n.toInt
  | .load _ slot | .store _ slot => return numberText slot.toNat
  | .iinc slot amount => return numberText slot.toNat ++ numberText amount.toInt
  | .branch _ offset => return numberText (pc + offset.toInt)
  | .ldc index => constantText pool index.toUInt16
  | .ldcWide index | .getstatic index | .invoke _ index | .new index => constantText pool index
  | _ => return []

def instructionText (pool : Pool) (pc : Int) (i : Instruction) : m Bytes := do
  return Bytes.padLeft 4 (Bytes.signed pc) ++ utf8 ": " ++ utf8 i.mnemonic ++
    (← operandText pool pc i)

/-- The instructions from `pc` on, up to the end of the code or to the first that cannot be
decoded. -/
def listingFrom (code : Bytes) (pc : Nat) : m (List (Nat × Instruction) × Option Cause) := do
  if pc < code.length then
    match ← decode code pc with
    | .error cause => pure ([], some cause)
    | .ok i =>
      let (rest, cause) ← listingFrom code (pc + i.length)
      pure ((pc, i) :: rest, cause)
  else pure ([], none)
termination_by code.length - pc
decreasing_by
  simp only [Instruction.length, Instruction.encode, List.length_cons]
  omega

def disassemble (pool : Pool) (code : Bytes) : m (List Bytes × Option Cause) := do
  let (instructions, cause) ← listingFrom code 0
  let lines ← instructions.mapM fun (pc, i) => instructionText pool pc i
  pure (lines, cause)

end Listing

def instructionText (pool : Pool) (pc : Int) (i : Instruction) : Bytes :=
  Id.run (Listing.instructionText pool pc i)

def listingFrom (code : Bytes) (pc : Nat) : List (Nat × Instruction) × Option Cause :=
  Id.run (Listing.listingFrom code pc)

def listing (code : Bytes) : List (Nat × Instruction) × Option Cause := listingFrom code 0

def disassemble (pool : Pool) (code : Bytes) : List Bytes × Option Cause :=
  Id.run (Listing.disassemble pool code)

end ClassMachine.Machine
