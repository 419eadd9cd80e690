import ClassMachine.ClassFile.Constant
import ClassMachine.Cursor

/-!
What can be wrong with a class file, or with an index into its constant pool. An error carries
the steps during which it arose, the outermost first.
-/

namespace ClassMachine.ClassFile

inductive Activity
  | reading
  | skipping
  | parsing
  | resolving
deriving DecidableEq

def Activity.name : Activity → String
  | .reading => "reading"
  | .skipping => "skipping"
  | .parsing => "parsing"
  | .resolving => "resolving"

inductive Error
  | truncated (at_ : Truncation)
  | truncatedStream (offset : Nat) (cause : Error)
  | badMagic (found : UInt32)
  | codeTooLong (offset : Nat) (codeLength : UInt32) (attributeLength : Nat)
  | lengthMismatch (offset attributeLength used : Nat)
  | unsupportedVersion (major minor want : UInt16)
  /-- A tag of the format that has no entries here. -/
  | unsupportedConstant (index : Nat) (kind : Kind)
  | unknownTag (index : Nat) (tag : UInt8)
  /-- An index that is out of range, where `actual` is `Kind.none`, or of another kind. -/
  | unresolved (index : UInt16) (expected actual : Kind)
  | tooDeep
  | during (activity : Activity) (part : String) (cause : Error)
deriving DecidableEq

namespace Error

def truncation? : Error → Option Truncation
  | .truncated t => some t
  | .truncatedStream _ e => e.truncation?
  | .during _ _ e => e.truncation?
  | _ => none

/-- The read of the file that found too few bytes. Inside a Code attribute it is not the file that is
read, but the payload. -/
def shortRead? : Error → Option Truncation
  | .truncated t => some t
  | .truncatedStream _ e => e.shortRead?
  | .during activity part e =>
    if activity = .parsing ∧ part = "Code attribute" then none else e.shortRead?
  | _ => none

def malformed : Error → Bool
  | .truncatedStream .. | .badMagic .. | .codeTooLong .. | .lengthMismatch .. => true
  | .during _ _ e => e.malformed
  | _ => false

/-- Turns a truncation anywhere in the file into a malformed file, and keeps the steps. -/
def classify (e : Error) : Error :=
  match e.truncation?, e.malformed with
  | some t, false => .truncatedStream t.offset e
  | _, _ => e

def message : Error → Bytes
  | .truncated t => t.message
  | .truncatedStream offset e =>
    utf8 s!"malformed class file at offset {offset}: truncated stream: " ++ e.message
  | .badMagic found =>
    utf8 "malformed class file at offset 0: invalid magic number 0x"
      ++ Bytes.hexUpper 8 found.toNat ++ utf8 " (expected 0xCAFEBABE)"
  | .codeTooLong offset codeLength attributeLength =>
    utf8 s!"malformed class file at offset {offset}: " ++
      utf8 s!"code_length {codeLength} exceeds attribute length {attributeLength}"
  | .lengthMismatch offset attributeLength used =>
    utf8 s!"malformed class file at offset {offset}: " ++
      utf8 s!"Code attribute length {attributeLength}, contents use {used}"
  | .unsupportedVersion major minor want =>
    utf8 s!"unsupported class file version {major}.{minor} (want major {want})"
  | .unsupportedConstant index kind =>
    utf8 s!"unsupported constant {kind.name} (tag {kind.tag}) at index {index}"
  | .unknownTag index tag => utf8 s!"unknown constant pool tag {tag} at index {index}"
  | .unresolved index expected actual =>
    if actual = Kind.none then
      utf8 s!"constant pool index {index} does not resolve (want {expected.name})"
    else
      utf8 s!"constant pool index {index} is {actual.name}, want {expected.name}"
  | .tooDeep => utf8 "Code attributes are nested too deeply"
  | .during activity part e => utf8 s!"{activity.name} {part}: " ++ e.message

end Error

end ClassMachine.ClassFile
