import ClassMachine.Text.Quoted

/-!
Method descriptors, such as `(ILjava/lang/String;)V`. `MethodType.parse` reads one; a field type
is cut off the front of the parameters as long as there are any.
-/

namespace ClassMachine

/-- The parameter types and the return type of a method, each as it stands in the descriptor. -/
structure MethodType where
  params : List Bytes
  ret : Bytes
deriving DecidableEq

namespace MethodType

def void (t : MethodType) : Bool := t.ret == utf8 "V"

inductive FieldError
  | arrayOfNothing (text : Bytes)
  | unterminatedClass (text : Bytes)
  | badChar (found : UInt8) (text : Bytes)
deriving DecidableEq

inductive Error
  | missingOpen (descriptor : Bytes)
  | missingClose (descriptor : Bytes)
  | badParameter (descriptor : Bytes) (cause : FieldError)
  | badReturn (descriptor ret : Bytes)
deriving DecidableEq

/-- The wording of an error; a byte that is no type letter is shown as the character of that
number. -/
def FieldError.message : FieldError → Bytes
  | .arrayOfNothing text => utf8 "array of nothing in " ++ Text.quote text
  | .unterminatedClass text => utf8 "unterminated class type in " ++ Text.quote text
  | .badChar found text =>
    utf8 "invalid type descriptor char '" ++ Utf8.encode (Char.ofNat found.toNat) ++
      utf8 "' in " ++ Text.quote text

def Error.message : Error → Bytes
  | .missingOpen d => utf8 "invalid method descriptor " ++ Text.quote d ++ utf8 ": missing '('"
  | .missingClose d => utf8 "invalid method descriptor " ++ Text.quote d ++ utf8 ": missing ')'"
  | .badParameter d e =>
    utf8 "invalid method descriptor " ++ Text.quote d ++ utf8 ": " ++ e.message
  | .badReturn d ret =>
    utf8 "invalid method descriptor " ++ Text.quote d ++ utf8 ": bad return type " ++
      Text.quote ret

/-- The letters of the primitive types: `B C D F I J S Z`. -/
def primitives : Bytes := [66, 67, 68, 70, 73, 74, 83, 90]

end MethodType

/-- Access to the bytes of a text by index. -/
class Slicing (m : Type → Type) where
  byte : Bytes → Nat → m UInt8
  slice : Bytes → Nat → Nat → m Bytes

instance {ε : Type} {m : Type → Type} [Monad m] [Slicing m] : Slicing (ExceptT ε m) where
  byte s i := ExceptT.lift (Slicing.byte s i)
  slice s lo hi := ExceptT.lift (Slicing.slice s lo hi)

namespace Slicing
open MethodType (FieldError primitives)
variable {m : Type → Type} [Monad m] [Slicing m]

/-- The index of the first of `n` bytes from `i` on that is no bracket. -/
def skipBrackets (s : Bytes) : Nat → Nat → m Nat
  | 0, i => pure i
  | n + 1, i => do
    if (← byte s i) = 91 then skipBrackets s n (i + 1) else pure i

def elementEnd (s : Bytes) (i : Nat) : ExceptT FieldError m Nat := do
  let letter ← byte s i
  if letter ∈ primitives then pure (i + 1)
  else if letter = 76 then
    match (← slice s i s.length).idxOf? 59 with
    | none => throw (.unterminatedClass s)
    | some n => if n ≤ 1 then throw (.unterminatedClass s) else pure (i + n + 1)
  else throw (.badChar letter s)

def fieldLength (s : Bytes) : ExceptT FieldError m Nat := do
  let i ← skipBrackets s s.length 0
  if s.length ≤ i then throw (.arrayOfNothing s) else elementEnd s i

/-- The field types of which a text consists. There are not more of them than bytes. -/
def fieldTypes : Nat → Bytes → ExceptT FieldError m (List Bytes)
  | 0, _ => pure []
  | n + 1, s => do
    if s.isEmpty then pure []
    else
      let k ← fieldLength s
      let t ← slice s 0 k
      let more ← fieldTypes n (← slice s k s.length)
      pure (t :: more)

def isField (s : Bytes) : m Bool := do
  match ← (fieldLength s).run with
  | .ok k => pure (k == s.length)
  | .error _ => pure false

def methodType (d : Bytes) : ExceptT MethodType.Error m MethodType := do
  if d.head? ≠ some 40 then throw (.missingOpen d)
  else match d.idxOf? 41 with
    | none => throw (.missingClose d)
    | some stop =>
      let params ← slice d 1 stop
      let params ← (fieldTypes params.length params).adapt (.badParameter d)
      let ret ← slice d (stop + 1) d.length
      if ret = utf8 "V" then pure { params, ret }
      else if ← (isField ret : m Bool) then pure { params, ret }
      else throw (.badReturn d ret)

end Slicing

instance : Slicing Id where
  byte s i := s.getD i 0
  slice s lo hi := (s.take hi).drop lo

def MethodType.parse (d : Bytes) : Except Error MethodType :=
  Id.run (Slicing.methodType d : ExceptT Error Id MethodType).run

end ClassMachine
