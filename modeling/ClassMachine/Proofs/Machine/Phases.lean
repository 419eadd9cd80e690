import ClassMachine.Proofs.Machine.Effects

/-! The two phases of an instruction. First it reads and pops what it works on, and finds fault with
it. Then it does one thing for good: it pushes a value, sets a local variable, makes an object,
calls a native method, branches or returns. So a property `Q` of instructions follows from what it
says of the second phase, and from a property `P` that the parts of the first phase have
(`execute_phases`). In particular every instruction has the properties that all of its parts have
(`execute_closed`), and a relation between the activation before and after holds for every
instruction if the parts respect it (`execute_keeps`). -/
namespace ClassMachine.Machine
open Fallible Effect
variable {α : Type} {program : Program} {op : UInt8} {R : Activation → Activation → Prop}

def demand (n : Nat) : Effect Unit := ofFrame fun f =>
  if f.depth < n then .error (.stackUnderflow f.pc n f.depth) else .ok ()

theorem popInts_eq (op : UInt8) : (popInts op : Effect (Int32 × Int32)) = (do
    demand 2
    let b ← popInt op
    let a ← popInt op
    pure (a, b)) := by
  funext a
  simp only [popInts, liftM_effect]
  rw [bind_of_ok (ofFrame_frame a)]
  by_cases hd : a.frame.depth < 2
  · have hfails : demand 2 a = .error (.stackUnderflow a.frame.pc 2 a.frame.depth) a := by
      simp only [demand, ofFrame, if_pos hd]
    rw [if_pos hd, bind_of_error hfails]
    rfl
  · have hpasses : demand 2 a = .ok () a := by
      simp only [demand, ofFrame, if_neg hd]
    rw [if_neg hd, bind_of_ok hpasses]

/-- What is read from a store, as something that can be read. -/
def witnessed {α : Type} (read : Store → Except Library.Error α) (s : Store) :
    Except Library.Error { x // ∃ s, read s = .ok x } :=
  match h : read s with
  | .ok x => .ok ⟨x, s, h⟩
  | .error e => .error e

theorem ofStore_bind_eq {α β : Type} (read : Store → Except Library.Error α) (f : α → Effect β) :
    ofStore read >>= f = ofStore (witnessed read) >>= fun x => f x.val := by
  funext a
  cases hr : read a.store with
  | ok x =>
    have hw : witnessed read a.store = .ok ⟨x, a.store, hr⟩ := by grind [witnessed]
    rw [bind_of_ok (ofStore_of_ok hr), bind_of_ok (ofStore_of_ok hw)]
  | error e =>
    have hw : witnessed read a.store = .error e := by grind [witnessed]
    rw [bind_of_error (ofStore_of_error hr), bind_of_error (ofStore_of_error hw)]

def refuseConstant {α : Type} (op : UInt8) (index : UInt16) (kind : Kind) : Effect α := do
  throw (.constantUse op (← pc) index kind)

/-- Calls a method with arguments from the stack, and pushes its result if there is one to push. -/
def applyMethod (mode : Mode) (m : Method) : Effect Unit := do
  let args ← popN m.arity
  let v ← call m args
  if mode = .special ∨ v = .void then pure () else push v

theorem invokeMethod_eq (mode : Mode) (index : UInt16) :
    (invokeMethod program mode index : Effect Unit) = (do
      let ref ← link (program.pool.method index)
      let c ← ofStore (·.lookup ref.className)
      let m ← findMethod program c (mode == .static) ref
      applyMethod mode m) := rfl

theorem invokeMethod_of_found {mode : Mode} {index : UInt16} {ref : MemberRef} {c : ClassId}
    {m : Method} {a : Activation} (href : program.pool.method index = .ok ref)
    (hc : a.store.lookup ref.className = .ok c)
    (hm : Registry.method ⟨a.store, program.methods⟩ c (mode == .static) ref.name
      ref.descriptor = .ok m) :
    (invokeMethod program mode index : Effect Unit) a = applyMethod mode m a := by
  rw [invokeMethod_eq, bind_of_ok (link_of_ok href), bind_of_ok (ofStore_of_ok hc), findMethod,
    bind_of_ok (ofStore_of_ok hm)]

theorem applyMethod_of_parts {P : (α : Type) → Effect α → Prop}
    (bind : ∀ {α β : Type} {e : Effect α} {f : α → Effect β},
      P α e → (∀ x, P β (f x)) → P β (e >>= f))
    (pure : P Unit (pure ())) (push : ∀ v, P Unit (push v)) (mode : Mode) (m : Method)
    (popN : P (List Value) (popN m.arity)) (call : ∀ args, P Value (call m args)) :
    P Unit (applyMethod mode m) := by
  refine bind popN fun args => bind (call args) fun v => ?_
  by_cases hv : mode = .special ∨ v = .void
  · rw [if_pos hv]
    exact pure
  · rw [if_neg hv]
    exact push v

/-- A property `P` of what the instruction `op` does first, and a property `Q` of what it does
then, alone or after the first phase. The methods that are called are those of a program. -/
structure Phases (program : Program) (op : UInt8) (P : (α : Type) → Effect α → Prop)
    (Q : Effect Control → Prop) : Prop where
  pure : ∀ {α : Type} (x : α), P α (pure x)
  bind : ∀ {α β : Type} {e : Effect α} {f : α → Effect β}, P α e → (∀ x, P β (f x)) → P β (e >>= f)
  demand : ∀ n, P Unit (demand n)
  pop : P Value pop
  peek : P Value peek
  getLocal : ∀ slot, P Value (getLocal slot)
  operandType : ∀ {α : Type} v want, P α (operandType op v want)
  refuseConstant : ∀ {α : Type} index kind, P α (refuseConstant op index kind)
  link : ∀ {α : Type} (x : Except ClassFile.Error α), P α (link x)
  lookup : ∀ name, P ClassId (ofStore (·.lookup name))
  staticField : ∀ c name, P Value (ofStore (·.staticField c name))
  findMethod : ∀ {f : Method → Effect Control} c isStatic ref,
    (∀ m ∈ program.methods, Q (f m)) → Q (findMethod program c isStatic ref >>= f)
  after : ∀ {α : Type} {e : Effect α} {f : α → Effect Control}, P α e → (∀ x, Q (f x)) → Q (e >>= f)
  next : Q (Pure.pure .next)
  done : ∀ v, Q (Pure.pure (.done v))
  branchTo : ∀ offset, Q (branchTo offset)
  push : ∀ v, Q (do push v; Pure.pure .next)
  setLocal : ∀ slot v, Q (do setLocal slot v; Pure.pure .next)
  makeObject : ∀ c, Q (do makeObject c; Pure.pure .next)
  applyMethod : ∀ mode, ∀ m ∈ program.methods, Q (do applyMethod mode m; Pure.pure .next)

namespace Phases
variable {P : (α : Type) → Effect α → Prop} {Q : Effect Control → Prop}

theorem findMethod_of_ofStore (ofStore : ∀ {α : Type} (read : Store → Except Library.Error α),
      P α (ofStore read))
    (after : ∀ {α : Type} {e : Effect α} {f : α → Effect Control},
      P α e → (∀ x, Q (f x)) → Q (e >>= f))
    {f : Method → Effect Control} (c : ClassId) (isStatic : Bool) (ref : MemberRef)
    (hf : ∀ m ∈ program.methods, Q (f m)) :
    Q (Effect.findMethod program c isStatic ref >>= f) := by
  rw [Effect.findMethod, ofStore_bind_eq]
  exact after (ofStore _) fun ⟨m, s, hm⟩ => hf m (method_mem hm)

theorem popInt (h : Phases program op P Q) : P Int32 (popInt op) := by
  refine h.bind h.pop fun v => ?_
  cases v with
  | int n => exact h.pure n
  | _ => exact h.operandType _ "int"

theorem popInts (h : Phases program op P Q) : P (Int32 × Int32) (popInts op) := by
  rw [popInts_eq]
  exact h.bind (h.demand 2) fun _ => h.bind h.popInt fun b => h.bind h.popInt fun a => h.pure (a, b)

theorem popRef (h : Phases program op P Q) : P Value (popRef op) := by
  refine h.bind h.pop fun v => ?_
  by_cases hv : v.isReference
  · rw [if_pos hv]
    exact h.pure v
  · rw [if_neg hv]
    exact h.operandType v "reference"

theorem checkSlot (h : Phases program op P Q) (kind : SlotKind) (v : Value) :
    P Unit (checkSlot op kind v) := by
  cases kind with
  | int =>
    by_cases hv : v.kind = .int
    · simpa [Machine.checkSlot, hv] using h.pure ()
    · simpa [Machine.checkSlot, hv] using h.operandType v "int"
  | reference =>
    by_cases hv : v.isReference
    · simpa [Machine.checkSlot, hv] using h.pure ()
    · simpa [Machine.checkSlot, hv] using h.operandType v "reference"

theorem holds (h : Phases program op P Q) (test : Test) : P Bool (holds op test) := by
  cases test with
  | eqZero => exact h.bind h.popInt fun n => h.pure _
  | neZero => exact h.bind h.popInt fun n => h.pure _
  | less => exact h.bind h.popInts fun p => h.pure _
  | greaterEq => exact h.bind h.popInts fun p => h.pure _
  | always => exact h.pure true

theorem refuse (h : Phases program op P Q) (v : Value) (want : String) :
    Q (Machine.operandType op v want) := by
  change Q (Machine.operandType op v want >>= fun _ : Unit => Pure.pure .next)
  exact h.after (h.operandType v want) fun _ => h.next

theorem loadSlot (h : Phases program op P Q) (kind : SlotKind) (slot : Nat) :
    Q (do Machine.loadSlot op kind slot; Pure.pure .next) := by
  simp only [Machine.loadSlot, bind_assoc]
  exact h.after (h.getLocal slot) fun v => h.after (h.checkSlot kind v) fun _ => h.push v

theorem storeSlot (h : Phases program op P Q) (kind : SlotKind) (slot : Nat) :
    Q (do Machine.storeSlot op kind slot; Pure.pure .next) := by
  simp only [Machine.storeSlot, bind_assoc]
  exact h.after h.pop fun v => h.after (h.checkSlot kind v) fun _ => h.setLocal slot v

theorem loadConstant (h : Phases program op P Q) (index : UInt16) :
    Q (do Machine.loadConstant program op index; Pure.pure .next) := by
  simp only [Machine.loadConstant, bind_assoc]
  refine h.after (h.link _) fun kind => ?_
  by_cases hs : kind = .string
  · rw [if_pos hs, bind_assoc]
    exact h.after (h.link _) fun t => h.push _
  · rw [if_neg hs]
    by_cases hn : kind = .none
    · rw [if_pos hn, bind_assoc]
      exact h.after (h.link _) fun _ => h.next
    · rw [if_neg hn]
      exact h.after (h.refuseConstant index kind) fun _ => h.next

theorem invokeMethod (h : Phases program op P Q) (mode : Mode) (index : UInt16) :
    Q (do Machine.invokeMethod program mode index; Pure.pure .next) := by
  simp only [invokeMethod_eq, bind_assoc]
  refine h.after (h.link _) fun ref => h.after (h.lookup _) fun c => ?_
  exact h.findMethod c _ ref fun m hm => h.applyMethod mode m hm

end Phases

theorem execute_phases {P : (α : Type) → Effect α → Prop} {Q : Effect Control → Prop}
    (i : Instruction) (h : Phases program i.opcode P Q) : Q (execute program i) := by
  cases i with
  | nop => exact h.next
  | iconst n => exact h.push _
  | bipush n => exact h.push _
  | sipush n => exact h.push _
  | ldc index => exact h.loadConstant _
  | ldcWide index => exact h.loadConstant _
  | load kind slot => exact h.loadSlot kind _
  | loadShort kind slot => exact h.loadSlot kind _
  | store kind slot => exact h.storeSlot kind _
  | storeShort kind slot => exact h.storeSlot kind _
  | pop => exact h.after h.pop fun _ => h.next
  | dup => exact h.after h.peek fun v => h.push v
  | iadd => exact h.after h.popInts fun p => h.push _
  | isub => exact h.after h.popInts fun p => h.push _
  | iinc slot amount =>
    refine h.after (h.getLocal _) fun v => ?_
    cases v with
    | int n => exact h.setLocal _ _
    | _ => exact h.refuse _ "int"
  | branch test offset =>
    refine h.after (h.holds test) fun taken => ?_
    cases taken with
    | true => exact h.branchTo offset
    | false => exact h.next
  | ireturn => exact h.after h.popInt fun n => h.done _
  | areturn => exact h.after h.popRef fun v => h.done v
  | ret => exact h.done _
  | getstatic index =>
    refine h.after (h.link _) fun ref => h.after (h.lookup _) fun c => ?_
    exact h.after (h.staticField c _) fun v => h.push v
  | invoke mode index => exact h.invokeMethod mode index
  | new index =>
    refine h.after (h.link _) fun name => h.after (h.lookup _) fun c => ?_
    exact h.makeObject c

/-! Properties of all the parts. -/

/-- A property of effects that the parts of instructions have, and effects that are put together
from such. The methods that are called are those of a program. -/
structure Closed (program : Program) (P : (α : Type) → Effect α → Prop) : Prop where
  pure : ∀ {α : Type} (x : α), P α (pure x)
  throw : ∀ {α : Type} (c : Cause), P α (throw c)
  bind : ∀ {α β : Type} {e : Effect α} {f : α → Effect β}, P α e → (∀ x, P β (f x)) → P β (e >>= f)
  ofFrame : ∀ {α : Type} (read : Frame → Except Cause α), P α (ofFrame read)
  onFrame : ∀ {change : Frame → Except Cause Frame},
    (∀ f g, change f = .ok g → Frame.SlotsOnly f g) → P Unit (onFrame change)
  takeFrame : ∀ {α : Type} {take : Frame → Except Cause (α × Frame)},
    (∀ f x g, take f = .ok (x, g) → Frame.SlotsOnly f g) → P α (takeFrame take)
  lookup : ∀ name, P ClassId (ofStore (·.lookup name))
  staticField : ∀ c name, P Value (ofStore (·.staticField c name))
  findMethod : ∀ {β : Type} {f : Method → Effect β} c isStatic ref,
    (∀ m ∈ program.methods, P β (f m)) → P β (findMethod program c isStatic ref >>= f)
  call : ∀ m ∈ program.methods, ∀ args, P Value (call m args)
  newObject : ∀ c, P Value (newObject c)

namespace Closed
variable {P : (α : Type) → Effect α → Prop}

theorem pc (h : Closed program P) : P Int Effect.pc := h.ofFrame fun f => .ok f.pc

theorem link (h : Closed program P) (x : Except ClassFile.Error α) : P α (link x) := by
  cases x with
  | ok x => exact h.pure x
  | error e => exact h.throw (.link e)

theorem push (h : Closed program P) (v : Value) : P Unit (push v) :=
  h.onFrame fun _ _ => push_slotsOnly

theorem setLocal (h : Closed program P) (slot : Nat) (v : Value) : P Unit (setLocal slot v) :=
  h.onFrame fun _ _ => setLocal_slotsOnly

theorem branchTo (h : Closed program P) (offset : Int16) : P Control (branchTo offset) := by
  refine h.bind (h.ofFrame _) fun f => ?_
  by_cases ht : 0 ≤ f.pc + offset.toInt ∧ f.pc + offset.toInt < f.code.length
  · rw [if_pos ht]
    exact h.pure _
  · rw [if_neg ht]
    exact h.throw _

theorem applyMethod (h : Closed program P) (mode : Mode) {m : Method} (hm : m ∈ program.methods) :
    P Unit (applyMethod mode m) :=
  applyMethod_of_parts h.bind (h.pure ()) h.push mode m
    (h.takeFrame fun _ _ _ => popN_slotsOnly) (h.call m hm)

theorem phases (h : Closed program P) (op : UInt8) : Phases program op P (P Control) := by
  have next {e : Effect Unit} (he : P Unit e) : P Control (do e; Pure.pure Control.next) :=
    h.bind he fun _ => h.pure Control.next
  constructor
  case pure => exact h.pure
  case bind => exact h.bind
  case demand => exact fun n => h.ofFrame _
  case pop => exact h.takeFrame fun _ _ _ => pop_slotsOnly
  case peek => exact h.ofFrame _
  case getLocal => exact fun slot => h.ofFrame _
  case operandType => exact fun v want => h.bind h.pc fun _ => h.throw _
  case refuseConstant => exact fun index kind => h.bind h.pc fun _ => h.throw _
  case link => exact h.link
  case lookup => exact h.lookup
  case staticField => exact h.staticField
  case findMethod => exact h.findMethod
  case after => exact h.bind
  case next => exact h.pure _
  case done => exact fun v => h.pure _
  case branchTo => exact h.branchTo
  case push => exact fun v => next (h.push v)
  case setLocal => exact fun slot v => next (h.setLocal slot v)
  case makeObject => exact fun c => next (h.bind (h.newObject c) fun v => h.push v)
  case applyMethod => exact fun mode m hm => next (h.applyMethod mode hm)

end Closed

/-- Every instruction has the properties that its parts have. -/
theorem execute_closed {P : (α : Type) → Effect α → Prop} (h : Closed program P) (i : Instruction) :
    P Control (execute program i) := execute_phases i (h.phases i.opcode)

abbrev Respects (R : Activation → Activation → Prop) (e : Effect α) : Prop :=
  Keeps R (fun _ => True) (fun _ => True) e

/-- What a relation has to allow: anything on the stack, as many local variables as before, calls
of the methods of a program, and new objects. -/
structure Tolerant (program : Program) (R : Activation → Activation → Prop) : Prop where
  refl : ∀ a, R a a
  trans : ∀ a b c, R a b → R b c → R a c
  slots : ∀ a stack locals, locals.length = a.frame.locals.length →
    R a { a with frame := { a.frame with stack, locals } }
  call : ∀ m ∈ program.methods, ∀ args, Respects R (call m args)
  newObject : ∀ c a, R a { a with store := (a.store.newObject c).2 }

namespace Tolerant

theorem slotsOnly (h : Tolerant program R) {a : Activation} {f : Frame}
    (hf : Frame.SlotsOnly a.frame f) : R a { a with frame := f } := by
  obtain ⟨stack, locals, hlen, rfl⟩ := hf
  exact h.slots a stack locals hlen

theorem ofStore (h : Tolerant program R) {P : α → Prop} (get : Store → Except Library.Error α)
    (hP : ∀ s x, get s = .ok x → P x) : Keeps R P (fun _ => True) (ofStore get) := by
  refine keeps_of_result fun a => ?_
  simp only [Effect.ofStore]
  cases hx : get a.store with
  | ok x => exact ⟨h.refl a, hP _ _ hx⟩
  | error e => exact ⟨h.refl a, trivial⟩

theorem closed (h : Tolerant program R) : Closed program fun _ => Respects R where
  pure _ := keeps_pure h.refl trivial
  throw _ := keeps_throw h.refl trivial
  bind he hf := keeps_bind h.trans he fun x _ => hf x
  ofFrame read := by
    refine keeps_of_result fun a => ?_
    simp only [Effect.ofFrame]
    cases read a.frame with
    | ok x => exact ⟨h.refl a, trivial⟩
    | error e => exact ⟨h.refl a, trivial⟩
  onFrame {change} hc := by
    refine keeps_of_result fun a => ?_
    simp only [Effect.onFrame]
    cases hx : change a.frame with
    | ok f => exact ⟨h.slotsOnly (hc _ _ hx), trivial⟩
    | error e => exact ⟨h.refl a, trivial⟩
  takeFrame {_ take} ht := by
    refine keeps_of_result fun a => ?_
    simp only [Effect.takeFrame]
    cases hx : take a.frame with
    | ok p => exact ⟨h.slotsOnly (ht _ p.1 p.2 hx), trivial⟩
    | error e => exact ⟨h.refl a, trivial⟩
  lookup name := h.ofStore _ fun _ _ _ => trivial
  staticField c name := h.ofStore _ fun _ _ _ => trivial
  findMethod c isStatic ref hf := by
    have hfound : Keeps R (fun m => m ∈ program.methods) (fun _ => True)
        (findMethod program c isStatic ref) := h.ofStore _ fun _ m hm => method_mem hm
    exact keeps_bind h.trans hfound fun m hm => hf m hm
  call m hm args := h.call m hm args
  newObject c := keeps_of_result fun a => And.intro (h.newObject c a) trivial

end Tolerant

/-- Every instruction respects what its parts respect. -/
theorem execute_keeps (h : Tolerant program R) (i : Instruction) :
    Respects R (execute program i) := execute_closed h.closed i

theorem Frame.SlotsOnly.refl (f : Frame) : Frame.SlotsOnly f f := ⟨f.stack, f.locals, rfl, rfl⟩

theorem Frame.SlotsOnly.trans {f g k : Frame} (h : Frame.SlotsOnly f g)
    (h' : Frame.SlotsOnly g k) : Frame.SlotsOnly f k := by
  obtain ⟨stack, locals, hlen, rfl⟩ := h
  obtain ⟨stack', locals', hlen', rfl⟩ := h'
  exact ⟨stack', locals', hlen'.trans hlen, rfl⟩

theorem slotsOnly_tolerant (program : Program) :
    Tolerant program fun a b => Frame.SlotsOnly a.frame b.frame where
  refl a := Frame.SlotsOnly.refl a.frame
  trans _ _ _ := Frame.SlotsOnly.trans
  slots _ stack locals hlen := ⟨stack, locals, hlen, rfl⟩
  newObject _ a := Frame.SlotsOnly.refl a.frame
  call m _ args := by
    refine keeps_of_result fun a => ?_
    simp only [call]
    cases m.invoke args a.store with
    | ok v s => exact ⟨Frame.SlotsOnly.refl a.frame, trivial⟩
    | error e s => exact ⟨Frame.SlotsOnly.refl a.frame, trivial⟩

theorem execute_ok_slotsOnly {i : Instruction} {a b : Activation} {c : Control}
    (h : execute program i a = .ok c b) : Frame.SlotsOnly a.frame b.frame :=
  ((execute_keeps (slotsOnly_tolerant program) i).ok a c b h).1

theorem execute_error_slotsOnly {i : Instruction} {a b : Activation} {e : Cause}
    (h : execute program i a = .error e b) : Frame.SlotsOnly a.frame b.frame :=
  ((execute_keeps (slotsOnly_tolerant program) i).error a e b h).1

end ClassMachine.Machine
