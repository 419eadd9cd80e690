import ClassMachine.Machine.Execute
import ClassMachine.Proofs.ClassFile.Resolution

/-! What the parts of instructions do to a frame and a store: they push, pop and set values, look
names up and call native methods. Of a frame they change nothing but the stack and the values of the
local variables. -/
namespace ClassMachine.Machine
open Fallible Effect
variable {α : Type} {program : Program}

def Activation.withStack (a : Activation) (stack : List Value) : Activation :=
  { a with frame := { a.frame with stack } }

theorem liftM_effect (e : Effect α) : (liftM e : Effect α) = e := rfl

section Results
variable {a : Activation}

theorem push_of_room (h : a.frame.stack.length < a.frame.maxStack) (v : Value) :
    push v a = .ok () (a.withStack (v :: a.frame.stack)) := by
  simp [push, onFrame, Frame.push, Frame.depth, Nat.not_le.2 h, Activation.withStack]

theorem push_of_full (h : a.frame.maxStack ≤ a.frame.stack.length) (v : Value) :
    push v a = .error (.stackOverflow a.frame.pc a.frame.maxStack) a := by
  simp [push, onFrame, Frame.push, Frame.depth, h]

theorem pop_of_cons {v : Value} {vs : List Value} (h : a.frame.stack = v :: vs) :
    pop a = .ok v (a.withStack vs) := by
  simp [pop, takeFrame, Frame.pop, h, Activation.withStack]

theorem peek_of_cons {v : Value} {vs : List Value} (h : a.frame.stack = v :: vs) :
    peek a = .ok v a := by
  simp [peek, ofFrame, Frame.peek, h]

theorem getLocal_of_some {slot : Nat} {v : Value} (h : a.frame.locals[slot]? = some v) :
    getLocal slot a = .ok v a := by
  simp [getLocal, ofFrame, Frame.getLocal, h]

theorem setLocal_of_lt {slot : Nat} (h : slot < a.frame.locals.length) (v : Value) :
    setLocal slot v a =
      .ok () { a with frame := { a.frame with locals := a.frame.locals.set slot v } } := by
  simp [setLocal, onFrame, Frame.setLocal, h]

theorem popInt_of_int {b : Activation} {n : Int32} (op : UInt8) (h : pop a = .ok (.int n) b) :
    (popInt op : Effect Int32) a = .ok n b := bind_of_ok h _

theorem popRef_of_reference {b : Activation} {v : Value} (op : UInt8) (h : pop a = .ok v b)
    (hv : v.isReference = true) : (popRef op : Effect Value) a = .ok v b :=
  (bind_of_ok h _).trans (congrFun (if_pos hv) b)

theorem loadSlot_of_ok {op : UInt8} {kind : SlotKind} {slot : Nat} {v : Value}
    (hget : getLocal slot a = .ok v a) (hcheck : checkSlot op kind v a = .ok () a) :
    (loadSlot op kind slot : Effect Unit) a = push v a :=
  (bind_of_ok hget _).trans (bind_of_ok hcheck _)

theorem storeSlot_of_ok {op : UInt8} {kind : SlotKind} {slot : Nat} {v : Value} {b : Activation}
    (hpop : pop a = .ok v b) (hcheck : checkSlot op kind v b = .ok () b) :
    (storeSlot op kind slot : Effect Unit) a = setLocal slot v b :=
  (bind_of_ok hpop _).trans (bind_of_ok hcheck _)

theorem ofFrame_frame (a : Activation) : (ofFrame .ok : Effect Frame) a = .ok a.frame a := rfl

theorem popInts_of_ints {b c : Activation} {m n : Int32} {op : UInt8}
    (hdepth : ¬ a.frame.depth < 2) (hn : (popInt op : Effect Int32) a = .ok n b)
    (hm : (popInt op : Effect Int32) b = .ok m c) :
    (popInts op : Effect (Int32 × Int32)) a = .ok (m, n) c := by
  simp only [popInts, liftM_effect]
  rw [bind_of_ok (ofFrame_frame a), if_neg hdepth, bind_of_ok hn, bind_of_ok hm]
  rfl

theorem popN_of_le {n : Nat} (h : n ≤ a.frame.stack.length) :
    popN n a = .ok (a.frame.stack.take n).reverse (a.withStack (a.frame.stack.drop n)) := by
  simp [popN, takeFrame, Frame.popN, Frame.depth, Nat.not_lt.2 h, Activation.withStack]

theorem popN_of_lt {n : Nat} (h : a.frame.stack.length < n) :
    popN n a = .error (.stackUnderflow a.frame.pc n a.frame.stack.length) a := by
  simp [popN, takeFrame, Frame.popN, Frame.depth, h]

theorem link_of_ok {x : Except ClassFile.Error α} {y : α} (h : x = .ok y) :
    link x a = .ok y a := by
  rw [h]
  rfl

theorem link_of_error {x : Except ClassFile.Error α} {e : ClassFile.Error} (h : x = .error e) :
    link x a = .error (.link e) a := by
  rw [h]
  rfl

theorem kindAt_of_stringValue {pool : Pool} {index : UInt16} {text : Bytes}
    (h : pool.stringValue index = .ok text) : pool.kindAt index = .string := by
  refine Decidable.byContradiction fun hkind => ?_
  cases (Pool.stringValue_of_kindAt_ne hkind).symm.trans h

theorem loadConstant_of_string {index : UInt16} {text : Bytes} (op : UInt8)
    (h : program.pool.stringValue index = .ok text) :
    (loadConstant program op index : Effect Unit) a = push (.str text) a := by
  have hkind : (LookUp.kindAt program.pool index : Except ClassFile.Error Kind) = .ok .string :=
    congrArg Except.ok (kindAt_of_stringValue h)
  simp only [loadConstant, Executing.link, liftM_effect]
  rw [bind_of_ok (link_of_ok hkind), if_pos rfl, bind_of_ok (link_of_ok h)]

theorem ofStore_of_ok {get : Store → Except Library.Error α} {x : α} (h : get a.store = .ok x) :
    ofStore get a = .ok x a := by
  simp [ofStore, h]

theorem ofStore_of_error {get : Store → Except Library.Error α} {e : Library.Error}
    (h : get a.store = .error e) : ofStore get a = .error (.library e) a := by
  simp [ofStore, h]

theorem call_of_ok {m : Method} {args : List Value} {v : Value} {s : Store}
    (h : m.invoke args a.store = .ok v s) : call m args a = .ok v { a with store := s } := by
  simp [call, h]

theorem call_of_error {m : Method} {args : List Value} {e : Library.Error} {s : Store}
    (h : m.invoke args a.store = .error e s) :
    call m args a = .error (.library e) { a with store := s } := by
  simp [call, h]

theorem call_store (m : Method) (args : List Value) :
    (final (call m args a)).store = final (m.invoke args a.store) := by
  simp only [call]
  cases m.invoke args a.store <;> rfl

end Results

/-- A frame that differs from another only in the stack and in the values of the variables. -/
def Frame.SlotsOnly (f g : Frame) : Prop :=
  ∃ stack locals, locals.length = f.locals.length ∧ g = { f with stack, locals }

theorem push_slotsOnly {f g : Frame} {v : Value} (h : f.push v = .ok g) :
    Frame.SlotsOnly f g := by
  simp only [Frame.push] at h
  split at h
  · cases h
  · cases h
    exact ⟨v :: f.stack, f.locals, rfl, rfl⟩

theorem pop_slotsOnly {f g : Frame} {v : Value} (h : f.pop = .ok (v, g)) :
    Frame.SlotsOnly f g := by
  simp only [Frame.pop] at h
  split at h
  · cases h
  · cases h
    exact ⟨_, f.locals, rfl, rfl⟩

theorem popN_slotsOnly {f g : Frame} {n : Nat} {vs : List Value} (h : f.popN n = .ok (vs, g)) :
    Frame.SlotsOnly f g := by
  simp only [Frame.popN] at h
  split at h
  · cases h
  · cases h
    exact ⟨_, f.locals, rfl, rfl⟩

theorem setLocal_slotsOnly {f g : Frame} {i : Int} {v : Value} (h : f.setLocal i v = .ok g) :
    Frame.SlotsOnly f g := by
  simp only [Frame.setLocal] at h
  split at h
  · split at h
    · cases h
      exact ⟨f.stack, _, List.length_set, rfl⟩
    · cases h
  · cases h

theorem method_mem {r : Registry} {c : ClassId} {isStatic : Bool} {name descriptor : Bytes}
    {m : Method} (h : r.method c isStatic name descriptor = .ok m) : m ∈ r.methods := by
  simp only [Registry.method] at h
  split at h
  · rename_i m' hfind
    cases h
    exact ⟨_, hfind⟩
  · cases h

end ClassMachine.Machine
