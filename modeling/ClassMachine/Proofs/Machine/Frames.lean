import ClassMachine.Proofs.Library.Heap
import ClassMachine.Proofs.Machine.Boundaries

/-! What a run keeps of its frame. An instruction pushes and stores values of a known kind only, as
long as the library gives it no others; it pushes no more of them than the stack has room for, and
whether it succeeds or fails it leaves code, room and number of local variables alone
(`execute_held`). What the library has to do with this is said of the store alone (`Enduring`), and
the standard library does it (`standard_enduring`). -/
namespace ClassMachine

def Value.Storable (v : Value) : Prop := v.kind = .int ∨ v.kind = .string ∨ v.kind = .object

theorem Value.Storable.ne_void {v : Value} (h : v.Storable) : v.kind ≠ .void := by
  intro hvoid
  simp [Storable, hvoid, ValueKind.void, ValueKind.int, ValueKind.string, ValueKind.object] at h

theorem Value.storable_of_isReference {v : Value} (h : v.isReference = true) : v.Storable := by
  cases v with
  | str t => exact Or.inr (Or.inl rfl)
  | null => exact Or.inr (Or.inr rfl)
  | obj o => exact Or.inr (Or.inr rfl)
  | _ => cases h

theorem Value.storable_of_admits {type : MethodType} {v : Value} (h : type.Admits v) :
    v = .void ∨ v.Storable := by
  by_cases hvoid : type.void = true
  · rw [MethodType.Admits, if_pos hvoid] at h
    exact Or.inl h
  · rw [MethodType.Admits, if_neg hvoid] at h
    exact Or.inr (storable_of_isReference h)

def Instruction.slot? : Instruction → Option Nat
  | .store _ slot | .iinc slot _ => some slot.toNat
  | .storeShort _ slot => some slot.val
  | _ => none

def Instruction.Stores (i : Instruction) (before after : List Value) : Prop :=
  ∃ slot v, i.slot? = some slot ∧ v.Storable ∧ after = before.set slot v

theorem Instruction.Stores.length_eq {i : Instruction} {before after : List Value}
    (h : i.Stores before after) : after.length = before.length := by
  obtain ⟨slot, v, -, -, rfl⟩ := h
  exact List.length_set

namespace Machine
open Fallible Effect
variable {α β : Type} {program : Program}

/-- A property of stores that every instruction keeps, and by which static fields and native
methods give values that can be pushed. -/
structure Enduring (program : Program) (S : Store → Prop) : Prop where
  staticField : ∀ {s name c field v}, S s → s.lookup name = .ok c → s.staticField c field = .ok v →
    v.Storable
  newObject : ∀ {s name c}, S s → s.lookup name = .ok c → S (s.newObject c).2
  call : ∀ m ∈ program.methods, ∀ args, args.length = m.arity →
    Triple S (m.invoke args) (fun v t => (v = .void ∨ v.Storable) ∧ S t) fun _ => S

/-- In the middle of an instruction: the frame is that of the start, but for the stack, and the
local variables are as given. -/
structure Held (start : Frame) (S : Store → Prop) (locals : List Value) (a : Activation) :
    Prop where
  frame : a.frame = { start with stack := a.frame.stack, locals }
  room : a.frame.stack.length ≤ start.maxStack
  storable : ∀ v ∈ a.frame.stack, v.Storable
  store : S a.store

section Parts
variable {start : Frame} {S : Store → Prop} {locals : List Value}

abbrev Part (start : Frame) (S : Store → Prop) (locals : List Value) (e : Effect α)
    (P : α → Prop) : Prop :=
  Triple (Held start S locals) e (fun x a => P x ∧ Held start S locals a)
    fun _ => Held start S locals

theorem part_bind {e : Effect α} {f : α → Effect β} {P : α → Prop} {K : β → Activation → Prop}
    (he : Part start S locals e P)
    (hf : ∀ x, P x → Triple (Held start S locals) (f x) K fun _ => Held start S locals) :
    Triple (Held start S locals) (e >>= f) K fun _ => Held start S locals :=
  triple_bind he fun x a ha => hf x ha.1 a ha.2

theorem part_pure {P : α → Prop} {x : α} (hx : P x) : Part start S locals (pure x) P :=
  triple_pure fun _ ha => ⟨hx, ha⟩

theorem held_throw {K : α → Activation → Prop} (cause : Cause) :
    Triple (Held start S locals) (throw cause : Effect α) K fun _ => Held start S locals :=
  triple_throw fun _ ha => ha

theorem Held.withStack {a : Activation} {stack : List Value} (ha : Held start S locals a)
    (hroom : stack.length ≤ start.maxStack) (hstack : ∀ v ∈ stack, v.Storable) :
    Held start S locals (a.withStack stack) where
  frame := by
    rw [Activation.withStack, ha.frame]
  room := hroom
  storable := hstack
  store := ha.store

theorem part_ofFrame (read : Frame → Except Cause α) :
    Part start S locals (ofFrame read) fun _ => True := by
  intro a ha
  simp only [ofFrame]
  cases read a.frame with
  | ok x => exact ⟨trivial, ha⟩
  | error cause => exact ha

theorem part_push {v : Value} (hv : v.Storable) : Part start S locals (push v) fun _ => True := by
  intro a ha
  have hmax : a.frame.maxStack = start.maxStack := by rw [ha.frame]
  by_cases hroom : a.frame.stack.length < a.frame.maxStack
  · rw [push_of_room hroom]
    refine ⟨trivial, ha.withStack ?_ ?_⟩
    · rw [List.length_cons]
      omega
    · rw [List.forall_mem_cons]
      exact ⟨hv, ha.storable⟩
  · rw [push_of_full (Nat.le_of_not_lt hroom)]
    exact ha

theorem part_pop : Part start S locals pop Value.Storable := by
  intro a ha
  cases hstack : a.frame.stack with
  | nil =>
    simp only [pop, takeFrame, Frame.pop, hstack]
    exact ha
  | cons v vs =>
    have hroom := ha.room
    have hall := ha.storable
    rw [hstack, List.length_cons] at hroom
    rw [hstack, List.forall_mem_cons] at hall
    rw [pop_of_cons hstack]
    exact ⟨hall.1, ha.withStack (by omega) hall.2⟩

theorem part_popN (n : Nat) : Part start S locals (popN n) fun vs => vs.length = n := by
  intro a ha
  by_cases hn : n ≤ a.frame.stack.length
  · rw [popN_of_le hn]
    refine ⟨?_, ha.withStack ?_ fun v hv => ha.storable v (List.mem_of_mem_drop hv)⟩
    · simp [List.length_take_of_le hn]
    · have hroom := ha.room
      rw [List.length_drop]
      omega
  · rw [popN_of_lt (Nat.lt_of_not_le hn)]
    exact ha

theorem part_peek : Part start S locals peek Value.Storable := by
  intro a ha
  cases hstack : a.frame.stack with
  | nil =>
    simp only [peek, ofFrame, Frame.peek, hstack]
    exact ha
  | cons v vs =>
    rw [peek_of_cons hstack]
    exact ⟨ha.storable v (by simp [hstack]), ha⟩

theorem part_getLocal (slot : Nat) : Part start S locals (getLocal slot) fun _ => True :=
  part_ofFrame _

theorem held_setLocal (slot : Nat) (v : Value) :
    Triple (Held start S locals) (setLocal slot v) (fun _ => Held start S (locals.set slot v))
      fun _ => Held start S locals := by
  intro a ha
  have hlocals : a.frame.locals = locals := by rw [ha.frame]
  by_cases hslot : slot < a.frame.locals.length
  · rw [setLocal_of_lt hslot]
    refine ⟨?_, ha.room, ha.storable, ha.store⟩
    rw [hlocals, ha.frame]
  · simp only [setLocal, onFrame, Frame.setLocal, if_neg hslot]
    exact ha

theorem part_link (x : Except ClassFile.Error α) : Part start S locals (link x) fun _ => True := by
  cases x with
  | ok x => exact part_pure trivial
  | error e => exact held_throw _

theorem held_ofStore (read : Store → Except Library.Error α) :
    Triple (Held start S locals) (ofStore read)
      (fun x a => read a.store = .ok x ∧ Held start S locals a) fun _ => Held start S locals := by
  intro a ha
  cases hread : read a.store with
  | ok x =>
    rw [ofStore_of_ok hread]
    exact ⟨hread, ha⟩
  | error e =>
    rw [ofStore_of_error hread]
    exact ha

theorem part_ofStore {P : α → Prop} (read : Store → Except Library.Error α)
    (hP : ∀ s x, read s = .ok x → P x) : Part start S locals (ofStore read) P :=
  (held_ofStore read).weaken (fun _ ha => ha) fun x a hx => ⟨hP a.store x hx.1, hx.2⟩

theorem held_operandType {K : α → Activation → Prop} (op : UInt8) (v : Value) (want : String) :
    Triple (Held start S locals) (operandType op v want) K fun _ => Held start S locals :=
  part_bind (part_ofFrame fun f => .ok f.pc) fun _ _ => held_throw _

theorem part_popInt (op : UInt8) : Part start S locals (popInt op) fun _ => True := by
  refine part_bind part_pop fun v _ => ?_
  cases v with
  | int n => exact part_pure trivial
  | _ => exact held_operandType op _ "int"

theorem part_popInts (op : UInt8) : Part start S locals (popInts op) fun _ => True := by
  refine part_bind (part_ofFrame _) fun f _ => triple_ite (fun _ => held_throw _) fun _ => ?_
  refine part_bind (part_popInt op) fun b _ => part_bind (part_popInt op) fun a _ => ?_
  exact part_pure trivial

theorem part_popRef (op : UInt8) : Part start S locals (popRef op) Value.Storable := by
  refine part_bind part_pop fun v hv => triple_ite (fun _ => part_pure hv) fun _ => ?_
  exact held_operandType op v "reference"

theorem part_checkSlot (op : UInt8) (kind : SlotKind) (v : Value) :
    Part start S locals (checkSlot op kind v) fun _ => v.Storable := by
  cases kind with
  | int =>
    refine triple_ite (fun hv => part_pure ?_) fun _ => held_operandType op v "int"
    exact Or.inl hv
  | reference =>
    refine triple_ite (fun hv => part_pure ?_) fun _ => held_operandType op v "reference"
    exact Value.storable_of_isReference hv

theorem part_loadSlot (op : UInt8) (kind : SlotKind) (slot : Nat) :
    Part start S locals (loadSlot op kind slot) fun _ => True :=
  part_bind (part_getLocal slot) fun v _ => part_bind (part_checkSlot op kind v) fun _ hv =>
    part_push hv

theorem part_branchTo (offset : Int16) : Part start S locals (branchTo offset) fun _ => True :=
  part_bind (part_ofFrame _) fun _ _ => triple_ite (fun _ => part_pure trivial) fun _ =>
    held_throw _

theorem part_holds (op : UInt8) (test : Test) :
    Part start S locals (holds op test) fun _ => True := by
  cases test with
  | eqZero => exact part_bind (part_popInt op) fun n _ => part_pure trivial
  | neZero => exact part_bind (part_popInt op) fun n _ => part_pure trivial
  | less => exact part_bind (part_popInts op) fun p _ => part_pure trivial
  | greaterEq => exact part_bind (part_popInts op) fun p _ => part_pure trivial
  | always => exact part_pure trivial

theorem part_loadConstant (op : UInt8) (index : UInt16) :
    Part start S locals (loadConstant program op index) fun _ => True := by
  refine part_bind (part_link _) fun kind _ => ?_
  refine triple_ite (fun _ => ?_) fun _ => triple_ite (fun _ => ?_) fun _ => ?_
  · exact part_bind (part_link _) fun t _ => part_push (Or.inr (Or.inl rfl))
  · exact part_bind (part_link _) fun _ _ => part_pure trivial
  · exact part_bind (part_ofFrame fun f => .ok f.pc) fun pc _ => held_throw _

theorem part_findMethod (c : ClassId) (isStatic : Bool) (ref : MemberRef) :
    Part start S locals (findMethod program c isStatic ref) (· ∈ program.methods) :=
  part_ofStore _ fun _ _ => method_mem

theorem part_call (hS : Enduring program S) {m : Method} (hm : m ∈ program.methods)
    {args : List Value} (hargs : args.length = m.arity) :
    Part start S locals (call m args) fun v => v = .void ∨ v.Storable := by
  intro a ha
  have hcall := hS.call m hm args hargs a.store ha.store
  cases hr : m.invoke args a.store with
  | ok v s =>
    rw [hr] at hcall
    rw [call_of_ok hr]
    exact ⟨hcall.1, ha.frame, ha.room, ha.storable, hcall.2⟩
  | error e s =>
    rw [hr] at hcall
    rw [call_of_error hr]
    exact ⟨ha.frame, ha.room, ha.storable, hcall⟩

theorem part_invokeMethod (hS : Enduring program S) (mode : Mode) (index : UInt16) :
    Part start S locals (invokeMethod program mode index) fun _ => True := by
  refine part_bind (part_link _) fun ref _ => ?_
  refine part_bind (part_ofStore _ fun _ _ _ => trivial) fun c _ => ?_
  refine part_bind (part_findMethod c _ ref) fun m hm => ?_
  refine part_bind (part_popN _) fun args hargs => part_bind (part_call hS hm hargs) fun v hv => ?_
  refine triple_ite (fun _ => part_pure trivial) fun hpushed => part_push ?_
  exact hv.resolve_left fun hvoid => hpushed (Or.inr hvoid)

theorem held_staticField (hS : Enduring program S) (name field : Bytes) (c : ClassId) :
    Triple (fun a => a.store.lookup name = .ok c ∧ Held start S locals a)
      (ofStore (·.staticField c field)) (fun v a => v.Storable ∧ Held start S locals a)
      fun _ => Held start S locals := by
  rintro a ⟨hc, ha⟩
  cases hv : a.store.staticField c field with
  | ok v =>
    rw [ofStore_of_ok hv]
    exact ⟨hS.staticField ha.store hc hv, ha⟩
  | error e =>
    rw [ofStore_of_error hv]
    exact ha

theorem held_makeObject (hS : Enduring program S) (name : Bytes) (c : ClassId) :
    Triple (fun a => a.store.lookup name = .ok c ∧ Held start S locals a) (makeObject c)
      (fun _ a => True ∧ Held start S locals a) fun _ => Held start S locals := by
  refine triple_bind (J := fun v a => v.Storable ∧ Held start S locals a) ?_ ?_
  · rintro a ⟨hc, ha⟩
    exact ⟨Or.inr (Or.inr rfl), ha.frame, ha.room, ha.storable, hS.newObject ha.store hc⟩
  · intro v a ha
    exact part_push ha.1 a ha.2

end Parts

section Instructions
variable {S : Store → Prop} {start : Frame} {locals : List Value}

abbrev Done (start : Frame) (S : Store → Prop) (locals : List Value) (i : Instruction) (c : Control)
    (a : Activation) : Prop :=
  ∃ after, (after = locals ∨ c = .next ∧ i.Stores locals after) ∧ Held start S after a

theorem held_storeSlot {i : Instruction} (op : UInt8) (kind : SlotKind) {slot : Nat}
    (hslot : i.slot? = some slot) :
    Triple (Held start S locals) (do storeSlot op kind slot; pure .next : Effect Control)
      (Done start S locals i) fun _ => Held start S locals := by
  have hstore : Triple (Held start S locals) (storeSlot op kind slot : Effect Unit)
      (fun _ a => ∃ after, i.Stores locals after ∧ Held start S after a)
      fun _ => Held start S locals := by
    refine part_bind part_pop fun v _ => part_bind (part_checkSlot op kind v) fun _ hv => ?_
    refine (held_setLocal slot v).weaken (fun _ ha => ha) fun _ a ha => ?_
    exact ⟨_, ⟨slot, v, hslot, hv, rfl⟩, ha⟩
  refine triple_bind hstore fun _ => triple_pure fun a ha => ?_
  obtain ⟨after, hafter, ha⟩ := ha
  exact ⟨after, Or.inr ⟨rfl, hafter⟩, ha⟩

/-- An instruction that succeeds leaves the frame as it found it, but for the stack, the values of
which can all be stored, and a local variable that it stores a value in. One that fails stores
nothing. -/
theorem execute_held (hS : Enduring program S) (i : Instruction) :
    Triple (Held start S locals) (execute program i) (Done start S locals i)
      fun _ => Held start S locals := by
  have same (c : Control) : Triple (Held start S locals) (pure c : Effect Control)
      (Done start S locals i) fun _ => Held start S locals :=
    triple_pure fun a ha => ⟨locals, Or.inl rfl, ha⟩
  have next {e : Effect Unit} (he : Part start S locals e fun _ => True) :
      Triple (Held start S locals) (do e; pure Control.next) (Done start S locals i)
        fun _ => Held start S locals := part_bind he fun _ _ => same .next
  have number (n : Int32) : (Value.int n).Storable := Or.inl rfl
  cases i with
  | nop => exact same _
  | iconst n => exact next (part_push (number _))
  | bipush n => exact next (part_push (number _))
  | sipush n => exact next (part_push (number _))
  | ldc index => exact next (part_loadConstant _ _)
  | ldcWide index => exact next (part_loadConstant _ _)
  | load kind slot => exact next (part_loadSlot _ kind _)
  | loadShort kind slot => exact next (part_loadSlot _ kind _)
  | store kind slot => exact held_storeSlot _ kind rfl
  | storeShort kind slot => exact held_storeSlot _ kind rfl
  | pop => exact part_bind part_pop fun _ _ => same _
  | dup => exact part_bind part_peek fun v hv => next (part_push hv)
  | iadd => exact part_bind (part_popInts _) fun p _ => next (part_push (number _))
  | isub => exact part_bind (part_popInts _) fun p _ => next (part_push (number _))
  | iinc slot amount =>
    refine part_bind (part_getLocal _) fun v _ => ?_
    cases v with
    | int n =>
      refine triple_bind (held_setLocal _ _) fun _ => triple_pure fun a ha => ?_
      exact ⟨_, Or.inr ⟨rfl, _, _, rfl, number _, rfl⟩, ha⟩
    | _ => exact held_operandType _ _ "int"
  | branch test offset =>
    refine part_bind (part_holds _ test) fun taken _ => ?_
    cases taken with
    | true =>
      refine (part_branchTo offset).weaken (fun _ ha => ha) fun _ a ha => ?_
      exact ⟨locals, Or.inl rfl, ha.2⟩
    | false => exact same _
  | ireturn => exact part_bind (part_popInt _) fun n _ => same _
  | areturn => exact part_bind (part_popRef _) fun v _ => same _
  | ret => exact same _
  | getstatic index =>
    refine part_bind (part_link _) fun ref _ => triple_bind (held_ofStore _) fun c => ?_
    refine triple_bind (held_staticField hS _ _ c) fun v a ha => ?_
    exact next (part_push ha.1) a ha.2
  | invoke mode index => exact next (part_invokeMethod hS mode index)
  | new index =>
    refine part_bind (part_link _) fun name _ => triple_bind (held_ofStore _) fun c => ?_
    exact triple_bind (held_makeObject hS _ c) fun _ a ha => same _ a ha.2

end Instructions

/-- With the standard library it is enough that calls and new objects do no harm. -/
theorem enduring_of_settled {S : Store → Prop}
    (hmethods : program.methods = Registry.standardMethods) (hstandard : ∀ s, S s → s.Standard)
    (hsettled : Store.Settled S)
    (hnew : ∀ s name c, S s → s.lookup name = .ok c → S (s.newObject c).2) :
    Enduring program S where
  staticField {s name c field v} hs hc hv := by
    rw [(hstandard s hs).staticField hc hv]
    exact Or.inr (Or.inr rfl)
  newObject := hnew _ _ _
  call m hm args hargs := by
    rw [hmethods] at hm
    intro s hs
    have hsaves := Registry.standardMethods_settled hsettled hm args s hs
    have htame := Registry.standardMethods_tame m hm args hargs
    cases hr : m.invoke args s with
    | ok v t =>
      rw [hr] at hsaves
      exact ⟨Value.storable_of_admits (htame.ok s v t hr).2, hsaves⟩
    | error e t =>
      rw [hr] at hsaves
      exact hsaves

/-! Runs. -/

structure Intact (start f : Frame) : Prop where
  code : f.code = start.code
  maxStack : f.maxStack = start.maxStack
  slots : f.locals.length = start.locals.length
  depth : f.stack.length ≤ start.maxStack
  storable : ∀ v ∈ f.stack, v.Storable
  pc : 0 ≤ f.pc ∧ f.pc ≤ start.code.length

section Runs
variable {S : Store → Prop} {start : Frame} {a : Activation}

theorem Held.intact {f : Frame} {after : List Value} {b : Activation} (hb : Held f S after b)
    (hf : Intact start f) (hlen : after.length = f.locals.length) {pc : Int}
    (hpc : 0 ≤ pc ∧ pc ≤ start.code.length) : Intact start { b.frame with pc := pc } where
  code := by
    rw [hb.frame]
    exact hf.code
  maxStack := by
    rw [hb.frame]
    exact hf.maxStack
  slots := by
    rw [hb.frame]
    exact hlen.trans hf.slots
  depth := hf.maxStack ▸ hb.room
  storable := hb.storable
  pc := hpc

theorem next_inside {code : Bytes} {pc : Int} {i : Instruction} (h : decode code pc = .ok i) :
    0 ≤ pc ∧ pc + i.length ≤ code.length := by
  obtain ⟨before, rest, rfl, rfl⟩ := (decode_ok_iff code pc i).1 h
  simp only [Instruction.length, List.length_append]
  omega

theorem execute_ok_held {f : Frame} {locals : List Value} {b : Activation} {i : Instruction}
    {control : Control} (hS : Enduring program S) (ha : Held f S locals a)
    (h : execute program i a = .ok control b) :
    Held f S b.frame.locals b ∧ b.frame.locals.length = locals.length ∧
      (b.frame.locals = locals ∨ control = .next ∧ i.Stores locals b.frame.locals) := by
  have hdone := execute_held hS i a ha
  rw [h] at hdone
  obtain ⟨after, hafter, hb⟩ := hdone
  obtain rfl : b.frame.locals = after := by rw [hb.frame]
  refine ⟨hb, ?_, hafter⟩
  obtain hsame | ⟨-, hstores⟩ := hafter
  · rw [hsame]
  · exact hstores.length_eq

theorem step_intact (hS : Enduring program S) (hf : Intact start a.frame) (hs : S a.store) :
    (Intact start (a.step program).1.frame ∧ S (a.step program).1.store) ∧
      ((a.step program).1.frame.locals = a.frame.locals ∨
        (a.step program).2 = none ∧ ∃ i, decode a.frame.code a.frame.pc = .ok i ∧
          i.Stores a.frame.locals (a.step program).1.frame.locals) := by
  have hcounted : Intact start a.counted.frame :=
    ⟨hf.code, hf.maxStack, hf.slots, hf.depth, hf.storable, hf.pc⟩
  have hheld : Held a.counted.frame S a.frame.locals a.counted :=
    ⟨rfl, hf.maxStack ▸ hf.depth, hf.storable, hs⟩
  have hstep := a.step_cases program
  generalize a.step program = r at hstep ⊢
  cases hstep with
  | stuck => exact ⟨⟨hf, hs⟩, Or.inl rfl⟩
  | @next i _ decoded executed =>
    obtain ⟨hb, hlen, hlocals⟩ := execute_ok_held hS hheld executed
    have hinside := next_inside decoded
    rw [hf.code] at hinside
    refine ⟨⟨hb.intact hcounted hlen (by omega), hb.store⟩, ?_⟩
    exact hlocals.imp_right fun hstores => ⟨rfl, i, decoded, hstores.2⟩
  | jump _ executed =>
    obtain ⟨hb, hlen, hlocals⟩ := execute_ok_held hS hheld executed
    obtain ⟨test, offset, -, -, hge, hlt⟩ := execute_jump executed
    have hcode : a.counted.frame.code.length = start.code.length := by rw [hcounted.code]
    refine ⟨⟨hb.intact hcounted hlen (by omega), hb.store⟩, Or.inl ?_⟩
    exact hlocals.resolve_right fun hnext => nomatch hnext.1
  | @done _ b _ _ executed =>
    obtain ⟨hb, hlen, hlocals⟩ := execute_ok_held hS hheld executed
    have hpc : b.frame.pc = a.frame.pc := by rw [hb.frame]; rfl
    refine ⟨⟨hb.intact hcounted hlen (hpc ▸ hf.pc), hb.store⟩, Or.inl ?_⟩
    exact hlocals.resolve_right fun hnext => nomatch hnext.1
  | @fault i b _ _ executed =>
    have hb := execute_held hS i a.counted hheld
    rw [executed] at hb
    have hpc : b.frame.pc = a.frame.pc := by rw [hb.frame]; rfl
    exact ⟨⟨hb.intact hcounted rfl (hpc ▸ hf.pc), hb.store⟩, Or.inl (by rw [hb.frame])⟩

variable (setting : Setting) {s : State}

theorem round_intact (hS : Enduring setting.program S) (hf : Intact start s.frame)
    (hs : S s.store) :
    (Intact start (s.round setting).1.frame ∧ S (s.round setting).1.store) ∧
      ((s.round setting).1.frame.locals = s.frame.locals ∨
        (s.round setting).2 = none ∧ ∃ i, decode s.frame.code s.frame.pc = .ok i ∧
          i.Stores s.frame.locals (s.round setting).1.frame.locals) := by
  obtain ⟨-, hr⟩ | ⟨-, -, -, hr⟩ | ⟨-, -, hr⟩ := round_cases setting s
  · rw [hr]
    exact ⟨⟨hf, hs⟩, Or.inl rfl⟩
  · rw [hr]
    exact ⟨⟨hf, hs⟩, Or.inl rfl⟩
  · have hstep := step_intact (a := (s.look setting).activation) hS hf hs
    rw [advance_step setting (s.look setting)] at hstep
    rw [hr]
    exact hstep

theorem run_intact (hS : Enduring setting.program S) (hf : Intact start s.frame) (hs : S s.store)
    (n : Nat) : Intact start (s.run setting n).1.frame ∧ S (s.run setting n).1.store := by
  induction n with
  | zero => exact ⟨hf, hs⟩
  | succ n ih =>
    rw [run_succ]
    cases hrun : s.run setting n with
    | mk t o =>
      rw [hrun] at ih
      cases o with
      | some out => exact ih
      | none => exact (round_intact setting hS ih.1 ih.2).1

/-- In round `k` of a run an instruction is executed that sets a local variable. -/
def StoredIn (setting : Setting) (s : State) (slot : Nat) (v : Value) (k : Nat) : Prop :=
  ∃ t u i, s.run setting k = (t, none) ∧ t.round setting = (u, none) ∧
    decode t.frame.code t.frame.pc = .ok i ∧ i.slot? = some slot ∧ u.frame.locals[slot]? = some v

/-- A local variable holds what it held at first, or what was stored in it last. -/
theorem run_locals (hS : Enduring setting.program S) (hf : Intact start s.frame) (hs : S s.store)
    (n : Nat) {slot : Nat} {v : Value} (hv : (s.run setting n).1.frame.locals[slot]? = some v) :
    s.frame.locals[slot]? = some v ∨ v.Storable ∧ ∃ k < n, StoredIn setting s slot v k := by
  induction n with
  | zero => exact Or.inl hv
  | succ n ih =>
    have hkept := run_intact setting hS hf hs n
    have earlier (h : s.frame.locals[slot]? = some v ∨
        v.Storable ∧ ∃ k < n, StoredIn setting s slot v k) :
        s.frame.locals[slot]? = some v ∨ v.Storable ∧ ∃ k < n + 1, StoredIn setting s slot v k :=
      h.imp_right fun ⟨hstorable, k, hk, hin⟩ => ⟨hstorable, k, Nat.lt_succ_of_lt hk, hin⟩
    rw [run_succ] at hv
    cases hrun : s.run setting n with
    | mk t o =>
      rw [hrun] at ih hv hkept
      cases o with
      | some out => exact earlier (ih hv)
      | none =>
        obtain ⟨-, hsame | ⟨hgoes, i, hi, at', w, hslot, hw, hset⟩⟩ :=
          round_intact setting hS hkept.1 hkept.2
        · rw [hsame] at hv
          exact earlier (ih hv)
        · by_cases hat : at' = slot
          · subst hat
            have hvw : w = v := by
              rw [hset, List.getElem?_set, if_pos rfl] at hv
              split at hv
              · exact Option.some.inj hv
              · cases hv
            subst hvw
            exact Or.inr ⟨hw, n, Nat.lt_succ_self n, t, (t.round setting).1, i, hrun,
              Prod.ext rfl hgoes, hi, hslot, hv⟩
          · rw [hset, List.getElem?_set_ne hat] at hv
            exact earlier (ih hv)

end Runs

theorem standard_enduring (hmethods : program.methods = Registry.standardMethods) :
    Enduring program Store.Standard :=
  enduring_of_settled hmethods (fun _ hs => hs) Store.Standard.settled
    fun _ _ _ hs _ => ⟨hs.registered, hs.classes⟩

/-- However far a run with the standard library goes, the stack has room for its values, none of
them void, and a local variable holds what it held at first or what was stored in it. -/
theorem run_keeps_frame (setting : Setting) (s : State)
    (hmethods : setting.program.methods = Registry.standardMethods) (hstore : s.store.Standard)
    (hstack : s.frame.stack = []) (hpc : s.frame.pc = 0) (n : Nat) :
    let f := (s.run setting n).1.frame
    f.depth ≤ s.frame.maxStack ∧ (∀ v ∈ f.stack, v.kind ≠ .void) ∧
      f.locals.length = s.frame.locals.length ∧ f.code = s.frame.code ∧
      f.maxStack = s.frame.maxStack ∧ (0 ≤ f.pc ∧ f.pc ≤ f.code.length) ∧
      ∀ slot v, f.locals[slot]? = some v → s.frame.locals[slot]? = some v ∨
        (v.kind = .int ∨ v.kind = .string ∨ v.kind = .object) ∧
          ∃ k < n, StoredIn setting s slot v k := by
  have hstart : Intact s.frame s.frame := by
    refine ⟨rfl, rfl, rfl, ?_, ?_, ?_⟩
    · simp [hstack]
    · simp [hstack]
    · rw [hpc]
      omega
  have hS := standard_enduring hmethods
  have hkept := (run_intact setting hS hstart hstore n).1
  refine ⟨hkept.depth, fun v hv => (hkept.storable v hv).ne_void, hkept.slots, hkept.code,
    hkept.maxStack, ?_, fun slot v hv => run_locals setting hS hstart hstore n hv⟩
  rw [hkept.code]
  exact hkept.pc

/-- Moves a string from the first local variable to the second, counts in the first one, and then
adds the number to the string. -/
def relay : State where
  frame := {
    code := [0x2A, 0x4C, 0x06, 0x3B, 0x84, 0x00, 0x01, 0x2B, 0x1A, 0x60]
    maxStack := 2
    locals := [.str (utf8 "x"), .void, .alien 7] }
  store := Registry.standardStore {}

theorem relay_keeps_frame :
    let ended := relay.run { program := { methods := Registry.standardMethods } } 9
    ended.2 = some (.stopped (.fault [] 9 0x60 (.operandType 0x60 9 .string "int"))) ∧
      ended.1.frame.locals = [.int 4, .str (utf8 "x"), .alien 7] ∧
      (0 ≤ ended.1.frame.pc ∧ ended.1.frame.pc ≤ 10) ∧
      ∃ k < 9,
        StoredIn { program := { methods := Registry.standardMethods } } relay 0 (.int 4) k := by
  have hkept := run_keeps_frame { program := { methods := Registry.standardMethods } } relay rfl
    ⟨rfl, List.prefix_rfl⟩ rfl rfl 9
  have hstored := (hkept.2.2.2.2.2.2 0 (.int 4) rfl).resolve_left (by decide)
  exact ⟨rfl, rfl, hkept.2.2.2.2.2.1, hstored.2⟩

end Machine

end ClassMachine
