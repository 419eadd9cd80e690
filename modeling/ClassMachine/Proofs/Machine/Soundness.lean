import ClassMachine.Proofs.Library.Calls
import ClassMachine.Proofs.Machine.Steps
import ClassMachine.Proofs.Machine.Typing

/-! Soundness of typings. An instruction that has a type, executed on a frame of that type, does
what its type says (`execute_typed`): it does not run out of operands, of room on the stack or of
code, and finds everything it refers to. Only a call can fail, when the native method does not
accept what it gets. So a run that starts from a consistent typing follows it. -/
namespace ClassMachine.Machine
open Fallible Effect
variable {α β : Type} {a : Activation} {lax : Bool}

theorem checkSlot_of_kind {op : UInt8} {kind : SlotKind} {v : Value}
    (h : v.slotKind? = some kind) : checkSlot op kind v a = .ok () a := by
  cases kind with
  | int =>
    obtain ⟨n, rfl⟩ := Value.eq_int_of_slotKind? h
    rfl
  | reference =>
    rw [checkSlot, if_pos ((Value.slotKind?_eq_reference_iff v).1 h)]
    rfl

section Operands
variable {ks : List SlotKind} {ls : List (Option SlotKind)} {kind : SlotKind}

theorem push_typed {v : Value} (h : (FrameType.mk ks ls).Describes lax a.frame)
    (hv : v.slotKind? = some kind) (hroom : (kind :: ks).length ≤ a.frame.maxStack) :
    push v a = .ok () (a.withStack (v :: a.frame.stack)) ∧
      (FrameType.mk (kind :: ks) ls).Describes lax (a.withStack (v :: a.frame.stack)).frame := by
  have hlt : a.frame.stack.length < a.frame.maxStack := by
    rw [h.depth]
    exact hroom
  exact ⟨push_of_room hlt v, h.push hv⟩

theorem pop_typed (h : (FrameType.mk (kind :: ks) ls).Describes lax a.frame) :
    ∃ v vs, pop a = .ok v (a.withStack vs) ∧ v.slotKind? = some kind ∧
      (FrameType.mk ks ls).Describes lax (a.withStack vs).frame := by
  obtain ⟨v, vs, hstack, hv, hvs⟩ := h.uncons
  exact ⟨v, vs, pop_of_cons hstack, hv, hvs⟩

theorem popInt_typed (op : UInt8) (h : (FrameType.mk (.int :: ks) ls).Describes lax a.frame) :
    ∃ n vs, (popInt op : Effect Int32) a = .ok n (a.withStack vs) ∧
      (FrameType.mk ks ls).Describes lax (a.withStack vs).frame := by
  obtain ⟨v, vs, hpop, hv, hvs⟩ := pop_typed h
  obtain ⟨n, rfl⟩ := Value.eq_int_of_slotKind? hv
  exact ⟨n, vs, popInt_of_int op hpop, hvs⟩

theorem popInts_typed (op : UInt8)
    (h : (FrameType.mk (.int :: .int :: ks) ls).Describes lax a.frame) :
    ∃ m n vs, (popInts op : Effect (Int32 × Int32)) a = .ok (m, n) (a.withStack vs) ∧
      (FrameType.mk ks ls).Describes lax (a.withStack vs).frame := by
  obtain ⟨n, vs, hn, hvs⟩ := popInt_typed op h
  obtain ⟨m, ws, hm, hws⟩ := popInt_typed op hvs
  have hdepth : ¬ a.frame.depth < 2 := by
    have := h.depth
    simp only [List.length_cons] at this
    simp only [Frame.depth]
    omega
  exact ⟨m, n, ws, popInts_of_ints hdepth hn hm, hws⟩

theorem popRef_typed (op : UInt8)
    (h : (FrameType.mk (.reference :: ks) ls).Describes lax a.frame) :
    ∃ v vs, (popRef op : Effect Value) a = .ok v (a.withStack vs) ∧
      v.slotKind? = some .reference := by
  obtain ⟨v, vs, hpop, hv, -⟩ := pop_typed h
  exact ⟨v, vs, popRef_of_reference op hpop ((Value.slotKind?_eq_reference_iff v).1 hv), hv⟩

theorem holds_typed (op : UInt8) (test : Test)
    (h : (FrameType.mk (test.operands ++ ks) ls).Describes lax a.frame) :
    ∃ taken vs, (holds op test : Effect Bool) a = .ok taken (a.withStack vs) ∧
      (FrameType.mk ks ls).Describes lax (a.withStack vs).frame ∧
      (test = .always → taken = true) := by
  cases test with
  | eqZero =>
    obtain ⟨n, vs, hn, hvs⟩ := popInt_typed op h
    exact ⟨n == 0, vs, bind_of_ok hn _, hvs, by simp⟩
  | neZero =>
    obtain ⟨n, vs, hn, hvs⟩ := popInt_typed op h
    exact ⟨n != 0, vs, bind_of_ok hn _, hvs, by simp⟩
  | less =>
    obtain ⟨m, n, vs, hmn, hvs⟩ := popInts_typed op h
    exact ⟨m < n, vs, bind_of_ok hmn _, hvs, by simp⟩
  | greaterEq =>
    obtain ⟨m, n, vs, hmn, hvs⟩ := popInts_typed op h
    exact ⟨¬ m < n, vs, bind_of_ok hmn _, hvs, by simp⟩
  | always => exact ⟨true, a.frame.stack, rfl, h, fun _ => rfl⟩

end Operands

def Typed (lax : Bool) (u : FrameType) (i : Instruction) (pc : Int) :
    EStateM.Result Cause Activation Control → Prop
  | .ok .next b => pc + i.length ∈ i.successors pc ∧ u.Describes lax b.frame
  | .ok (.jump target) b => target ∈ i.successors pc ∧ u.Describes lax b.frame
  | .ok (.done v) _ => i.Returns v
  | .error cause _ =>
    (∃ mode index, i = .invoke mode index) ∧ ∃ e, cause = .library e ∧ e.Raised

section Instructions
variable {ks : List SlotKind} {ls : List (Option SlotKind)} {kind : SlotKind} {u : FrameType}
  {i : Instruction} {pc : Int}

theorem typed_bind {e : Effect α} {f : α → Effect Control} {x : α} {b : Activation}
    (he : e a = .ok x b) (hf : Typed lax u i pc (f x b)) : Typed lax u i pc ((e >>= f) a) := by
  rw [bind_of_ok he]
  exact hf

theorem typed_push {v : Value} (h : (FrameType.mk ks ls).Describes lax a.frame)
    (hv : v.slotKind? = some kind) (hroom : (kind :: ks).length ≤ a.frame.maxStack)
    (hnext : pc + i.length ∈ i.successors pc) :
    Typed lax ⟨kind :: ks, ls⟩ i pc ((do push v; pure .next : Effect Control) a) := by
  obtain ⟨hpush, hvs⟩ := push_typed h hv hroom
  exact typed_bind hpush ⟨hnext, hvs⟩

theorem typed_load {slot : Nat} (op : UInt8) (h : (FrameType.mk ks ls).Describes lax a.frame)
    (hslot : ls[slot]? = some (some kind)) (hroom : (kind :: ks).length ≤ a.frame.maxStack)
    (hnext : pc + i.length ∈ i.successors pc) : Typed lax ⟨kind :: ks, ls⟩ i pc
      ((do loadSlot op kind slot; pure .next : Effect Control) a) := by
  obtain ⟨v, hget, hv⟩ := h.localValue hslot
  have hload : (loadSlot op kind slot : Effect Unit) a = push v a :=
    loadSlot_of_ok (getLocal_of_some hget) (checkSlot_of_kind hv)
  obtain ⟨hpush, hvs⟩ := push_typed h hv hroom
  exact typed_bind (hload.trans hpush) ⟨hnext, hvs⟩

theorem typed_store {slot : Nat} (op : UInt8)
    (h : (FrameType.mk (kind :: ks) ls).Describes lax a.frame) (hslot : slot < ls.length)
    (hnext : pc + i.length ∈ i.successors pc) : Typed lax ⟨ks, ls.set slot (some kind)⟩ i pc
      ((do storeSlot op kind slot; pure .next : Effect Control) a) := by
  obtain ⟨v, vs, hpop, hv, hvs⟩ := pop_typed h
  have hlt : slot < (a.withStack vs).frame.locals.length := by
    rw [hvs.locals.length_eq]
    exact hslot
  have hstore : (storeSlot op kind slot : Effect Unit) a = setLocal slot v (a.withStack vs) :=
    storeSlot_of_ok hpop (checkSlot_of_kind hv)
  refine typed_bind (hstore.trans (setLocal_of_lt hlt v)) ⟨hnext, ?_⟩
  exact hvs.setLocal hv

theorem typed_branch {test : Test} {offset : Int16} (op : UInt8)
    (h : (FrameType.mk (test.operands ++ ks) ls).Describes lax a.frame)
    (hinside : 0 ≤ a.frame.pc + offset.toInt ∧
      a.frame.pc + offset.toInt < a.frame.code.length) :
    Typed lax ⟨ks, ls⟩ (.branch test offset) a.frame.pc
      ((do if ← holds op test then branchTo offset else pure .next : Effect Control) a) := by
  obtain ⟨taken, vs, hholds, hvs, halways⟩ := holds_typed op test h
  refine typed_bind hholds ?_
  cases taken with
  | true =>
    have hjump : branchTo offset (a.withStack vs) =
        .ok (.jump (a.frame.pc + offset.toInt)) (a.withStack vs) := by
      rw [branchTo, bind_of_ok (ofFrame_frame _)]
      exact congrFun (if_pos hinside) _
    rw [if_pos rfl, hjump]
    exact ⟨Instruction.target_mem_successors test offset _, hvs⟩
  | false =>
    have htest : test ≠ .always := fun h => Bool.false_ne_true (halways h)
    exact ⟨Instruction.next_mem_successors htest offset _, hvs⟩

theorem typed_iinc {program : Program} {slot : UInt8} {amount : Int8}
    (h : (FrameType.mk ks ls).Describes lax a.frame)
    (hslot : ls[slot.toNat]? = some (some .int)) :
    Typed lax ⟨ks, ls⟩ (.iinc slot amount) pc (execute program (.iinc slot amount) a) := by
  obtain ⟨v, hget, hv⟩ := h.localValue hslot
  obtain ⟨n, rfl⟩ := Value.eq_int_of_slotKind? hv
  obtain ⟨hlt, -⟩ := List.getElem?_eq_some_iff.1 hget
  have hset : (FrameType.mk ks (ls.set slot.toNat (some .int))).Describes lax
      { a.frame with locals := a.frame.locals.set slot.toNat (.int (n + amount.toInt32)) } :=
    h.setLocal rfl
  have hsame : ls.set slot.toNat (some .int) = ls := by
    obtain ⟨hlt', hkind⟩ := List.getElem?_eq_some_iff.1 hslot
    rw [← hkind]
    exact List.set_getElem_self hlt'
  rw [hsame] at hset
  exact typed_bind (getLocal_of_some hget)
    (typed_bind (setLocal_of_lt hlt _) ⟨List.mem_cons_self, hset⟩)

theorem typed_constant {program : Program} {index : UInt16} {text : Bytes} (op : UInt8)
    (h : (FrameType.mk ks ls).Describes lax a.frame)
    (htext : program.pool.stringValue index = .ok text)
    (hroom : (SlotKind.reference :: ks).length ≤ a.frame.maxStack)
    (hnext : pc + i.length ∈ i.successors pc) : Typed lax ⟨.reference :: ks, ls⟩ i pc
      ((do loadConstant program op index; pure .next : Effect Control) a) := by
  obtain ⟨hpush, hvs⟩ := push_typed (v := .str text) h rfl hroom
  exact typed_bind ((loadConstant_of_string op htext).trans hpush) ⟨hnext, hvs⟩

theorem typed_object (c : ClassId) (h : (FrameType.mk ks ls).Describes lax a.frame)
    (hroom : (SlotKind.reference :: ks).length ≤ a.frame.maxStack)
    (hnext : pc + i.length ∈ i.successors pc) : Typed lax ⟨.reference :: ks, ls⟩ i pc
      ((do makeObject c; pure .next : Effect Control) a) := by
  have hmake : makeObject c a =
      push (.obj (a.store.newObject c).1) { a with store := (a.store.newObject c).2 } := rfl
  obtain ⟨hpush, hvs⟩ := push_typed (a := { a with store := (a.store.newObject c).2 })
    (v := .obj (a.store.newObject c).1) h rfl hroom
  exact typed_bind (hmake.trans hpush) ⟨hnext, hvs⟩

/-- A call fails only if the native method fails, and has a result where the type says so. -/
theorem typed_call {mode : Mode} {index : UInt16} {m : Method} {args : List Value}
    (h : (FrameType.mk ks ls).Describes lax a.frame)
    (htame : Native.Tame m.type.Admits (m.invoke args))
    (hroom : (if mode = .special ∨ m.type.void then ks else SlotKind.reference :: ks).length ≤
      a.frame.maxStack) :
    Typed lax ⟨if mode = .special ∨ m.type.void then ks else .reference :: ks, ls⟩
      (.invoke mode index) pc
      (((call m args >>= fun v => if mode = .special ∨ v = .void then pure () else push v) >>=
        fun _ => pure .next : Effect Control) a) := by
  have hnext : pc + (Instruction.invoke mode index).length ∈
      (Instruction.invoke mode index).successors pc := List.mem_cons_self
  cases hrun : m.invoke args a.store with
  | error e s =>
    rw [bind_of_error (bind_of_error (call_of_error hrun) _)]
    exact ⟨⟨mode, index, rfl⟩, e, rfl, (htame.error _ _ _ hrun).2⟩
  | ok v s =>
    have hadmits := (htame.ok _ _ _ hrun).2
    have hresult := bind_of_ok (call_of_ok hrun) fun v =>
      if mode = .special ∨ v = .void then pure () else push v
    -- the call leaves no result exactly where the type of the instruction has none
    have hiff : (mode = .special ∨ v = .void) ↔ (mode = .special ∨ m.type.void = true) := by
      refine or_congr_right ?_
      cases hvoid : m.type.void with
      | true => simpa [MethodType.Admits, hvoid] using hadmits
      | false =>
        have href : v.isReference = true := by simpa [MethodType.Admits, hvoid] using hadmits
        simp only [Bool.false_eq_true, iff_false]
        intro hv
        rw [hv] at href
        cases href
    by_cases hnone : mode = .special ∨ m.type.void = true
    · rw [if_pos (hiff.2 hnone)] at hresult
      rw [if_pos hnone]
      exact typed_bind hresult ⟨hnext, h⟩
    · have href : v.isReference = true := by
        have hvoid : m.type.void = false := by simpa using mt Or.inr hnone
        simpa [MethodType.Admits, hvoid] using hadmits
      rw [if_neg hnone] at hroom ⊢
      rw [if_neg (mt hiff.1 hnone)] at hresult
      obtain ⟨hpush, hvs⟩ := push_typed (a := { a with store := s }) h
        ((Value.slotKind?_eq_reference_iff v).2 href) hroom
      exact typed_bind (hresult.trans hpush) ⟨hnext, hvs⟩

theorem typed_invoke {program : Program} {mode : Mode} {index : UInt16} {ref : MemberRef}
    {c : ClassId} {m : Method} {args : List SlotKind}
    (h : (FrameType.mk (args ++ ks) ls).Describes lax a.frame)
    (href : program.pool.method index = .ok ref) (hclass : a.store.lookup ref.className = .ok c)
    (hmethod : Registry.method ⟨a.store, program.methods⟩ c (mode == .static) ref.name
      ref.descriptor = .ok m)
    (hargs : args.length = m.arity)
    (htame : ∀ vs : List Value, vs.length = m.arity → Native.Tame m.type.Admits (m.invoke vs))
    (hroom : (if mode = .special ∨ m.type.void then ks else SlotKind.reference :: ks).length ≤
      a.frame.maxStack) :
    Typed lax ⟨if mode = .special ∨ m.type.void then ks else .reference :: ks, ls⟩
      (.invoke mode index) pc
      ((do invokeMethod program mode index; pure .next : Effect Control) a) := by
  have hle : m.arity ≤ a.frame.stack.length := by
    rw [h.depth, ← hargs]
    simp
  have hrest : (FrameType.mk ks ls).Describes lax
      (a.withStack (a.frame.stack.drop m.arity)).frame :=
    ⟨hargs ▸ List.forall₂_drop_append _ _ _ h.stack, h.locals⟩
  have hlen : (a.frame.stack.take m.arity).reverse.length = m.arity := by simp [hle]
  have hcalls : (invokeMethod program mode index : Effect Unit) a =
      (call m (a.frame.stack.take m.arity).reverse >>= fun v =>
        if mode = .special ∨ v = .void then pure () else push v)
        (a.withStack (a.frame.stack.drop m.arity)) := by
    rw [invokeMethod_of_found href hclass hmethod, applyMethod, bind_of_ok (popN_of_le hle)]
  rw [bind_of_eq hcalls]
  exact typed_call hrest (htame _ hlen) hroom

end Instructions

/-- Every instruction that has a type does what the type says, if it calls methods that behave. -/
theorem execute_typed {program : Program} {i : Instruction} {t u : FrameType}
    (htame : program.methods.Tame)
    (htype : HasType program a.store i t u) (h : t.Describes lax a.frame)
    (hroom : u.stack.length ≤ a.frame.maxStack)
    (hinside : ∀ next ∈ i.successors a.frame.pc, 0 ≤ next ∧ next < a.frame.code.length) :
    Typed lax u i a.frame.pc (execute program i a) := by
  have next : ∀ pc : Int, pc + i.length ∈ [pc + (i.length : Int)] :=
    fun pc => List.mem_singleton_self _
  cases htype with
  | nop => exact ⟨next _, h⟩
  | iconst => exact typed_push h rfl hroom (next _)
  | bipush => exact typed_push h rfl hroom (next _)
  | sipush => exact typed_push h rfl hroom (next _)
  | ldc htext => exact typed_constant _ h htext hroom (next _)
  | ldcWide htext => exact typed_constant _ h htext hroom (next _)
  | load hslot => exact typed_load _ h hslot hroom (next _)
  | loadShort hslot => exact typed_load _ h hslot hroom (next _)
  | store hslot => exact typed_store _ h hslot (next _)
  | storeShort hslot => exact typed_store _ h hslot (next _)
  | pop =>
    obtain ⟨v, vs, hpop, -, hvs⟩ := pop_typed h
    exact typed_bind hpop ⟨next _, hvs⟩
  | dup =>
    obtain ⟨v, vs, hstack, hv, -⟩ := h.uncons
    exact typed_bind (peek_of_cons hstack) (typed_push h hv hroom (next _))
  | iadd =>
    obtain ⟨m, n, vs, hpop, hvs⟩ := popInts_typed _ h
    exact typed_bind hpop (typed_push hvs rfl hroom (next _))
  | isub =>
    obtain ⟨m, n, vs, hpop, hvs⟩ := popInts_typed _ h
    exact typed_bind hpop (typed_push hvs rfl hroom (next _))
  | iinc hslot => exact typed_iinc h hslot
  | @branch test offset ls ks =>
    exact typed_branch _ h (hinside _ (Instruction.target_mem_successors test offset _))
  | ireturn =>
    obtain ⟨n, vs, hpop, -⟩ := popInt_typed _ h
    exact typed_bind hpop rfl
  | areturn =>
    obtain ⟨v, vs, hpop, hv⟩ := popRef_typed _ h
    exact typed_bind hpop hv
  | ret => exact rfl
  | getstatic href hclass hfield hkind =>
    refine typed_bind (link_of_ok href) (typed_bind (ofStore_of_ok hclass) ?_)
    exact typed_bind (ofStore_of_ok hfield) (typed_push h hkind hroom (next _))
  | invoke args ks href hclass hmethod hargs =>
    exact typed_invoke h href hclass hmethod hargs (htame _ (method_mem hmethod)) hroom
  | new hname hclass =>
    refine typed_bind (link_of_ok hname) (typed_bind (ofStore_of_ok hclass) ?_)
    exact typed_object _ h hroom (next _)

theorem decode_inside {code : Bytes} {pc : Int} {i : Instruction} (h : decode code pc = .ok i) :
    0 ≤ pc ∧ pc < code.length := by
  rw [decode] at h
  by_cases hneg : pc < 0
  · rw [if_pos hneg] at h
    cases h
  · rw [if_neg hneg] at h
    have hdrop : code.drop pc.toNat ≠ [] := by
      intro hnil
      rw [hnil] at h
      cases h
    have hlt : pc.toNat < code.length := by
      by_contra hge
      exact hdrop (List.drop_eq_nil_of_le (Nat.le_of_not_lt hge))
    omega

theorem sameClasses_tolerant {program : Program}
    (htame : program.methods.Tame) :
    Tolerant program fun a b => a.store.SameClasses b.store where
  refl a := Store.SameClasses.refl a.store
  trans _ _ _ := Store.SameClasses.trans _ _ _
  slots a _ _ _ := Store.SameClasses.refl a.store
  newObject _ _ := ⟨rfl, rfl⟩
  call m hm args := by
    refine keeps_of_result fun a => ?_
    simp only [call]
    by_cases hargs : args.length = m.arity
    · have h := htame m hm args hargs
      cases hrun : m.invoke args a.store with
      | ok v s => exact ⟨(h.ok _ _ _ hrun).1, trivial⟩
      | error e s => exact ⟨(h.error _ _ _ hrun).1, trivial⟩
    · simp only [Method.invoke_eq, if_pos hargs]
      exact ⟨Store.SameClasses.refl a.store, trivial⟩

/-- What instructions refer to is found in every store with the same classes. -/
theorem HasType.of_sameClasses {program : Program} {s s' : Store} {i : Instruction}
    {t u : FrameType} (h : HasType program s i t u) (hs : s.SameClasses s') :
    HasType program s' i t u := by
  have hname (c : ClassId) : s'.className c = s.className c := by simp [Store.className, hs.1]
  have hlookup (name : Bytes) : s'.lookup name = s.lookup name := by simp [Store.lookup, hs.2]
  cases h with
  | getstatic href hclass hfield hkind =>
    refine .getstatic href ((hlookup _).trans hclass) ?_ hkind
    simpa [Store.staticField, hs.1, hname] using hfield
  | invoke args ks href hclass hmethod hargs =>
    refine .invoke args ks href ((hlookup _).trans hclass) ?_ hargs
    simpa [Registry.method, hname] using hmethod
  | new hname hclass => exact .new hname ((hlookup _).trans hclass)
  | _ => constructor <;> assumption

structure Typing.Allows (T : Typing) (lax : Bool) (s a : Activation) : Prop where
  method : a.frame.method = s.frame.method
  code : a.frame.code = s.frame.code
  maxStack : a.frame.maxStack = s.frame.maxStack
  classes : s.store.SameClasses a.store
  typed : ∃ t, T a.frame.pc = some t ∧ t.Describes lax a.frame

/-- A run that goes on has a frame of the type at its offset, one that returns has the value of a
return instruction, and the only faults are those of native methods. -/
def Typing.Predicts (T : Typing) (lax : Bool) (method code : Bytes) (f : Frame) :
    Option Outcome → Prop
  | none | some (.stopped (.budget _ _)) | some (.stopped .cancelled) =>
    ∃ t, T f.pc = some t ∧ t.Describes lax f
  | some (.returned v) => ∃ t i, T f.pc = some t ∧ decode code f.pc = .ok i ∧ i.Returns v
  | some (.stopped (.fault name pc op cause)) => ∃ t mode index e, name = method ∧ pc = f.pc ∧
    T pc = some t ∧ decode code pc = .ok (.invoke mode index) ∧
    op = (Instruction.invoke mode index).opcode ∧ cause = .library e ∧ e.Raised

section Runs
variable {T : Typing} {program : Program} {s : Activation}

theorem step_allowed
    (htame : program.methods.Tame)
    (hT : T.Consistent lax program s.store s.frame.code s.frame.maxStack s.frame.locals)
    (h : T.Allows lax s a) :
    match a.step program with
    | (b, none) => T.Allows lax s b
    | (b, some out) => T.Predicts lax s.frame.method s.frame.code b.frame (some out) := by
  obtain ⟨t, ht, hframe⟩ := h.typed
  obtain ⟨i, u, hdecode, htype, hroom, hsucc⟩ := hT.step _ t ht
  have hd : decode a.frame.code a.frame.pc = .ok i := by rw [h.code, hdecode]
  have hinside : ∀ next ∈ i.successors a.frame.pc, 0 ≤ next ∧ next < a.frame.code.length := by
    intro next hnext
    obtain ⟨v, hv, -⟩ := hsucc next hnext
    obtain ⟨j, _, hj, -⟩ := hT.step next v hv
    rw [h.code]
    exact decode_inside hj
  have htyped := execute_typed (a := a.counted) htame (htype.of_sameClasses h.classes)
    ⟨hframe.stack, hframe.locals⟩ (h.maxStack ▸ hroom) hinside
  have hkept := execute_keeps (sameClasses_tolerant htame) i
  -- an instruction that goes on leads to a frame of the type that its successor has
  have hgoes {b : Activation} {control : Control} (hx : execute program i a.counted = .ok control b)
      (hslots : Frame.SlotsOnly a.counted.frame b.frame) :
      ∀ next ∈ i.successors a.frame.pc, u.Describes lax b.frame →
        T.Allows lax s { b with frame := { b.frame with pc := next } } := by
    intro next hnext hu
    obtain ⟨v, hv, hjoin⟩ := hsucc next hnext
    obtain ⟨stack, locals, -, hf⟩ := hslots
    have hclasses := Store.SameClasses.trans _ _ _ h.classes (hkept.ok _ _ _ hx).1
    have hjoined := hu.joins hjoin
    rw [hf] at hjoined ⊢
    exact ⟨h.method, h.code, h.maxStack, hclasses, v, hv, hjoined.stack, hjoined.locals⟩
  have hstep := a.step_cases program
  generalize a.step program = r at hstep ⊢
  cases hstep with
  | stuck decoded => cases hd.symm.trans decoded
  | next decoded executed slots | jump decoded executed slots =>
    cases hd.symm.trans decoded
    rw [executed] at htyped
    exact hgoes executed slots _ htyped.1 htyped.2
  | done decoded executed slots =>
    cases hd.symm.trans decoded
    obtain ⟨stack, locals, -, hf⟩ := slots
    rw [executed] at htyped
    dsimp only
    rw [hf]
    exact ⟨t, i, ht, hdecode, htyped⟩
  | fault decoded executed slots =>
    cases hd.symm.trans decoded
    obtain ⟨stack, locals, -, hf⟩ := slots
    rw [executed] at htyped
    obtain ⟨⟨mode, index, rfl⟩, e, rfl, hraised⟩ := htyped
    dsimp only
    rw [hf]
    exact ⟨t, mode, index, e, h.method, rfl, ht, hdecode, rfl, rfl, hraised⟩

theorem run_predicted {setting : Setting} {s : State} (n : Nat)
    (htame : setting.program.methods.Tame)
    (hempty : s.frame.stack = []) (hstart : s.frame.pc = 0)
    (hT : T.Consistent lax setting.program s.store s.frame.code s.frame.maxStack s.frame.locals) :
    T.Predicts lax s.frame.method s.frame.code (s.run setting n).1.frame (s.run setting n).2 := by
  have hs : T.Allows lax s.activation s.activation :=
    ⟨rfl, rfl, rfl, Store.SameClasses.refl _, _, hstart ▸ hT.entry,
      FrameType.describes_initial s.frame hempty⟩
  have hstep : ∀ a b, T.Allows lax s.activation a → a.step setting.program = (b, none) →
      T.Allows lax s.activation b := by
    intro a b ha hb
    have := step_allowed htame hT ha
    rw [hb] at this
    exact this
  cases hrun : s.run setting n with
  | mk t o =>
    rcases run_invariant setting hstep hs hrun with ⟨ht, hlimited⟩ | ⟨a, out, ha, rfl, hlast⟩
    · cases o with
      | none => exact ht.typed
      | some out =>
        have hout := hlimited out rfl
        cases out with
        | returned v => cases hout
        | stopped reason =>
          cases reason with
          | fault method pc op cause => cases hout
          | budget limit pc => exact ht.typed
          | cancelled => exact ht.typed
    · have := step_allowed htame hT ha
      rw [hlast] at this
      exact this

end Runs

/-- A run with the standard library from a consistent typing follows it: it never lacks an operand,
room on the stack, a variable or an instruction, and never meets a value of the wrong kind. -/
theorem run_follows_typing (T : Typing) (lax : Bool) (setting : Setting) (s : State) (n : Nat)
    (hlibrary : setting.program.methods = Registry.standardMethods)
    (hempty : s.frame.stack = []) (hstart : s.frame.pc = 0)
    (hT : T.Consistent lax setting.program s.store s.frame.code s.frame.maxStack s.frame.locals) :
    T.Predicts lax s.frame.method s.frame.code (s.run setting n).1.frame (s.run setting n).2 := by
  refine run_predicted n ?_ hempty hstart hT
  rw [hlibrary]
  exact Registry.standardMethods_tame

def countdownPool : Pool where
  count := 15
  entries := [.utf8 (utf8 "java/lang/System"), .cls 1, .utf8 (utf8 "out"),
    .utf8 (utf8 "Ljava/io/PrintStream;"), .nameAndType 3 4, .ref .field 2 5,
    .utf8 (utf8 "java/io/PrintStream"), .cls 7, .utf8 (utf8 "println"),
    .utf8 (utf8 "(Ljava/lang/String;)V"), .nameAndType 9 10, .ref .method 8 11,
    .utf8 (utf8 "tick"), .string 13]

/-- A loop that prints a line three times. -/
def countdown : Frame where
  code := [0x06, 0x3B, 0x1A, 0x99, 0x00, 0x11, 0xB2, 0x00, 0x06, 0x12, 0x0E, 0xB6, 0x00, 0x0C,
    0x84, 0x00, 0xFF, 0xA7, 0xFF, 0xF1, 0xB1]
  maxStack := 2
  locals := [.void]

def countdownTypes : List (Int × FrameType) :=
  [(0, ⟨[], [none]⟩), (1, ⟨[.int], [none]⟩), (2, ⟨[], [some .int]⟩), (3, ⟨[.int], [some .int]⟩),
    (6, ⟨[], [some .int]⟩), (9, ⟨[.reference], [some .int]⟩),
    (11, ⟨[.reference, .reference], [some .int]⟩), (14, ⟨[], [some .int]⟩),
    (17, ⟨[], [some .int]⟩), (20, ⟨[], [some .int]⟩)]

def countdownTyping : Typing := fun pc => countdownTypes.lookup pc

theorem countdown_consistent : countdownTyping.Consistent false
    ⟨countdownPool, Registry.standardMethods⟩ (Registry.standardStore {}) countdown.code
    countdown.maxStack countdown.locals where
  entry := rfl
  step := by
    intro pc t ht
    have hleads {u : FrameType} (nexts : List Int)
        (h : ∀ next ∈ nexts, countdownTyping next = some u) :
        ∀ next ∈ nexts, ∃ v, countdownTyping next = some v ∧ u.Joins false v :=
      fun next hnext => ⟨u, h next hnext, FrameType.Joins.refl false u⟩
    have hmem : (pc, t) ∈ countdownTypes := by
      obtain ⟨before, after, hsplit, -⟩ := List.lookup_eq_some_iff.1 ht
      rw [hsplit]
      simp
    simp only [countdownTypes, List.mem_cons, Prod.mk.injEq, List.not_mem_nil, or_false] at hmem
    rcases hmem with ⟨rfl, rfl⟩ | ⟨rfl, rfl⟩ | ⟨rfl, rfl⟩ | ⟨rfl, rfl⟩ | ⟨rfl, rfl⟩ | ⟨rfl, rfl⟩ |
      ⟨rfl, rfl⟩ | ⟨rfl, rfl⟩ | ⟨rfl, rfl⟩ | ⟨rfl, rfl⟩
    · exact ⟨.iconst 4, _, rfl, .iconst, by decide, hleads [1] (by decide)⟩
    · exact ⟨.storeShort .int 0, _, rfl, .storeShort (by decide), by decide, hleads [2] (by decide)⟩
    · exact ⟨.loadShort .int 0, _, rfl, .loadShort rfl, by decide, hleads [3] (by decide)⟩
    · exact ⟨.branch .eqZero 17, _, rfl, .branch [], by decide,
        hleads [6, 20] (by decide)⟩
    · exact ⟨.getstatic 6, _, rfl, .getstatic rfl rfl rfl rfl, by decide, hleads [9] (by decide)⟩
    · exact ⟨.ldc 14, _, rfl, .ldc rfl, by decide, hleads [11] (by decide)⟩
    · exact ⟨.invoke .virtual 12, _, rfl, .invoke [.reference, .reference] []
        rfl rfl rfl rfl, by decide, hleads [14] (by decide)⟩
    · exact ⟨.iinc 0 (-1), _, rfl, .iinc rfl, by decide, hleads [17] (by decide)⟩
    · exact ⟨.branch .always (-15), _, rfl, .branch [], by decide,
        hleads [2] (by decide)⟩
    · exact ⟨.ret, _, rfl, .ret, by decide, hleads [] (by decide)⟩

/-- After its first line, `countdown` is where its typing says. -/
theorem countdown_follows_typing :
    countdownTyping.Consistent false ⟨countdownPool, Registry.standardMethods⟩
      (Registry.standardStore {}) countdown.code countdown.maxStack countdown.locals ∧
    countdownTyping.Predicts false [] countdown.code
      (State.run { program := ⟨countdownPool, Registry.standardMethods⟩ } 9
        { frame := countdown, store := Registry.standardStore {} }).1.frame
      (State.run { program := ⟨countdownPool, Registry.standardMethods⟩ } 9
        { frame := countdown, store := Registry.standardStore {} }).2 :=
  ⟨countdown_consistent, run_follows_typing countdownTyping false
    { program := ⟨countdownPool, Registry.standardMethods⟩ }
    { frame := countdown, store := Registry.standardStore {} } 9 rfl rfl rfl countdown_consistent⟩

end ClassMachine.Machine
