import ClassMachine.Proofs.Machine.Phases

/-! Why instructions fail. A part of an instruction that fails does so with a cause that names the
offset and the opcode of the instruction, where it names any (`execute_located`); the causes for
which there is no instruction to execute come from decoding alone. -/
namespace ClassMachine.Machine
open Effect
variable {α β : Type} {program : Program} {pc : Int} {op : UInt8}

def Cause.LocatedAt (pc : Int) (op : UInt8) : Cause → Prop
  | .stackUnderflow at' _ _ | .stackOverflow at' _ | .localIndex at' _ _ | .branchTarget at' _ _ =>
    at' = pc
  | .constantUse op' at' _ _ | .operandType op' at' _ _ => at' = pc ∧ op' = op
  | .unknownOpcode _ _ | .ranOff _ | .shortOperands _ _ _ _ => False
  | .link _ | .library _ => True

/-- An effect that stays at `pc`, as a part of the instruction `op`, and fails for causes there. -/
def Located (pc : Int) (op : UInt8) (e : Effect α) : Prop :=
  ∀ a, a.frame.pc = pc → match e a with
    | .ok _ b => b.frame.pc = pc
    | .error cause _ => cause.LocatedAt pc op

theorem located_pure (x : α) : Located pc op (pure x) := fun _ ha => ha

theorem located_throw {cause : Cause} (h : cause.LocatedAt pc op) :
    Located pc op (throw cause : Effect α) := fun _ _ => h

theorem located_bind {e : Effect α} {f : α → Effect β} (he : Located pc op e)
    (hf : ∀ x, Located pc op (f x)) : Located pc op (e >>= f) := by
  intro a ha
  have hea := he a ha
  cases hx : e a with
  | ok x b =>
    rw [hx] at hea
    rw [Fallible.bind_of_ok hx]
    exact hf x b hea
  | error cause b =>
    rw [hx] at hea
    rw [Fallible.bind_of_error hx]
    exact hea

section Parts

theorem located_ofFrame {read : Frame → Except Cause α}
    (h : ∀ f cause, f.pc = pc → read f = .error cause → cause.LocatedAt pc op) :
    Located pc op (ofFrame read) := by
  intro a ha
  simp only [ofFrame]
  cases hr : read a.frame with
  | ok x => exact ha
  | error cause => exact h a.frame cause ha hr

theorem located_onFrame {change : Frame → Except Cause Frame}
    (hok : ∀ f g, change f = .ok g → Frame.SlotsOnly f g)
    (h : ∀ f cause, f.pc = pc → change f = .error cause → cause.LocatedAt pc op) :
    Located pc op (onFrame change) := by
  intro a ha
  simp only [onFrame]
  cases hc : change a.frame with
  | ok f =>
    obtain ⟨stack, locals, -, rfl⟩ := hok _ _ hc
    exact ha
  | error cause => exact h a.frame cause ha hc

theorem located_takeFrame {take : Frame → Except Cause (α × Frame)}
    (hok : ∀ f x g, take f = .ok (x, g) → Frame.SlotsOnly f g)
    (h : ∀ f cause, f.pc = pc → take f = .error cause → cause.LocatedAt pc op) :
    Located pc op (takeFrame take) := by
  intro a ha
  simp only [takeFrame]
  cases ht : take a.frame with
  | ok p =>
    obtain ⟨stack, locals, -, hf⟩ := hok _ p.1 p.2 ht
    change p.2.pc = pc
    rw [hf]
    exact ha
  | error cause => exact h a.frame cause ha ht

theorem located_ofStore (get : Store → Except Library.Error α) : Located pc op (ofStore get) := by
  intro a ha
  simp only [ofStore]
  cases get a.store with
  | ok x => exact ha
  | error e => trivial

theorem located_link (x : Except ClassFile.Error α) : Located pc op (link x) := by
  cases x with
  | ok x => exact located_pure x
  | error e => exact located_throw trivial

theorem located_call (m : Method) (args : List Value) : Located pc op (call m args) := by
  intro a ha
  simp only [call]
  cases m.invoke args a.store with
  | ok v s => exact ha
  | error e s => trivial

theorem located_push (v : Value) : Located pc op (push v) := by
  refine located_onFrame (fun _ _ => push_slotsOnly) fun f cause hf h => ?_
  simp only [Frame.push] at h
  split at h
  · cases h
    exact hf
  · cases h

theorem located_pop : Located pc op pop := by
  refine located_takeFrame (fun _ _ _ => pop_slotsOnly) fun f cause hf h => ?_
  simp only [Frame.pop] at h
  split at h
  · cases h
    exact hf
  · cases h

theorem located_popN (n : Nat) : Located pc op (popN n) := by
  refine located_takeFrame (fun _ _ _ => popN_slotsOnly) fun f cause hf h => ?_
  simp only [Frame.popN] at h
  split at h
  · cases h
    exact hf
  · cases h

theorem located_peek : Located pc op peek := by
  refine located_ofFrame fun f cause hf h => ?_
  simp only [Frame.peek] at h
  split at h
  · cases h
    exact hf
  · cases h

theorem located_getLocal (slot : Nat) : Located pc op (getLocal slot) := by
  refine located_ofFrame fun f cause hf h => ?_
  simp only [Frame.getLocal] at h
  split at h
  · cases h
  · cases h
    exact hf

theorem located_setLocal (slot : Nat) (v : Value) : Located pc op (setLocal slot v) := by
  refine located_onFrame (fun _ _ => setLocal_slotsOnly) fun f cause hf h => ?_
  simp only [Frame.setLocal] at h
  split at h
  · cases h
  · cases h
    exact hf

theorem located_operandType (v : Value) (want : String) :
    Located pc op (operandType op v want : Effect α) := fun _ ha => ⟨ha, rfl⟩

theorem located_demand (n : Nat) : Located pc op (demand n) := by
  refine located_ofFrame fun f cause hf h => ?_
  by_cases hd : f.depth < n
  · rw [if_pos hd] at h
    cases h
    exact hf
  · rw [if_neg hd] at h
    cases h

theorem located_branchTo (offset : Int16) : Located pc op (branchTo offset) := by
  intro a ha
  rw [branchTo, Fallible.bind_of_ok (ofFrame_frame a)]
  by_cases ht : 0 ≤ a.frame.pc + offset.toInt ∧ a.frame.pc + offset.toInt < a.frame.code.length
  · simp only [if_pos ht]
    exact ha
  · simp only [if_neg ht]
    exact ha

theorem located_applyMethod (mode : Mode) (m : Method) : Located pc op (applyMethod mode m) :=
  applyMethod_of_parts (P := fun _ => Located pc op) located_bind (located_pure ()) located_push
    mode m (located_popN m.arity) (located_call m)

end Parts

theorem located_phases (program : Program) (pc : Int) (op : UInt8) :
    Phases program op (fun _ => Located pc op) (Located pc op) := by
  have next {e : Effect Unit} (he : Located pc op e) :
      Located pc op (do e; pure Control.next) := located_bind he fun _ => located_pure _
  constructor
  case pure => exact located_pure
  case bind => exact located_bind
  case demand => exact located_demand
  case pop => exact located_pop
  case peek => exact located_peek
  case getLocal => exact located_getLocal
  case operandType => exact located_operandType
  case refuseConstant => exact fun _ _ _ ha => ⟨ha, rfl⟩
  case link => exact located_link
  case after => exact located_bind
  case lookup => exact fun name => located_ofStore _
  case staticField => exact fun c name => located_ofStore _
  case findMethod => exact Phases.findMethod_of_ofStore located_ofStore located_bind
  case next => exact located_pure _
  case done => exact fun v => located_pure _
  case branchTo => exact located_branchTo
  case push => exact fun v => next (located_push v)
  case setLocal => exact fun slot v => next (located_setLocal slot v)
  case makeObject => exact fun c => next (located_bind (fun _ ha => ha) fun v => located_push v)
  case applyMethod => exact fun mode m _ => next (located_applyMethod mode m)

/-- Whatever makes an instruction fail names the instruction, and is no failure of decoding. -/
theorem execute_located (program : Program) (i : Instruction) (pc : Int) :
    Located pc i.opcode (execute program i) :=
  execute_phases i (located_phases program pc i.opcode)

theorem execute_error_located {i : Instruction} {a b : Activation} {cause : Cause}
    (h : execute program i a = .error cause b) : cause.LocatedAt a.frame.pc i.opcode := by
  have hlocated := execute_located program i a.frame.pc a rfl
  rw [h] at hlocated
  exact hlocated

end ClassMachine.Machine
