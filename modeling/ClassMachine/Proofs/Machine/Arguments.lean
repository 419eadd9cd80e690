import ClassMachine.Proofs.Machine.Location
import ClassMachine.Proofs.Machine.Output

/-! The arguments of a method. They are the first of its local variables, and there are as many of
these as the code declares or as there are arguments, whichever is more, if that number has 16 bits
(`seeded_iff`). A run neither adds nor removes local variables, so an instruction that reads or sets
one of them finds it (`run_finds`). -/
namespace ClassMachine
open Fallible

structure Seeded (declared : Nat) (args locals : List Value) : Prop where
  length : locals.length = max declared args.length
  argument : ∀ (i : Nat) v, args[i]? = some v → locals[i]? = some v
  rest : ∀ i, args.length ≤ i → i < locals.length → locals[i]? = some .void

theorem length_seed (n : Nat) (values : List Value) : (Frame.seed n values).length = n := by
  simp only [Frame.seed, List.length_append, List.length_take, List.length_replicate]
  omega

theorem seeded_seed {n : Nat} {args : List Value} (h : args.length ≤ n) :
    Frame.seed n args = args ++ List.replicate (n - args.length) .void := by
  rw [Frame.seed, List.take_of_length_le h]

def Instruction.index? : Instruction → Option Nat
  | .load _ slot | .store _ slot | .iinc slot _ => some slot.toNat
  | .loadShort _ slot | .storeShort _ slot => some slot.val
  | _ => none

namespace Machine
open Effect
variable {α : Type} {program : Program} {n slot : Nat}

section Start
variable (e : Entry) (args : List Value)

theorem slots_eq_max (h : args.length < 2 ^ 16) :
    e.slots args.length = max e.code.maxLocals.toNat args.length := by
  have hwide : (UInt16.ofNat args.length).toNat = args.length := UInt16.toNat_ofNat_of_lt' h
  rw [Entry.slots, hwide]
  by_cases hmore : e.code.maxLocals.toNat < args.length
  · rw [if_pos hmore, max_eq_right hmore.le]
  · rw [if_neg hmore, max_eq_left (not_lt.1 hmore)]

theorem slots_lt : e.slots args.length < 2 ^ 16 := by
  rw [Entry.slots]
  by_cases hmore : e.code.maxLocals.toNat < args.length
  · rw [if_pos hmore]
    exact UInt16.toNat_lt _
  · rw [if_neg hmore]
    exact UInt16.toNat_lt _

theorem length_locals : (e.frame args).locals.length = e.slots args.length :=
  length_seed _ args

/-- The arguments and the declared variables have a place exactly if the arguments can be counted
in 16 bits. -/
theorem seeded_iff :
    Seeded e.code.maxLocals.toNat args (e.frame args).locals ↔ args.length < 2 ^ 16 := by
  constructor
  · intro h
    have hslots := slots_lt e args
    rw [← length_locals, h.length] at hslots
    exact lt_of_le_of_lt (le_max_right _ _) hslots
  · intro h
    have hslots := slots_eq_max e args h
    have hlocals : (e.frame args).locals =
        args ++ List.replicate (e.slots args.length - args.length) .void :=
      seeded_seed (hslots ▸ le_max_right _ _)
    refine ⟨(length_locals e args).trans hslots, ?_, ?_⟩
    · intro i v hv
      obtain ⟨hi, -⟩ := List.getElem?_eq_some_iff.1 hv
      rw [hlocals, List.getElem?_append_left hi, hv]
    · intro i hi hlt
      rw [length_locals] at hlt
      rw [hlocals, List.getElem?_append_right hi, List.getElem?_replicate, if_pos (by omega)]

end Start

/-! Instructions. -/

abbrev Finds (n : Nat) (e : Effect α) : Prop :=
  Triple (fun a => a.frame.locals.length = n) e (fun _ a => a.frame.locals.length = n)
    fun cause _ => ∀ pc index slots, cause ≠ .localIndex pc index slots

section Parts

theorem finds_getLocal (h : slot < n) : Finds n (getLocal slot) := by
  intro a ha
  rw [getLocal_of_some (List.getElem?_eq_getElem (ha ▸ h))]
  exact ha

theorem finds_setLocal (h : slot < n) (v : Value) : Finds n (setLocal slot v) := by
  intro a ha
  rw [setLocal_of_lt (ha ▸ h)]
  exact List.length_set.trans ha

theorem finds_pop : Finds n pop := by
  intro a ha
  cases hstack : a.frame.stack with
  | nil =>
    have hempty : pop a = .error (.stackUnderflow a.frame.pc 1 0) a := by
      simp only [pop, takeFrame, Frame.pop, hstack]
    rw [hempty]
    simp
  | cons v vs =>
    rw [pop_of_cons hstack]
    exact ha

theorem finds_push (v : Value) : Finds n (push v) := by
  intro a ha
  by_cases hroom : a.frame.stack.length < a.frame.maxStack
  · rw [push_of_room hroom]
    exact ha
  · rw [push_of_full (not_lt.1 hroom)]
    simp

theorem finds_operandType (op : UInt8) (v : Value) (want : String) :
    Finds n (operandType op v want : Effect α) := fun _ _ _ _ _ => Cause.noConfusion

theorem finds_checkSlot (op : UInt8) (kind : SlotKind) (v : Value) :
    Finds n (checkSlot op kind v) := by
  cases kind with
  | int => exact triple_ite (fun _ _ ha => ha) fun _ => finds_operandType op v _
  | reference => exact triple_ite (fun _ _ ha => ha) fun _ => finds_operandType op v _

theorem finds_loadSlot (op : UInt8) (kind : SlotKind) (h : slot < n) :
    Finds n (loadSlot op kind slot) :=
  triple_bind (finds_getLocal h) fun v => triple_bind (finds_checkSlot op kind v) fun _ =>
    finds_push v

theorem finds_storeSlot (op : UInt8) (kind : SlotKind) (h : slot < n) :
    Finds n (storeSlot op kind slot) :=
  triple_bind finds_pop fun v => triple_bind (finds_checkSlot op kind v) fun _ =>
    finds_setLocal h v

end Parts

theorem execute_finds {i : Instruction} (hindex : i.index? = some slot) (h : slot < n) :
    Finds n (execute program i) := by
  have next {e : Effect Unit} (he : Finds n e) : Finds n (do e; pure Control.next) :=
    triple_bind he fun _ _ ha => ha
  cases i with
  | load kind index =>
    cases hindex
    exact next (finds_loadSlot _ kind h)
  | loadShort kind index =>
    cases hindex
    exact next (finds_loadSlot _ kind h)
  | store kind index =>
    cases hindex
    exact next (finds_storeSlot _ kind h)
  | storeShort kind index =>
    cases hindex
    exact next (finds_storeSlot _ kind h)
  | iinc index amount =>
    cases hindex
    refine triple_bind (finds_getLocal h) fun v => ?_
    cases v with
    | int m => exact next (finds_setLocal h _)
    | _ => exact finds_operandType _ _ "int"
  | _ => cases hindex

/-! Runs. -/

section Runs
variable {a b : Activation} {setting : Setting} {s t : State} {i : Instruction}
  {method : Bytes} {pc : Int} {op : UInt8} {cause : Cause}

theorem step_slots (program : Program) (a : Activation) :
    (a.step program).1.frame.locals.length = a.frame.locals.length := by
  have hstep := a.step_cases program
  generalize a.step program = r at hstep ⊢
  cases hstep with
  | stuck => rfl
  | next _ _ slots | jump _ _ slots | done _ _ slots | fault _ _ slots =>
    obtain ⟨stack, locals, hlength, hf⟩ := slots
    simpa [hf, Activation.counted] using hlength

theorem execute_of_step_fault
    (h : a.step program = (b, some (.stopped (.fault method pc op cause))))
    (hd : decode a.frame.code pc = .ok i) :
    execute program i a.counted = .error cause b := by
  have hstep := h ▸ a.step_cases program
  cases hstep with
  | stuck decoded => cases hd.symm.trans decoded
  | fault decoded executed =>
    cases hd.symm.trans decoded
    exact executed

/-- An instruction of a run whose local variable is there does not fail for want of it. -/
theorem run_finds {rounds : Nat}
    (hrun : s.run setting rounds = (t, some (.stopped (.fault method pc op cause))))
    (hd : decode s.frame.code pc = .ok i) (hindex : i.index? = some slot)
    (hslot : slot < s.frame.locals.length) :
    ∀ pc' index slots, cause ≠ .localIndex pc' index slots := by
  let P : Activation → Prop := fun a =>
    a.frame.code = s.frame.code ∧ a.frame.locals.length = s.frame.locals.length
  have hstep (a b : Activation) (ha : P a) (hab : a.step setting.program = (b, none)) : P b := by
    have hcode := (step_code setting.program a).1
    have hslots := step_slots setting.program a
    rw [hab] at hcode hslots
    exact ⟨hcode.trans ha.1, hslots.trans ha.2⟩
  rcases run_invariant setting hstep ⟨rfl, rfl⟩ hrun with ⟨-, hlimited⟩ | ⟨a, out, ha, hout, hlast⟩
  · exact (hlimited _ rfl).elim
  · cases hout
    have hfails := execute_of_step_fault hlast (ha.1 ▸ hd)
    refine (execute_finds hindex hslot).error ?_ hfails
    exact ha.2

theorem finish_stopped {label : Bytes} {outcome : Outcome} {reason : Stop}
    (h : (finish label s outcome).failure = some (.stopped reason)) :
    outcome = .stopped reason := by
  simp only [finish] at h
  cases outcome with
  | stopped reason' =>
    cases h
    rfl
  | returned v => cases hflush : Native.flush s.store <;> rw [hflush] at h <;> cases h

end Runs

/-- A method starts with its arguments in the first local variables and void in the others that are
declared, exactly if there are fewer than 65536 arguments; then no instruction fails for want of one
of these variables. -/
theorem arguments_seed_frame (c : ClassFile) (name descriptor : Bytes) (entry : Entry)
    (hfind : Entry.find c name descriptor = .ok entry) (args : List Value) :
    let declared := entry.code.maxLocals.toNat
    (Seeded declared args (entry.frame args).locals ↔ args.length < 2 ^ 16) ∧
    (args.length < 2 ^ 16 → ∀ rounds options store report,
      runMethod rounds options store c name descriptor args = some report →
      ∀ method pc op cause, report.failure = some (.stopped (.fault method pc op cause)) →
      ∀ i slot, decode entry.code.bytes pc = .ok i → i.index? = some slot →
        slot < declared ∨ slot < args.length →
        ∀ pc' index slots, cause ≠ .localIndex pc' index slots) := by
  intro declared
  refine ⟨seeded_iff entry args, ?_⟩
  intro hargs rounds options store report hreport method pc op cause hfailure i slot hd hindex hlt
  have hseeded := (seeded_iff entry args).2 hargs
  have hslot : slot < (entry.frame args).locals.length := by
    rw [hseeded.length, lt_max_iff]
    exact hlt
  rw [runMethod_of_find hfind] at hreport
  cases hrun : State.run (options.setting c) rounds { frame := entry.frame args, store } with
  | mk t o =>
    rw [hrun] at hreport
    cases o with
    | none => cases hreport
    | some outcome =>
      cases hreport
      rw [finish_stopped hfailure] at hrun
      exact run_finds hrun hd hindex hslot

def overfull : ClassFile where
  pool := {
    count := 6
    entries := [.utf8 (utf8 "Overfull"), .cls 1, .utf8 (utf8 "main"), .utf8 (utf8 "()I"),
      .utf8 (utf8 "Code")] }
  thisClass := 2
  methods := [
    { flags := ⟨9⟩, nameIndex := 3, descriptorIndex := 4, attributes := [
        .code 5 1 1 [0x1A, 0xAC] []] }]

def overfullMain : Entry where
  label := utf8 "Overfull.main:()I"
  code := { maxStack := 1, maxLocals := 1, bytes := [0x1A, 0xAC], attributes := [] }

theorem find_overfull : Entry.find overfull (utf8 "main") [] = .ok overfullMain := by
  rfl

/-- With a second argument there is a second local variable; the first argument is found, but it
is no integer. -/
theorem overfull_with_two :
    Entry.find overfull (utf8 "main") [] = .ok overfullMain ∧
      Seeded 1 [.void, .int 7] (overfullMain.frame [.void, .int 7]).locals ∧
      ∃ report cause, runMethod 2 {} (Registry.standardStore {}) overfull (utf8 "main") []
          [.void, .int 7] = some report ∧
        report.failure = some (.stopped (.fault overfullMain.label 0 0x1A cause)) ∧
        ∀ pc index slots, cause ≠ .localIndex pc index slots := by
  obtain ⟨hseeded, hfound⟩ :=
    arguments_seed_frame overfull (utf8 "main") [] overfullMain find_overfull [.void, .int 7]
  refine ⟨find_overfull, hseeded.2 (by decide), _, _, rfl, rfl, ?_⟩
  exact hfound (by decide) 2 {} (Registry.standardStore {}) _ rfl _ 0 0x1A _ rfl
    (.loadShort .int 0) 0 rfl rfl (Or.inl (by decide))

/-- With 65536 arguments there is no local variable at all: not for the first argument, and not
even for the one that the code declares. -/
theorem overfull_loses_arguments :
    let args := Value.int 7 :: List.replicate 65535 .void
    Entry.find overfull (utf8 "main") [] = .ok overfullMain ∧
      overfullMain.code.maxLocals = 1 ∧ args.length = 65536 ∧
      (overfullMain.frame args).locals = [] ∧
      ∃ report, runMethod 2 {} (Registry.standardStore {}) overfull (utf8 "main") [] args =
          some report ∧
        report.failure =
          some (.stopped (.fault overfullMain.label 0 0x1A (.localIndex 0 0 0))) := by
  intro args
  have hlength : args.length = 65536 := by rw [List.length_cons, List.length_replicate]
  -- from here on the number of the arguments is all that counts
  clear_value args
  have hslots : overfullMain.slots args.length = 0 := by
    rw [hlength]
    rfl
  have hlocals : (overfullMain.frame args).locals = [] := by
    rw [← List.length_eq_zero_iff, length_locals, hslots]
  have hframe : overfullMain.frame args =
      { overfullMain.frame [] with locals := (overfullMain.frame args).locals } := rfl
  rw [hlocals] at hframe
  have hreport := runMethod_of_find find_overfull 2 {} (Registry.standardStore {}) args
  rw [hframe] at hreport
  exact ⟨find_overfull, rfl, hlength, hlocals, _, hreport, rfl⟩

end Machine

end ClassMachine
