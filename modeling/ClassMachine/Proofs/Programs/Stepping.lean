import ClassMachine.Proofs.Machine.Encoding
import ClassMachine.Proofs.Machine.Output
import ClassMachine.Proofs.Machine.Pausing

/-! Programs step by step. A program is followed from one spot of its code to the next, with the
values of the frame and the store at each of them. What the steps come to, the run of the assembled
class reports, if its limits allow for them (`report_of_returned`, `report_of_budget`). -/
namespace ClassMachine.Machine
open Fallible Effect
variable {program : Program}

def spot (f : Frame) (pc executed : Nat) (locals stack : List Value) (store : Store) :
    Activation :=
  ⟨{ f with pc, executed, locals, stack }, store⟩

section Spots
variable {f : Frame} {pc n : Nat} {locals stack : List Value} {store : Store} {i : Instruction}

theorem step_spot (hd : decode f.code pc = .ok i) :
    (spot f pc n locals stack store).step program =
      match execute program i (spot f pc (n + 1) locals stack store) with
      | .ok .next b => ({ b with frame := { b.frame with pc := pc + i.length } }, none)
      | .ok (.jump target) b => ({ b with frame := { b.frame with pc := target } }, none)
      | .ok (.done v) b => (b, some (.returned v))
      | .error cause b => (b, some (.stopped (.fault b.frame.method pc i.opcode cause))) := by
  unfold Activation.step
  split
  case h_1 cause h => cases h.symm.trans hd
  case h_2 j h =>
    obtain rfl : j = i := Except.ok.inj (h.symm.trans hd)
    rfl

theorem step_next {locals' stack' : List Value} {store' : Store} (hd : decode f.code pc = .ok i)
    (hx : execute program i (spot f pc (n + 1) locals stack store) =
      .ok .next (spot f pc (n + 1) locals' stack' store')) :
    (spot f pc n locals stack store).step program =
      (spot f (pc + i.length) (n + 1) locals' stack' store', none) := by
  rw [step_spot hd, hx]
  rfl

theorem step_jump {stack' : List Value} {target : Nat} (hd : decode f.code pc = .ok i)
    (hx : execute program i (spot f pc (n + 1) locals stack store) =
      .ok (.jump target) (spot f pc (n + 1) locals stack' store)) :
    (spot f pc n locals stack store).step program =
      (spot f target (n + 1) locals stack' store, none) := by
  rw [step_spot hd, hx]
  rfl

theorem step_ret (hd : decode f.code pc = .ok .ret) :
    (spot f pc n locals stack store).step program =
      (spot f pc (n + 1) locals stack store, some (.returned .void)) := by
  rw [step_spot hd]
  rfl

theorem step_does {e : Effect Unit} {locals' stack' : List Value} {store' : Store}
    (hd : decode f.code pc = .ok i) (hi : execute program i = (do e; pure .next))
    (he : e (spot f pc (n + 1) locals stack store) =
      .ok () (spot f pc (n + 1) locals' stack' store')) :
    (spot f pc n locals stack store).step program =
      (spot f (pc + i.length) (n + 1) locals' stack' store', none) := by
  refine step_next hd ?_
  rw [hi, bind_of_ok he]
  rfl

theorem step_iconst {k : Fin 7} (hd : decode f.code pc = .ok (.iconst k))
    (hroom : stack.length < f.maxStack) :
    (spot f pc n locals stack store).step program =
      (spot f (pc + 1) (n + 1) locals (.int (Int32.ofInt (k.val - 1)) :: stack) store, none) :=
  step_does hd rfl (push_of_room hroom _)

theorem step_iload {slot : Fin 4} {k : Int32} (hd : decode f.code pc = .ok (.loadShort .int slot))
    (hv : locals[slot.val]? = some (.int k)) (hroom : stack.length < f.maxStack) :
    (spot f pc n locals stack store).step program =
      (spot f (pc + 1) (n + 1) locals (.int k :: stack) store, none) := by
  refine step_does hd rfl ?_
  exact (loadSlot_of_ok (getLocal_of_some hv) rfl).trans (push_of_room hroom (.int k))

theorem step_istore {slot : Fin 4} {k : Int32}
    (hd : decode f.code pc = .ok (.storeShort .int slot)) (hslot : slot.val < locals.length) :
    (spot f pc n locals (.int k :: stack) store).step program =
      (spot f (pc + 1) (n + 1) (locals.set slot.val (.int k)) stack store, none) := by
  refine step_does hd rfl ?_
  have hset := setLocal_of_lt (a := spot f pc (n + 1) locals stack store) hslot (.int k)
  exact (storeSlot_of_ok (pop_of_cons rfl) rfl).trans hset

theorem step_dup {v : Value} (hd : decode f.code pc = .ok .dup)
    (hroom : stack.length + 1 < f.maxStack) :
    (spot f pc n locals (v :: stack) store).step program =
      (spot f (pc + 1) (n + 1) locals (v :: v :: stack) store, none) := by
  refine step_next hd ?_
  have hpush := push_of_room (a := spot f pc (n + 1) locals (v :: stack) store) hroom v
  exact (bind_of_ok (peek_of_cons rfl) _).trans (bind_of_ok hpush _)

theorem step_iinc {slot : UInt8} {amount : Int8} {k : Int32}
    (hd : decode f.code pc = .ok (.iinc slot amount))
    (hv : locals[slot.toNat]? = some (.int k)) :
    (spot f pc n locals stack store).step program =
      (spot f (pc + 3) (n + 1) (locals.set slot.toNat (.int (k + amount.toInt32))) stack store,
        none) := by
  obtain ⟨hslot, -⟩ := List.getElem?_eq_some_iff.1 hv
  refine step_next hd ?_
  have hset := setLocal_of_lt (a := spot f pc (n + 1) locals stack store) hslot
    (.int (k + amount.toInt32))
  exact (bind_of_ok (getLocal_of_some hv) _).trans (bind_of_ok hset _)

theorem step_ldcWide {index : UInt16} {text : Bytes} (hd : decode f.code pc = .ok (.ldcWide index))
    (htext : program.pool.stringValue index = .ok text) (hroom : stack.length < f.maxStack) :
    (spot f pc n locals stack store).step program =
      (spot f (pc + 3) (n + 1) locals (.str text :: stack) store, none) := by
  refine step_does hd rfl ?_
  rw [loadConstant_of_string _ htext]
  exact push_of_room hroom _

theorem step_getstatic {index : UInt16} {ref : MemberRef} {c : ClassId} {v : Value}
    (hd : decode f.code pc = .ok (.getstatic index)) (href : program.pool.field index = .ok ref)
    (hc : store.lookup ref.className = .ok c) (hv : store.staticField c ref.name = .ok v)
    (hroom : stack.length < f.maxStack) :
    (spot f pc n locals stack store).step program =
      (spot f (pc + 3) (n + 1) locals (v :: stack) store, none) := by
  refine step_next hd ?_
  refine (bind_of_ok (link_of_ok href) _).trans ((bind_of_ok (ofStore_of_ok hc) _).trans ?_)
  exact (bind_of_ok (ofStore_of_ok hv) _).trans (bind_of_ok (push_of_room hroom v) _)

theorem step_new {index : UInt16} {name : Bytes} {c : ClassId}
    (hd : decode f.code pc = .ok (.new index)) (hname : program.pool.className index = .ok name)
    (hc : store.lookup name = .ok c) (hroom : stack.length < f.maxStack) :
    (spot f pc n locals stack store).step program =
      (spot f (pc + 3) (n + 1) locals (.obj (store.newObject c).1 :: stack) (store.newObject c).2,
        none) := by
  refine step_next hd ?_
  refine (bind_of_ok (link_of_ok hname) _).trans ((bind_of_ok (ofStore_of_ok hc) _).trans ?_)
  exact bind_of_ok
    (push_of_room (a := spot f pc (n + 1) locals stack (store.newObject c).2) hroom _) _

theorem invokeMethod_of_ok {mode : Mode} {index : UInt16} {ref : MemberRef} {c : ClassId}
    {m : Method} {args : List Value} {v : Value} {store' : Store}
    (href : program.pool.method index = .ok ref) (hc : store.lookup ref.className = .ok c)
    (hm : Registry.method ⟨store, program.methods⟩ c (mode == .static) ref.name ref.descriptor =
      .ok m)
    (hargs : args.length = m.arity) (hcall : m.invoke args store = .ok v store') :
    (invokeMethod program mode index : Effect Unit)
        (spot f pc n locals (args.reverse ++ stack) store) =
      (if mode = .special ∨ v = .void then pure () else push v : Effect Unit)
        (spot f pc n locals stack store') := by
  let a := spot f pc n locals (args.reverse ++ stack) store
  have hlen : args.reverse.length = m.arity := by
    rw [List.length_reverse, hargs]
  have hpop : popN m.arity a = .ok args (spot f pc n locals stack store) := by
    have hle : m.arity ≤ a.frame.stack.length := by
      change m.arity ≤ (args.reverse ++ stack).length
      rw [List.length_append, hlen]
      exact Nat.le_add_right _ _
    rw [popN_of_le hle]
    change EStateM.Result.ok ((args.reverse ++ stack).take m.arity).reverse
      (a.withStack ((args.reverse ++ stack).drop m.arity)) = _
    rw [List.take_left' hlen, List.drop_left' hlen, List.reverse_reverse]
    rfl
  rw [invokeMethod_of_found href hc hm, applyMethod, bind_of_ok hpop,
    bind_of_ok (call_of_ok hcall)]
  rfl

section Calls
variable {mode : Mode} {index : UInt16} {ref : MemberRef} {c : ClassId} {m : Method} {v : Value}
  {store' : Store}

theorem step_invoke_void (args stack : List Value)
    (hd : decode f.code pc = .ok (.invoke mode index))
    (href : program.pool.method index = .ok ref) (hc : store.lookup ref.className = .ok c)
    (hm : Registry.method ⟨store, program.methods⟩ c (mode == .static) ref.name ref.descriptor =
      .ok m)
    (hargs : args.length = m.arity) (hcall : m.invoke args store = .ok .void store') :
    (spot f pc n locals (args.reverse ++ stack) store).step program =
      (spot f (pc + 3) (n + 1) locals stack store', none) := by
  refine step_does hd rfl ?_
  rw [invokeMethod_of_ok href hc hm hargs hcall, if_pos (Or.inr rfl)]
  rfl

theorem step_invoke_result (args stack : List Value)
    (hd : decode f.code pc = .ok (.invoke mode index))
    (href : program.pool.method index = .ok ref) (hc : store.lookup ref.className = .ok c)
    (hm : Registry.method ⟨store, program.methods⟩ c (mode == .static) ref.name ref.descriptor =
      .ok m)
    (hargs : args.length = m.arity) (hcall : m.invoke args store = .ok v store')
    (hv : ¬ (mode = .special ∨ v = .void)) (hroom : stack.length < f.maxStack) :
    (spot f pc n locals (args.reverse ++ stack) store).step program =
      (spot f (pc + 3) (n + 1) locals (v :: stack) store', none) := by
  refine step_does hd rfl ?_
  rw [invokeMethod_of_ok href hc hm hargs hcall, if_neg hv]
  exact push_of_room hroom v

end Calls

theorem popInts_of_cons {j k : Int32} (op : UInt8) :
    (popInts op : Effect (Int32 × Int32))
        (spot f pc n locals (.int k :: .int j :: stack) store) =
      .ok (j, k) (spot f pc n locals stack store) := by
  have hdepth : ¬ (spot f pc n locals (.int k :: .int j :: stack) store).frame.depth < 2 :=
    Nat.not_lt.2 (Nat.le_add_left 2 stack.length)
  exact popInts_of_ints hdepth rfl rfl

theorem step_if_less {offset : Int16} {j k : Int32} (target : Nat)
    (hd : decode f.code pc = .ok (.branch .less offset)) (htarget : pc + offset.toInt = target)
    (hinside : target < f.code.length) :
    (spot f pc n locals (.int k :: .int j :: stack) store).step program =
      (spot f (if j < k then target else pc + 3) (n + 1) locals stack store, none) := by
  let a := spot f pc (n + 1) locals stack store
  have hholds (op : UInt8) : (holds op .less : Effect Bool)
      (spot f pc (n + 1) locals (.int k :: .int j :: stack) store) = .ok (decide (j < k)) a :=
    bind_of_ok (popInts_of_cons op) _
  by_cases hlt : j < k
  · have hjump : branchTo offset a = .ok (.jump target) a := by
      have hin : 0 ≤ a.frame.pc + offset.toInt ∧
          a.frame.pc + offset.toInt < a.frame.code.length := by
        rw [show a.frame.pc + offset.toInt = target from htarget]
        exact ⟨Int.natCast_nonneg target, Int.ofNat_lt.2 hinside⟩
      rw [branchTo, bind_of_ok (ofFrame_frame a)]
      simp only [if_pos hin]
      rw [show a.frame.pc + offset.toInt = target from htarget]
      rfl
    rw [if_pos hlt]
    refine step_jump hd ?_
    refine (bind_of_ok (hholds _) _).trans ?_
    rw [if_pos (decide_eq_true hlt), liftM_effect, hjump]
  · rw [if_neg hlt]
    refine step_next hd ?_
    refine (bind_of_ok (hholds _) _).trans ?_
    rw [if_neg (by simp [hlt])]
    rfl

end Spots

theorem steps_succ {a b : Activation} {n : Nat} (h : a.steps program n = (b, none)) :
    a.steps program (n + 1) = b.step program := by
  rw [steps_add, h]
  simp only [Activation.steps]
  cases b.step program with
  | mk c o => cases o <;> rfl

/-! Printing. -/

section Printing
open Registry
variable {store : Store} {prints : List Print}

/-- A store in which `System.out` is the print stream of the standard library. -/
structure HasOut (s : Store) : Prop where
  system : s.lookup (utf8 "java/lang/System") = .ok systemClass
  out : s.staticField systemClass (utf8 "out") = .ok (.obj systemOut)
  stream : s.lookup (utf8 "java/io/PrintStream") = .ok printStreamClass
  object : s.classOf? systemOut = some printStreamClass

def printRef (ends : Bool) : MemberRef where
  kind := .methodref
  className := utf8 "java/io/PrintStream"
  name := if ends then utf8 "println" else utf8 "print"
  descriptor := utf8 "(Ljava/lang/String;)V"

def printMethod : Bool → Method
  | true => native printStreamClass false "println" ["Ljava/lang/String;"] "V"
      (Native.printlnString printStreamClass)
  | false => native printStreamClass false "print" ["Ljava/lang/String;"] "V"
      (Native.printString printStreamClass)

theorem method_printRef (store : Store) (ends : Bool) :
    Registry.method ⟨store, standardMethods⟩ printStreamClass false (printRef ends).name
      (printRef ends).descriptor = .ok (printMethod ends) := by
  cases ends <;> rfl

theorem printMethod_mem (ends : Bool) : printMethod ends ∈ standardMethods :=
  method_mem (method_printRef {} ends)

theorem invoke_printMethod (ends : Bool) (text : Bytes) (hout : HasOut store)
    (hw : Written prints store) :
    ∃ pending sink, (printMethod ends).invoke [.obj systemOut, .str text] store =
      .ok .void { store with pending, sink } := by
  have hreceiver (method : String) : (Native.receiver printStreamClass method
      [.obj systemOut, .str text] : Call ObjectId) store = .ok systemOut store :=
    Native.receiver_of_class hout.object method
  cases ends with
  | true =>
    obtain ⟨sink, -, -, hwrite⟩ :=
      writeLine_of_accepts hw.accepts (store.pendingOf systemOut ++ text)
    have hrun : (Native.printLine printStreamClass [.obj systemOut, .str text] text : Call Value)
        store = .ok .void { store with pending := store.withoutText systemOut, sink } := by
      refine (bind_of_ok (hreceiver "println") _).trans ?_
      exact (bind_of_ok (takePending_eq systemOut store) _).trans (bind_of_ok (hwrite _) _)
    exact ⟨store.withoutText systemOut, sink, Method.invoke_of_run rfl hrun⟩
  | false =>
    have hrun : (Native.printString printStreamClass [.obj systemOut, .str text] : Call Value)
        store = .ok .void { store with
          pending := store.pending.set systemOut (store.pendingOf systemOut ++ text) } :=
      bind_of_ok (hreceiver "print") _
    exact ⟨_, store.sink, Method.invoke_of_run rfl hrun⟩

/-- A string is printed to `System.out`; all else in the store stays as it is. -/
theorem step_print {f : Frame} {pc n : Nat} {locals : List Value} {index : UInt16}
    (stack : List Value) (ends : Bool) (text : Bytes)
    (hd : decode f.code pc = .ok (.invoke .virtual index))
    (hmethods : program.methods = standardMethods)
    (href : program.pool.method index = .ok (printRef ends)) (hout : HasOut store)
    (hw : Written prints store) :
    ∃ pending sink, Written (prints ++ [⟨systemOut, text, ends⟩]) { store with pending, sink } ∧
      (spot f pc n locals (.str text :: .obj systemOut :: stack) store).step program =
        (spot f (pc + 3) (n + 1) locals stack { store with pending, sink }, none) := by
  obtain ⟨pending, sink, hcall⟩ := invoke_printMethod ends text hout hw
  have hprints := written_invoke (printMethod_mem ends) hw [.obj systemOut, .str text]
  have hof : Print.of? (printMethod ends, [.obj systemOut, .str text]) =
      some ⟨systemOut, text, ends⟩ := by
    have hname : utf8 "print" ≠ utf8 "println" := by decide
    cases ends <;> simp [Print.of?, printMethod, native, Value.printed, hname]
  rw [hcall, Prints, hof] at hprints
  refine ⟨pending, sink, hprints, ?_⟩
  refine step_invoke_void [.obj systemOut, .str text] stack hd href hout.stream ?_ ?_ hcall
  · rw [hmethods]
    exact method_printRef store ends
  · cases ends <;> rfl

end Printing

/-! Reports. -/

structure Report.Tells (r : Report) (failure : Option Failure) (value : Value) (instructions : Nat)
    (lines : List Bytes) : Prop where
  failure : r.failure = failure
  value : r.value = value
  instructions : r.instructions = instructions
  lines : r.store.sink.lines = lines

section Reports
variable {setting : Setting} {s : State} {k rounds : Nat} {b : Activation} {prints : List Print}

theorem le_allowance {l : Limits} (h : l.budget ≤ 0 ∨ k ≤ l.budget) : k ≤ l.allowance := by
  rw [Limits.allowance]
  by_cases hb : 0 < l.budget
  · rw [if_pos hb, Nat.cast_le]
    omega
  · rw [if_neg hb]
    exact le_top

theorem patience_of_none {l : Limits} (h : l.cancelAfter = none) : l.patience = ⊤ := by
  rw [Limits.patience, h]

/-- A run whose limits are not due does its steps. -/
theorem run_of_steps {o : Option Outcome} (hs : s.Counted setting 0)
    (hcancel : setting.limits.cancelAfter = none) (hk : k ≤ setting.limits.allowance)
    (h : s.activation.steps setting.program k = (b, o)) :
    ∃ t, s.run setting k = (t, o) ∧ t.activation = b ∧
      (o = none → t.Counted setting k) := by
  have hdue : (k : ℕ∞) ≤ min setting.limits.allowance setting.limits.patience := by
    rw [patience_of_none hcancel]
    exact le_min hk le_top
  obtain ⟨hfree, hcounted⟩ := run_eq_unlimited setting s hs hdue
  have hsteps := run_unlimited_steps setting k s
  rw [← hfree] at hsteps
  obtain ⟨hb, ho⟩ := Prod.mk.inj (hsteps.trans h)
  refine ⟨(s.run setting k).1, Prod.ext rfl ho, hb, fun hnone => ?_⟩
  exact hcounted _ (Prod.ext rfl (ho.trans hnone))

theorem finish_tells (label : Bytes) {t : State} (out : Outcome) (hw : Written prints t.store) :
    (finish label t out).Tells
      (match out with
        | .returned _ => none
        | .stopped reason => some (.stopped reason))
      (match out with
        | .returned v => v
        | .stopped _ => .void)
      t.executed (Print.rendering prints) := by
  obtain ⟨u, hflush, hlines⟩ := flush_written hw
  have hstore : (finish label t out).store.sink.lines = Print.rendering prints := by
    rw [finish_store, hflush]
    exact hlines
  cases out with
  | returned v => exact ⟨by simp [finish, hflush], by simp [finish, hflush], rfl, hstore⟩
  | stopped reason => exact ⟨by simp [finish, hflush], by simp [finish, hflush], rfl, hstore⟩

variable (label : Bytes) (frame : Frame) (store : Store)

theorem fresh_counted : State.Counted setting { frame, store } 0 :=
  ⟨rfl, setting.limits.looksBefore_zero.symm⟩

theorem report_of_returned {v : Value} (hzero : frame.executed = 0)
    (hcancel : setting.limits.cancelAfter = none) (hk : k ≤ setting.limits.allowance)
    (hrounds : k ≤ rounds)
    (h : Activation.steps setting.program k ⟨frame, store⟩ = (b, some (.returned v)))
    (hw : Written prints b.store) :
    ∃ report, reportOn label (State.run setting rounds { frame, store }) = some report ∧
      report.Tells none v b.frame.executed (Print.rendering prints) := by
  obtain ⟨t, hrun, rfl, -⟩ := run_of_steps (fresh_counted frame store) hcancel hk h
  have hcounters := run_counters setting k { frame, store }
  rw [hrun] at hcounters
  have hexecuted : t.executed = t.frame.executed := by
    simp only [hzero] at hcounters
    omega
  have hended := run_ended setting { frame, store } hrounds
    (by rw [hrun]; exact Option.some_ne_none _)
  rw [hended, hrun]
  have htells := finish_tells label (.returned v) hw
  rw [hexecuted] at htells
  exact ⟨_, rfl, htells⟩

theorem report_of_budget (hcancel : setting.limits.cancelAfter = none) (hpos : 0 < k)
    (hbudget : setting.limits.budget = k) (hrounds : k < rounds)
    (h : Activation.steps setting.program k ⟨frame, store⟩ = (b, none))
    (hw : Written prints b.store) :
    ∃ report, reportOn label (State.run setting rounds { frame, store }) = some report ∧
      report.Tells (some (.stopped (.budget k b.frame.pc))) .void k (Print.rendering prints) := by
  have hallow : setting.limits.allowance = k := by
    rw [Limits.allowance, hbudget, if_pos (Int.natCast_pos.2 hpos), Int.toNat_natCast]
  obtain ⟨t, hrun, rfl, hcounted⟩ := run_of_steps (fresh_counted frame store) hcancel hallow.ge h
  have hdue : k = min setting.limits.allowance setting.limits.patience := by
    rw [hallow, patience_of_none hcancel, min_top_right]
  -- The round after the last step finds the budget used up.
  have hlast : State.run setting (k + 1) { frame, store } =
      (t, some (.stopped (.budget k t.frame.pc))) := by
    rw [run_succ, hrun]
    rcases round_due setting t (hcounted rfl) hdue with ⟨-, hr⟩ | ⟨hlt, -⟩
    · rw [← hbudget]
      exact hr
    · rw [patience_of_none hcancel] at hlt
      exact absurd hlt not_top_lt
  have hended := run_ended setting { frame, store } hrounds
    (by rw [hlast]; exact Option.some_ne_none _)
  rw [hended, hlast]
  have htells := finish_tells label (.stopped (.budget k t.frame.pc)) hw
  rw [(hcounted rfl).executed] at htells
  exact ⟨_, rfl, htells⟩

end Reports

end ClassMachine.Machine
