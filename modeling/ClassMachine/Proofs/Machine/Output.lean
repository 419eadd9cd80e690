import ClassMachine.Machine.Session
import ClassMachine.Proofs.Library.Printing
import ClassMachine.Proofs.Machine.Limits

/-! What a run prints. The output of an instruction is that of the native call that it comes to, if
it comes to one (`execute_store_of_call`, `execute_sameOutput`). So the store holds at any time the
lines of the calls that succeeded so far (`run_written`), and when a method is done, however it
ends, its lines are the rendering of the prints among the calls that succeeded. -/
namespace ClassMachine.Machine
open Fallible Effect
variable {program : Program} {a : Activation}

/-- The native call that an instruction comes to: the method and the values from the stack. -/
def Activation.call? (program : Program) (a : Activation) :
    Instruction → Option (Method × List Value)
  | .invoke mode index => do
    let ref ← (program.pool.method index).toOption
    let c ← (a.store.lookup ref.className).toOption
    let r : Registry := { store := a.store, methods := program.methods }
    let m ← (r.method c (mode == .static) ref.name ref.descriptor).toOption
    if a.frame.stack.length < m.arity then none
    else some (m, (a.frame.stack.take m.arity).reverse)
  | _ => none

def Activation.called? (program : Program) (a : Activation) : Option (Method × List Value) :=
  match decode a.frame.code a.frame.pc with
  | .error _ => none
  | .ok i => (a.call? program i).filter fun call => isOk (call.1.invoke call.2 a.store)

theorem push_store (v : Value) : (final (push v a)).store = a.store := by
  simp only [push, onFrame]
  cases a.frame.push v <;> rfl

theorem call_push_store (mode : Mode) (m : Method) (args : List Value) :
    (final ((call m args >>= fun v =>
      if mode = .special ∨ v = .void then pure () else push v) a)).store =
      final (m.invoke args a.store) := by
  cases hr : m.invoke args a.store with
  | error e s =>
    rw [bind_of_error (call_of_error hr)]
    rfl
  | ok v s =>
    rw [bind_of_ok (call_of_ok hr)]
    by_cases hv : mode = .special ∨ v = .void
    · rw [if_pos hv]
      rfl
    · rw [if_neg hv, push_store]
      rfl

/-- A call that is made leaves the store as the method does, and one that cannot be made leaves it
as it was. -/
theorem invokeMethod_store (mode : Mode) (index : UInt16) :
    (final ((invokeMethod program mode index : Effect Unit) a)).store =
      match a.call? program (.invoke mode index) with
      | some (m, args) => final (m.invoke args a.store)
      | none => a.store := by
  simp only [invokeMethod_eq, Activation.call?]
  cases program.pool.method index with
  | error e =>
    rw [bind_of_error (link_of_error rfl)]
    rfl
  | ok ref =>
    rw [bind_of_ok (link_of_ok rfl)]
    cases hc : a.store.lookup ref.className with
    | error e =>
      rw [bind_of_error (ofStore_of_error hc)]
      simp [Except.toOption, hc, final]
    | ok c =>
      rw [bind_of_ok (ofStore_of_ok hc)]
      cases hm : Registry.method ⟨a.store, program.methods⟩ c (mode == .static) ref.name
          ref.descriptor with
      | error e =>
        rw [findMethod, bind_of_error (ofStore_of_error hm)]
        simp [Except.toOption, hc, hm, final]
      | ok m =>
        rw [findMethod, bind_of_ok (ofStore_of_ok hm)]
        by_cases hstack : a.frame.stack.length < m.arity
        · rw [applyMethod, bind_of_error (popN_of_lt hstack)]
          simp [Except.toOption, hc, hm, hstack, final]
        · rw [applyMethod, bind_of_ok (popN_of_le (Nat.le_of_not_lt hstack)), call_push_store]
          simp [Except.toOption, hc, hm, hstack, Activation.withStack]

theorem mem_of_call? {i : Instruction} {m : Method} {args : List Value}
    (h : a.call? program i = some (m, args)) : m ∈ program.methods := by
  cases i with
  | invoke mode index =>
    simp only [Activation.call?, Option.bind_eq_bind, Option.bind_eq_some_iff] at h
    obtain ⟨ref, -, c, -, m', hm, h⟩ := h
    have hfound : Registry.method ⟨a.store, program.methods⟩ c (mode == .static) ref.name
        ref.descriptor = .ok m' := by
      revert hm
      cases Registry.method ⟨a.store, program.methods⟩ c (mode == .static) ref.name
        ref.descriptor <;> simp [Except.toOption]
    split at h
    · cases h
    · cases h
      exact method_mem hfound
  | _ => cases h

theorem execute_invoke (mode : Mode) (index : UInt16) :
    final (execute program (.invoke mode index) a) =
      final ((invokeMethod program mode index : Effect Unit) a) := by
  rw [execute, Executing.execute]
  cases hr : (invokeMethod program mode index : Effect Unit) a with
  | ok u b =>
    rw [bind_of_ok hr]
    rfl
  | error e b =>
    rw [bind_of_error hr]
    rfl

theorem execute_store_of_call {i : Instruction} {m : Method} {args : List Value}
    (h : a.call? program i = some (m, args)) :
    (final (execute program i a)).store = final (m.invoke args a.store) := by
  cases i with
  | invoke mode index =>
    rw [execute_invoke, invokeMethod_store, h]
  | _ => cases h

theorem sameOutput_tolerant (pool : Pool) :
    Tolerant { pool } fun a b => a.store.SameOutput b.store where
  refl a := Store.SameOutput.refl a.store
  trans _ _ _ := Store.SameOutput.trans _ _ _
  slots a _ _ _ := Store.SameOutput.refl a.store
  newObject _ _ := ⟨rfl, rfl⟩
  call _ hm := by
    obtain ⟨place, hget⟩ := hm
    cases hget

theorem execute_sameOutput {i : Instruction} (h : a.call? program i = none) :
    a.store.SameOutput (final (execute program i a)).store := by
  have hquiet (hi : execute program i = execute { pool := program.pool } i) :
      a.store.SameOutput (final (execute program i a)).store := by
    rw [hi]
    exact (execute_keeps (sameOutput_tolerant program.pool) i).final a
  cases i with
  | invoke mode index =>
    rw [execute_invoke, invokeMethod_store, h]
    exact Store.SameOutput.refl a.store
  | _ => exact hquiet rfl

/-! Runs. -/

/-- The calls that succeed in a run, in order. A round that is stopped by a limit makes no call. -/
def State.calls (setting : Setting) : Nat → State → List (Method × List Value)
  | 0, _ => []
  | n + 1, s =>
    let now := if s.executed < (s.round setting).1.executed
      then (s.activation.called? setting.program).toList else []
    match s.round setting with
    | (t, none) => now ++ t.calls setting n
    | (_, some _) => now

section Runs
variable {prints : List Print}

theorem step_store {i : Instruction} (h : decode a.frame.code a.frame.pc = .ok i) :
    (a.step program).1.store = (final (execute program i a.counted)).store := by
  have hstep := a.step_cases program
  generalize a.step program = r at hstep ⊢
  cases hstep with
  | stuck decoded => cases h.symm.trans decoded
  | next decoded executed | jump decoded executed | done decoded executed
  | fault decoded executed =>
    cases h.symm.trans decoded
    rw [executed]
    rfl

theorem step_written (hmethods : program.methods = Registry.standardMethods)
    (hw : Written prints a.store) :
    Written (prints ++ (a.called? program).toList.filterMap Print.of?)
      (a.step program).1.store := by
  cases hd : decode a.frame.code a.frame.pc with
  | error cause => simpa [(Activation.StepsTo.stuck hd).eq, Activation.called?, hd] using hw
  | ok i =>
    have hcounted : a.counted.call? program i = a.call? program i := by
      cases i <;> rfl
    rw [step_store hd]
    cases hcall : a.call? program i with
    | none =>
      have hcalled : a.called? program = none := by
        simp only [Activation.called?, hd, hcall, Option.filter_none]
      have hsame := execute_sameOutput (hcounted.trans hcall)
      rw [hcalled, Option.toList_none, List.filterMap_nil, List.append_nil]
      exact hw.of_sameOutput hsame
    | some call =>
      obtain ⟨m, args⟩ := call
      have hm : m ∈ Registry.standardMethods := hmethods ▸ mem_of_call? hcall
      have hprints := written_invoke hm hw args
      have hcalled : a.called? program =
          if isOk (m.invoke args a.store) then some (m, args) else none := by
        simp only [Activation.called?, hd, hcall, Option.filter_some]
      rw [hcalled, execute_store_of_call (hcounted.trans hcall), Activation.counted_store]
      cases hr : m.invoke args a.store with
      | ok v t =>
        rw [hr, Prints] at hprints
        have hone : [(m, args)].filterMap Print.of? = (Print.of? (m, args)).toList := by
          cases h : Print.of? (m, args) <;> simp [h]
        simpa only [isOk, if_true, Option.toList_some, hone, final] using hprints
      | error e t =>
        rw [hr, Prints] at hprints
        simpa [isOk, hr, final] using hprints

theorem round_written (setting : Setting) (s : State)
    (hmethods : setting.program.methods = Registry.standardMethods)
    (hw : Written prints s.store) :
    Written (prints ++ (if s.executed < (s.round setting).1.executed
      then (s.activation.called? setting.program).toList else []).filterMap Print.of?)
      (s.round setting).1.store := by
  -- without an instruction there is no call, and the store stays as it is
  have hstays {t : State} {o : Option Outcome} (hr : s.round setting = (t, o))
      (hexecuted : t.executed = s.executed) (hstore : t.store = s.store) :
      Written (prints ++ (if s.executed < (s.round setting).1.executed
        then (s.activation.called? setting.program).toList else []).filterMap Print.of?)
        (s.round setting).1.store := by
    rw [hr, hexecuted, if_neg (Nat.lt_irrefl _), hstore]
    simpa using hw
  rcases round_cases setting s with ⟨-, hr⟩ | ⟨-, -, -, hr⟩ | ⟨-, -, hr⟩
  · exact hstays hr rfl rfl
  · exact hstays hr rfl rfl
  · rcases advance_cases setting (s.look setting) with ⟨out, hadv⟩ | ⟨i, frame, store, o, hadv, -⟩
    · exact hstays (hr.trans hadv) rfl rfl
    · have hlt : s.executed < ((s.look setting).advance setting).1.executed := by
        rw [hadv]
        exact Nat.lt_succ_self _
      have hstep := step_written hmethods (a := (s.look setting).activation) hw
      rw [advance_step setting (s.look setting)] at hstep
      rw [hr, if_pos hlt]
      exact hstep

theorem run_written (setting : Setting) (n : Nat) (s : State)
    (hmethods : setting.program.methods = Registry.standardMethods)
    (hw : Written prints s.store) :
    Written (prints ++ (s.calls setting n).filterMap Print.of?) (s.run setting n).1.store := by
  induction n generalizing s prints with
  | zero => exact (List.append_nil prints).symm ▸ hw
  | succ n ih =>
    have hround := round_written setting s hmethods hw
    rw [State.calls, run_first]
    cases hr : s.round setting with
    | mk t o =>
      rw [hr] at hround
      cases o with
      | none =>
        have hrest := ih t hround
        simpa only [List.filterMap_append, List.append_assoc] using hrest
      | some out => exact hround

end Runs

/-! Methods. -/

/-- The native calls that succeed while a method runs; none if the method is not found. -/
def callsOf (rounds : Nat) (options : Options) (store : Store) (c : ClassFile)
    (name descriptor : Bytes) (args : List Value) : List (Method × List Value) :=
  match Entry.find c name descriptor with
  | .error _ => []
  | .ok entry => State.calls (options.setting c) rounds { frame := entry.frame args, store }

theorem runMethod_of_find {c : ClassFile} {name descriptor : Bytes} {entry : Entry}
    (h : Entry.find c name descriptor = .ok entry) (rounds : Nat) (options : Options)
    (store : Store) (args : List Value) :
    runMethod rounds options store c name descriptor args = reportOn entry.label
      (State.run (options.setting c) rounds { frame := entry.frame args, store }) := by
  simp only [runMethod, Launching.runMethod, Launching.find, h]
  rfl

theorem runMethod_of_refused {c : ClassFile} {name descriptor : Bytes} {failure : Failure}
    (h : Entry.find c name descriptor = .error failure) (rounds : Nat) (options : Options)
    (store : Store) (args : List Value) :
    runMethod rounds options store c name descriptor args =
      some { failure := some failure, store } := by
  simp only [runMethod, Launching.runMethod, Launching.find, h]
  rfl

theorem runBytes_of_parse {c : ClassFile} {major : UInt16} {data : Bytes} {ds : List Diagnostic}
    (h : ClassFile.parse major data = (.ok c, ds)) (rounds : Nat) (options : Options)
    (store : Store) (name descriptor : Bytes) (args : List Value) :
    runBytes rounds options major store data name descriptor args =
      (runMethod rounds options store c name descriptor args).map fun report =>
        { report with log := ds.map Log.ofDiagnostic ++ report.log } := by
  simp only [runBytes, Launching.runBytes, Launching.parse, h]
  rfl

theorem finish_store (label : Bytes) (s : State) (outcome : Outcome) :
    (finish label s outcome).store = final (Native.flush s.store) := by
  simp only [finish]
  cases Native.flush s.store <;> rfl

theorem written_nil (store : Store) : Written [] { store with pending := {}, sink := {} } :=
  ⟨fun _ => rfl, rfl, rfl⟩

/-- However a method ends, its lines are the rendering of the prints that succeeded, if it starts
with nothing printed and its sink takes every line. A method with a budget ends. -/
theorem lines_eq_rendering (options : Options) (store : Store) (c : ClassFile)
    (name descriptor : Bytes) (args : List Value) :
    let fresh : Store := { store with pending := {}, sink := {} }
    (∀ rounds report, runMethod rounds options fresh c name descriptor args = some report →
      report.store.sink.lines = Print.rendering
        ((callsOf rounds options fresh c name descriptor args).filterMap Print.of?)) ∧
    (0 < options.limits.budget →
      ∃ report, runMethod options.limits.rounds options fresh c name descriptor args =
        some report) := by
  intro fresh
  have hfresh : Written [] fresh := written_nil store
  cases hfind : Entry.find c name descriptor with
  | error failure =>
    simp only [runMethod_of_refused hfind, callsOf, hfind]
    refine ⟨fun rounds report h => ?_, fun _ => ⟨_, rfl⟩⟩
    cases h
    rfl
  | ok entry =>
    let s : State := { frame := entry.frame args, store := fresh }
    simp only [runMethod_of_find hfind, callsOf, hfind]
    constructor
    · intro rounds report h
      have hwritten := run_written (options.setting c) rounds s rfl hfresh
      cases hrun : s.run (options.setting c) rounds with
      | mk t o =>
        rw [hrun] at h hwritten
        cases o with
        | none => cases h
        | some outcome =>
          cases h
          obtain ⟨u, hflush, hlines⟩ := flush_written hwritten
          rw [finish_store, hflush]
          exact hlines
    · intro hbudget
      have hends := run_rounds_ends (options.setting c) s
        ⟨rfl, (options.setting c).limits.looksBefore_zero.symm⟩ hbudget
      cases hrun : s.run (options.setting c) options.limits.rounds with
      | mk t o =>
        cases o with
        | none => exact absurd (congrArg Prod.snd hrun) hends
        | some outcome => exact ⟨_, rfl⟩

/-- A class with a method `main`, which prints to `System.out` and to a stream of its own and runs
past its end, and a method `talk`, which prints two lines and a half and returns. -/
def chatter : ClassFile where
  pool := {
    count := 27
    entries := [.utf8 (utf8 "Chatter"), .cls 1, .utf8 (utf8 "main"), .utf8 (utf8 "()V"),
      .utf8 (utf8 "java/io/PrintStream"), .cls 5, .utf8 (utf8 "java/lang/System"), .cls 7,
      .utf8 (utf8 "out"), .utf8 (utf8 "Ljava/io/PrintStream;"), .nameAndType 9 10, .ref .field 8 11,
      .utf8 (utf8 "print"), .utf8 (utf8 "(Ljava/lang/String;)V"), .nameAndType 13 14,
      .ref .method 6 15, .utf8 (utf8 "println"), .nameAndType 17 14, .ref .method 6 18,
      .utf8 (utf8 "a"), .string 20, .utf8 (utf8 "b"), .string 22, .utf8 (utf8 "c"), .string 24,
      .utf8 (utf8 "talk")] }
  thisClass := 2
  methods := [
    { flags := ⟨9⟩, nameIndex := 3, descriptorIndex := 4, attributes := [
        .code 0 2 1 [0xBB, 0x00, 0x06, 0x4B, 0xB2, 0x00, 0x0C, 0x12, 0x15, 0xB6, 0x00, 0x10,
          0x2A, 0x12, 0x17, 0xB6, 0x00, 0x10, 0xB2, 0x00, 0x0C, 0x12, 0x19, 0xB6, 0x00, 0x13,
          0xB2, 0x00, 0x0C, 0x12, 0x15, 0xB6, 0x00, 0x10] []] },
    { flags := ⟨9⟩, nameIndex := 26, descriptorIndex := 4, attributes := [
        .code 0 2 0 [0xB2, 0x00, 0x0C, 0x12, 0x15, 0xB6, 0x00, 0x13, 0xB2, 0x00, 0x0C, 0x12, 0x17,
          0xB6, 0x00, 0x13, 0xB2, 0x00, 0x0C, 0x12, 0x19, 0xB6, 0x00, 0x10, 0xB1] []] }]

/-- The line that was ended comes first, then what was printed before the fault, by object. -/
theorem chatter_lines :
    ∃ report, runMethod 21 { limits := { budget := 20 } } (Registry.standardStore {}) chatter
        (utf8 "main") [] [] = some report ∧
      report.failure.isSome ∧
      report.store.sink.lines = [utf8 "ac", utf8 "a", utf8 "b"] := by
  obtain ⟨hlines, hends⟩ := lines_eq_rendering { limits := { budget := 20 } }
    (Registry.standardStore {}) chatter (utf8 "main") [] []
  obtain ⟨report, h⟩ : ∃ report, runMethod 21 { limits := { budget := 20 } }
      (Registry.standardStore {}) chatter (utf8 "main") [] [] = some report := hends (by decide)
  have hfailed : ((runMethod 21 { limits := { budget := 20 } } (Registry.standardStore {}) chatter
      (utf8 "main") [] []).bind Report.failure).isSome := by decide +kernel
  rw [h] at hfailed
  exact ⟨report, h, hfailed, (hlines 21 report h).trans (by decide +kernel)⟩

end ClassMachine.Machine
