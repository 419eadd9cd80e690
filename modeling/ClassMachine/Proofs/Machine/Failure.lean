import ClassMachine.Proofs.Library.Failure
import ClassMachine.Proofs.Machine.Output
import ClassMachine.Proofs.Machine.Phases

/-! What is left of an instruction that fails. In its first phase an instruction only reads and
pops, and the second phase fails before it changes anything, or not at all: the result of a call can
be pushed because the call has popped at least one value. -/
namespace ClassMachine.Machine
open Fallible Effect
variable {α : Type} {program : Program} {start a : Activation}

/-- Nothing has happened but that values were popped, which leaves the stack from its bottom up to
some value, and perhaps that an object was made which nothing refers to. -/
structure OnlyPopped (start a : Activation) : Prop where
  frame : a.frame = { start.frame with stack := a.frame.stack }
  stack : a.frame.stack <:+ start.frame.stack
  objects : start.store.objects <+: a.store.objects
  store : a.store = { start.store with objects := a.store.objects }

theorem OnlyPopped.refl (a : Activation) : OnlyPopped a a :=
  ⟨rfl, List.suffix_rfl, List.prefix_rfl, rfl⟩

theorem OnlyPopped.drop (h : OnlyPopped start a) (n : Nat) :
    OnlyPopped start (a.withStack (a.frame.stack.drop n)) where
  frame := by
    rw [Activation.withStack, h.frame]
  stack := (List.drop_suffix n _).trans h.stack
  objects := h.objects
  store := h.store

theorem OnlyPopped.newObject (h : OnlyPopped start a) (c : ClassId) :
    OnlyPopped start { a with store := (a.store.newObject c).2 } where
  frame := h.frame
  stack := h.stack
  objects := h.objects.trans (List.prefix_append _ _)
  store := by
    simp only [Store.newObject]
    rw [h.store]

theorem OnlyPopped.sink (h : OnlyPopped start a) : a.store.sink = start.store.sink := by
  rw [h.store]

section Parts

abbrev Pops (start : Activation) (e : Effect α) : Prop :=
  Triple (OnlyPopped start) e (fun _ => OnlyPopped start) fun _ => OnlyPopped start

abbrev Harmless (start : Activation) (e : Effect α) : Prop :=
  Triple (OnlyPopped start) e (fun _ _ => True) fun _ => OnlyPopped start

theorem pops_ofFrame (read : Frame → Except Cause α) : Pops start (ofFrame read) := by
  intro a ha
  simp only [ofFrame]
  cases read a.frame <;> exact ha

theorem pops_ofStore (read : Store → Except Library.Error α) : Pops start (ofStore read) := by
  intro a ha
  simp only [ofStore]
  cases read a.store <;> exact ha

theorem pops_link (x : Except ClassFile.Error α) : Pops start (link x) := by
  cases x <;> exact fun _ ha => ha

theorem pops_pop : Pops start pop := by
  intro a ha
  cases hstack : a.frame.stack with
  | nil =>
    simp only [pop, takeFrame, Frame.pop, hstack]
    exact ha
  | cons v vs =>
    have hrest := ha.drop 1
    rw [hstack] at hrest
    rw [pop_of_cons hstack]
    exact hrest

theorem harmless_onFrame (change : Frame → Except Cause Frame) :
    Harmless start (onFrame change) := by
  intro a ha
  simp only [onFrame]
  cases change a.frame with
  | ok f => trivial
  | error cause => exact ha

theorem pops_newObject (c : ClassId) : Pops start (newObject c) := fun _ ha => ha.newObject c

theorem harmless_makeObject (c : ClassId) : Harmless start (makeObject c) :=
  triple_bind (pops_newObject c) fun v => harmless_onFrame (·.push v)

theorem applyMethod_of_ok (mode : Mode) {m : Method} {v : Value} {s : Store}
    (hroom : a.frame.stack.length ≤ a.frame.maxStack) (hpos : 0 < m.arity)
    (hargs : m.arity ≤ a.frame.stack.length)
    (hcall : m.invoke (a.frame.stack.take m.arity).reverse a.store = .ok v s) :
    applyMethod mode m a = .ok () { a with
      frame := { a.frame with
        stack := (if mode = .special ∨ v = .void then [] else [v]) ++ a.frame.stack.drop m.arity }
      store := s } := by
  let popped := a.withStack (a.frame.stack.drop m.arity)
  rw [applyMethod, bind_of_ok (popN_of_le hargs), bind_of_ok (call_of_ok (a := popped) hcall)]
  by_cases hv : mode = .special ∨ v = .void
  · simp only [if_pos hv]
    rfl
  · simp only [if_neg hv]
    refine push_of_room (a := { popped with store := s }) ?_ v
    have hlen : (a.frame.stack.drop m.arity).length < a.frame.maxStack := by
      rw [List.length_drop]
      omega
    exact hlen

theorem harmless_applyMethod (hroom : start.frame.depth ≤ start.frame.maxStack)
    (hsink : ∀ k, start.store.sink.accepts k = true) (mode : Mode) {m : Method}
    (hm : m ∈ Registry.standardMethods) : Harmless start (applyMethod mode m) := by
  intro a ha
  have hlen : a.frame.stack.length ≤ a.frame.maxStack := by
    have hmax : a.frame.maxStack = start.frame.maxStack := by rw [ha.frame]
    exact hmax ▸ ha.stack.length_le.trans hroom
  by_cases hargs : m.arity ≤ a.frame.stack.length
  · let args := (a.frame.stack.take m.arity).reverse
    let popped := a.withStack (a.frame.stack.drop m.arity)
    have hspare := Registry.standardMethods_spare (S := fun s => s = a.store)
      (fun s hs => by rw [hs, ha.sink]; exact hsink) hm args a.store rfl
    cases hr : m.invoke args a.store with
    | ok v s =>
      rw [applyMethod_of_ok mode hlen (Registry.arity_pos hm) hargs hr]
      trivial
    | error e s =>
      rw [hr] at hspare
      obtain rfl : s = a.store := hspare
      rw [applyMethod, bind_of_ok (popN_of_le hargs),
        bind_of_error (call_of_error (a := popped) hr)]
      exact ha.drop m.arity
  · rw [applyMethod, bind_of_error (popN_of_lt (Nat.lt_of_not_le hargs))]
    exact ha

end Parts

theorem harmless_phases (hmethods : program.methods = Registry.standardMethods)
    (hroom : start.frame.depth ≤ start.frame.maxStack)
    (hsink : ∀ k, start.store.sink.accepts k = true) (op : UInt8) :
    Phases program op (fun _ => Pops start) (Harmless start) := by
  have next {e : Effect Unit} (he : Harmless start e) :
      Harmless start (do e; pure Control.next) := triple_bind he fun _ _ _ => trivial
  constructor
  case pure => exact fun x _ ha => ha
  case bind => exact triple_bind
  case demand => exact fun n => pops_ofFrame _
  case pop => exact pops_pop
  case peek => exact pops_ofFrame _
  case getLocal => exact fun slot => pops_ofFrame _
  case operandType => exact fun v want _ ha => ha
  case refuseConstant => exact fun index kind _ ha => ha
  case link => exact pops_link
  case lookup => exact fun name => pops_ofStore _
  case staticField => exact fun c name => pops_ofStore _
  case findMethod => exact Phases.findMethod_of_ofStore pops_ofStore triple_bind
  case after => exact triple_bind
  case next => exact fun _ _ => trivial
  case done => exact fun v _ _ => trivial
  case branchTo =>
    exact fun offset => triple_bind (pops_ofFrame _) fun f =>
      triple_ite (fun _ _ _ => trivial) fun _ _ ha => ha
  case push => exact fun v => next (harmless_onFrame _)
  case setLocal => exact fun slot v => next (harmless_onFrame _)
  case makeObject => exact fun c => next (harmless_makeObject c)
  case applyMethod =>
    exact fun mode m hm => next (harmless_applyMethod hroom hsink mode (hmethods ▸ hm))

/-! Calls of instance methods. -/

theorem call?_eq_some {mode : Mode} {index : UInt16} {m : Method} {args : List Value}
    (h : a.call? program (.invoke mode index) = some (m, args)) :
    ∃ ref c, program.pool.method index = .ok ref ∧ a.store.lookup ref.className = .ok c ∧
      Registry.method ⟨a.store, program.methods⟩ c (mode == .static) ref.name ref.descriptor =
        .ok m ∧
      m.arity ≤ a.frame.stack.length ∧ args = (a.frame.stack.take m.arity).reverse := by
  have some_of {β : Type} {ε : Type} {x : Except ε β} {y : β} (hx : x.toOption = some y) :
      x = .ok y := by
    cases x with
    | ok z => exact congrArg _ (Option.some.inj hx)
    | error e => cases hx
  simp only [Activation.call?, Option.bind_eq_bind, Option.bind_eq_some_iff] at h
  obtain ⟨ref, href, c, hc, m', hm, h⟩ := h
  split at h
  · cases h
  · rename_i hargs
    cases h
    exact ⟨ref, c, some_of href, some_of hc, some_of hm, Nat.le_of_not_lt hargs, rfl⟩

/-- A method takes at least one value from the stack, so that there is room for its result. -/
theorem execute_virtual (hmethods : program.methods = Registry.standardMethods)
    (hroom : a.frame.depth ≤ a.frame.maxStack) {index : UInt16} {m : Method}
    {args : List Value} {v : Value} {s : Store}
    (h : a.call? program (.invoke .virtual index) = some (m, args))
    (hcall : m.invoke args a.store = .ok v s) :
    execute program (.invoke .virtual index) a = .ok .next { a with
      frame := { a.frame with
        stack := (if v = .void then [] else [v]) ++ a.frame.stack.drop m.arity }
      store := s } := by
  obtain ⟨ref, c, href, hc, hm, hargs, rfl⟩ := call?_eq_some h
  have hpos : 0 < m.arity := Registry.arity_pos (hmethods ▸ method_mem hm)
  have happly := applyMethod_of_ok .virtual hroom hpos hargs hcall
  have hinvoke := @invokeMethod_of_found program .virtual index ref c m a href hc hm
  simp only [reduceCtorEq, false_or] at happly
  rw [execute, Executing.execute, bind_of_ok (hinvoke.trans happly)]
  rfl

/-- An instruction that fails has only popped values, and perhaps made an object in vain, if the
stack is not overfull and the sink takes every line. The result of an instance method can always be
pushed. -/
theorem failure_only_pops (program : Program)
    (hmethods : program.methods = Registry.standardMethods) (a : Activation)
    (hroom : a.frame.depth ≤ a.frame.maxStack) (hsink : ∀ k, a.store.sink.accepts k = true) :
    (∀ i cause b, execute program i a = .error cause b → OnlyPopped a b) ∧
    ∀ index m args v s, a.call? program (.invoke .virtual index) = some (m, args) →
      m.invoke args a.store = .ok v s →
      ∃ b, execute program (.invoke .virtual index) a = .ok .next b ∧ b.store = s ∧
        b.frame.stack = (if v = .void then [] else [v]) ++ a.frame.stack.drop args.length := by
  refine ⟨fun i cause b h => ?_, fun index m args v s h hcall => ?_⟩
  · exact (execute_phases i (harmless_phases hmethods hroom hsink i.opcode)).error
      (OnlyPopped.refl a) h
  · have hlen : args.length = m.arity := by
      obtain ⟨ref, c, -, -, -, hargs, rfl⟩ := call?_eq_some h
      rw [List.length_reverse, List.length_take_of_le hargs]
    rw [hlen]
    exact ⟨_, execute_virtual hmethods hroom h hcall, rfl, rfl⟩

def appendPool : Pool where
  count := 7
  entries := [.utf8 (utf8 "java/lang/StringBuilder"), .cls 1, .utf8 (utf8 "append"),
    .utf8 (utf8 "(Ljava/lang/String;)Ljava/lang/StringBuilder;"), .nameAndType 3 4,
    .ref .method 2 5]

/-- A string builder with some text, and a value on top of it that is to be appended. -/
def appending (v : Value) : Activation where
  frame := { maxStack := 3, stack := [v, .obj 1, .int 7] }
  store := { Registry.standardStore {} with
    objects := [{ cls := Registry.printStreamClass },
      { cls := Registry.stringBuilderClass, fields := ⟨[(Native.textField, .str (utf8 "x"))]⟩ }] }

theorem append_fails_harmlessly :
    let program : Program := { pool := appendPool, methods := Registry.standardMethods }
    (∃ b, execute program (.invoke .virtual 6) (appending (.int 3)) =
        .error (.library (.argument "append" 1 .int .string)) b ∧
      OnlyPopped (appending (.int 3)) b ∧ b.frame.stack = [.int 7]) ∧
    ∃ b, execute program (.invoke .virtual 6) (appending (.str (utf8 "y"))) = .ok .next b ∧
      b.store.getField 1 Native.textField = .str (utf8 "xy") ∧
        b.frame.stack = [.obj 1, .int 7] := by
  intro program
  have hfails := (failure_only_pops program rfl (appending (.int 3)) (by decide) fun _ => rfl).1
  have hpushes := (failure_only_pops program rfl (appending (.str (utf8 "y"))) (by decide)
    fun _ => rfl).2
  refine ⟨⟨_, rfl, hfails (.invoke .virtual 6) _ _ rfl, rfl⟩, ?_⟩
  obtain ⟨b, hb, hstore, hstack⟩ := hpushes 6 _ _ _ _ rfl rfl
  refine ⟨b, hb, ?_, hstack⟩
  rw [hstore]
  rfl

end ClassMachine.Machine
