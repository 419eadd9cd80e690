import ClassMachine.Library.Standard
import ClassMachine.Proofs.Fallible

/-! What the methods of the standard library do. A method looks at its receiver and at its argument,
and then does one thing: it prints a text or a line, sets the text of a string builder, or gives a
value. A relation between two ways to run a method holds for all methods if it holds for these parts
(`builtins_phases`). So a call is refused and leaves the store as it was, or does that one thing
(`standardMethods_ends`); and it has every property that all the parts have
(`standardMethods_closed`). -/
namespace ClassMachine
open Fallible

/-- All of the built-in methods are found, since no two of them have the same place. -/
theorem Registry.mem_standardMethods_iff {m : Method} :
    m ∈ standardMethods ↔ m ∈ builtins.map Builtin.method := by
  constructor
  · rintro ⟨place, h⟩
    obtain ⟨b, hb, heq⟩ := List.mem_map.1 (Table.mem_of_find h)
    cases heq
    exact List.mem_map_of_mem hb
  · intro h
    obtain ⟨b, hb, rfl⟩ := List.mem_map.1 h
    have hplaces : (standardMethods.entries.map Prod.fst).Nodup := by decide
    exact ⟨_, Table.find_of_mem hplaces (List.mem_map_of_mem hb)⟩

theorem Registry.mem_standardMethods_owner_iff {m : Method} {c : ClassId} :
    m ∈ standardMethods ∧ m.owner = c ↔
      m ∈ (builtins.map Builtin.method).filter fun m => m.owner = c := by
  rw [mem_standardMethods_iff, List.mem_filter, decide_eq_true_eq]

theorem Method.invoke_eq (m : Method) (args : List Value) (s : Store) : m.invoke args s =
    if args.length ≠ m.arity then .error (.arity (s.className m.owner) m.key args.length m.arity) s
    else match m.run args s with
      | .ok v t => .ok (if m.type.void then .void else v) t
      | .error e t => .error e t := by
  by_cases hargs : args.length ≠ m.arity
  · rw [invoke, invokeWith, if_pos hargs, if_pos hargs]
    rfl
  · rw [invoke, invokeWith, if_neg hargs, if_neg hargs]
    cases hrun : m.run args s with
    | ok v t => exact bind_of_ok hrun _
    | error e t => exact bind_of_error hrun _

theorem Method.invoke_of_run {m : Method} {args : List Value} {v : Value} {s t : Store}
    (hargs : args.length = m.arity) (hrun : m.run args s = .ok v t) :
    m.invoke args s = .ok (if m.type.void then .void else v) t := by
  rw [Method.invoke_eq, if_neg (not_not_intro hargs), hrun]

namespace Native
open Arguments Registry

/-! Taking arguments. -/

section Taking
variable {args : List Value} {method : String} {i : Nat} {v : Value}

theorem argument_of_some (h : args[i]? = some v) :
    (argument method args i : Call Value) = pure v := by
  simp only [argument, h]

theorem liftM_call {α : Type} (c : Call α) : (liftM c : Call α) = c := rfl

theorem receiver_eq (owner : ClassId) (method : String) (args : List Value) :
    receiver owner method args = receive owner method (args.headD .void) := by
  cases args <;> rfl

variable {owner : ClassId} {o : ObjectId} {rest : List Value} {s : Store}

theorem receiver_of_class (ho : s.classOf? o = some owner) (method : String) :
    (receiver owner method (.obj o :: rest) : Call ObjectId) s = .ok o s := by
  simp only [receiver_eq, List.headD_cons, receive, if_pos ho]

theorem receiver_foreign (ho : s.classOf? o ≠ some owner) (method : String) :
    (receiver owner method (.obj o :: rest) : Call ObjectId) s =
      .error (.receiver (s.className owner) (utf8 method) .object (s.text (.obj o))) s := by
  simp only [receiver_eq, List.headD_cons, receive, if_neg ho]
  rfl

end Taking

/-! Methods in two phases. -/

section Phases
variable {m n : Type → Type} [Monad m] [MonadLiftT Call m] [Arguments m]
  [Monad n] [MonadLiftT Call n] [Arguments n]

/-- The relation `Q` holds for a method from back to front: for what is done at the end, and for
each look if it holds for what comes then. `K` is what is known of the store by that time. -/
structure Phases (b : Builtin) (args : List Value)
    (Q : (Store → Prop) → m Value → n Value → Prop) : Prop where
  receiver : ∀ {K f f'} method,
    (∀ o, args[0]? = some (.obj o) →
      Q (fun s => s.classOf? o = some b.owner ∧ K s) (f o) (f' o)) →
    Q K (receiver b.owner method args >>= f) (receiver b.owner method args >>= f')
  argument : ∀ {K f f' i v} method, args[i]? = some v → Q K (f v) (f' v) →
    Q K (argument method args i >>= f) (argument method args i >>= f')
  refuse : ∀ {α : Type} {K} {f : α → m Value} {f' : α → n Value} method i got want,
    Q K (refuse (.argument method i got want) >>= f) (refuse (.argument method i got want) >>= f')
  stored : ∀ {K} {f : Bytes → m Value} {f' : Bytes → n Value} o,
    (∀ text, Q K (f text) (f' text)) →
    Q K (do let s ← (get : Call Store); f (builderText s o))
      (do let s ← (get : Call Store); f' (builderText s o))
  done : ∀ {K v}, (b.method.type.void = false → v.isReference = true) → Q K (pure v) (pure v)
  line : ∀ {K} o text, b.owner = printStreamClass → b.method.type.void = true →
    Q K (do let before ← takePending o; writeLine (before ++ text); pure .void)
      (do let before ← takePending o; writeLine (before ++ text); pure .void)
  print : ∀ {K} o text, b.owner = printStreamClass → b.method.type.void = true →
    Q K (do addPending o text; pure .void) (do addPending o text; pure .void)
  cleared : ∀ {K : Store → Prop} o, (∀ s, K s → s.classOf? o = some stringBuilderClass) →
    b.method.type.void = true →
    Q K (do setBuilderText o []; pure .void) (do setBuilderText o []; pure .void)
  built : ∀ {K : Store → Prop} o text, (∀ s, K s → s.classOf? o = some stringBuilderClass) →
    args[0]? = some (.obj o) →
    Q K (do setBuilderText o text; Arguments.argument "append" args 0)
      (do setBuilderText o text; Arguments.argument "append" args 0)

namespace Phases
variable {b : Builtin} {args : List Value} {Q : (Store → Prop) → m Value → n Value → Prop}
  {K : Store → Prop}

section Arguments
variable [LawfulMonad m] [LawfulMonad n]

theorem textArgument (h : Phases b args Q) {f : Bytes → m Value} {f' : Bytes → n Value}
    (method : String) {i : Nat} (hi : i < args.length) (hf : ∀ text, Q K (f text) (f' text)) :
    Q K (textArgument method args i >>= f) (textArgument method args i >>= f') := by
  simp only [Native.textArgument, bind_assoc]
  refine h.argument method (List.getElem?_eq_getElem hi) ?_
  cases args[i] with
  | str text => simpa only [pure_bind] using hf text
  | _ => exact h.refuse method i _ _

theorem intArgument (h : Phases b args Q) {f : Int32 → m Value} {f' : Int32 → n Value}
    (method : String) {i : Nat} (hi : i < args.length) (hf : ∀ n, Q K (f n) (f' n)) :
    Q K (intArgument method args i >>= f) (intArgument method args i >>= f') := by
  simp only [Native.intArgument, bind_assoc]
  refine h.argument method (List.getElem?_eq_getElem hi) ?_
  cases args[i] with
  | int n => simpa only [pure_bind] using hf n
  | _ => exact h.refuse method i _ _

theorem intText (h : Phases b args Q) {f : Bytes → m Value} {f' : Bytes → n Value}
    (method : String) (text : Int32 → Bytes) {i : Nat} (hi : i < args.length)
    (hf : ∀ text, Q K (f text) (f' text)) :
    Q K ((do return text (← Native.intArgument method args i)) >>= f)
      ((do return text (← Native.intArgument method args i)) >>= f') := by
  simp only [bind_assoc, pure_bind]
  exact h.intArgument method hi fun n => hf (text n)

end Arguments

theorem printLine (h : Phases b args Q) (howner : b.owner = printStreamClass)
    (hvoid : b.method.type.void = true) (text : Bytes) :
    Q K (printLine b.owner args text) (printLine b.owner args text) :=
  h.receiver "println" fun o _ => h.line o text howner hvoid

theorem appendWith (h : Phases b args Q) (howner : b.owner = stringBuilderClass)
    (render : List Value → m Bytes) (render' : List Value → n Bytes)
    (hrender : ∀ {K : Store → Prop} {f f'}, (∀ text, Q K (f text) (f' text)) →
      Q K (render args >>= f) (render' args >>= f')) :
    Q K (appendWith b.owner render args) (appendWith b.owner render' args) := by
  refine h.receiver "append" fun o ho => hrender fun text => ?_
  exact h.stored o fun before => h.built o (before ++ text) (fun s hs => howner ▸ hs.1) ho

end Phases

/-- Every method that gets as many arguments as it takes finds those that it looks at. -/
theorem builtins_phases [LawfulMonad m] [LawfulMonad n] {b : Builtin} (hb : b ∈ builtins)
    {args : List Value} (hargs : args.length = b.method.arity)
    {Q : (Store → Prop) → m Value → n Value → Prop} (h : Phases b args Q) :
    Q (fun _ => True) (b.run args) (b.run args) := by
  have hfirst (h : args.length = 1) : 0 < args.length := by omega
  have hsecond (h : args.length = 2) : 1 < args.length := by omega
  have hvoid {v : Value} (h : b.method.type.void = true) :
      b.method.type.void = false → v.isReference = true := by simp [h]
  simp only [builtins, List.mem_cons, List.not_mem_nil, or_false] at hb
  obtain rfl | rfl | rfl | rfl | rfl | rfl | rfl | rfl | rfl | rfl | rfl | rfl := hb
  · exact h.done (hvoid rfl)
  · exact h.textArgument "println" (hsecond hargs) fun text => h.printLine rfl rfl text
  · exact h.intArgument "println" (hsecond hargs) fun n => h.printLine rfl rfl (intText n)
  · exact h.printLine rfl rfl []
  · refine h.receiver "print" fun o _ => ?_
    exact h.textArgument "print" (hsecond hargs) fun text => h.print o text rfl rfl
  · exact h.receiver "<init>" fun o _ => h.cleared o (fun s hs => hs.1) rfl
  · apply h.appendWith rfl
    exact fun hf => h.textArgument "append" (hsecond hargs) hf
  · apply h.appendWith rfl
    exact fun hf => h.intText "append" intText (hsecond hargs) hf
  · apply h.appendWith rfl
    exact fun hf => h.intText "append" charText (hsecond hargs) hf
  · exact h.receiver "toString" fun o _ => h.stored o fun text => h.done fun _ => rfl
  · exact h.intArgument "Integer.toString" (hfirst hargs) fun n => h.done fun _ => rfl
  · exact h.intArgument "String.valueOf" (hfirst hargs) fun n => h.done fun _ => rfl

end Phases

/-! What a call can do. -/

end Native

def Library.Error.Raised : Library.Error → Prop
  | .receiver .. | .argument .. | .sinkFull => True
  | _ => False

namespace Native
open Arguments Registry

/-- How a call ends in a store: refused, with a value, with something printed or not taken by the
sink, or with a new text for a string builder. -/
inductive Ends (m : Method) (s : Store) : EStateM.Result Library.Error Store Value → Prop
  | refused {e} : e.Raised → Ends m s (.error e s)
  | given {v} : (m.type.void = false → v.isReference = true) → Ends m s (.ok v s)
  | printed {pending sink} : m.owner = printStreamClass → m.type.void = true →
    Ends m s (.ok .void { s with pending, sink })
  | untaken {pending sink k} : m.owner = printStreamClass → s.sink.accepts k = false →
    Ends m s (.error .sinkFull { s with pending, sink })
  | built {o text v} : s.classOf? o = some stringBuilderClass →
    (m.type.void = false → v.isReference = true) →
    Ends m s (.ok v (s.setField o textField (.str text)))

theorem ends_line {m : Method} (howner : m.owner = printStreamClass) (hvoid : m.type.void = true)
    (o : ObjectId) (text : Bytes) (s : Store) :
    Ends m s ((do let before ← takePending o; writeLine (before ++ text); pure .void : Call Value)
      s) := by
  have htake : ∃ before pending, takePending o s = .ok before { s with pending } := by
    simp only [takePending]
    cases s.pending.get? o <;> exact ⟨_, _, rfl⟩
  obtain ⟨before, pending, htake⟩ := htake
  rw [bind_of_ok htake]
  cases haccepts : s.sink.accepts s.sink.offers.length with
  | true =>
    have hwrite : writeLine (before ++ text) { s with pending } =
        .ok () { s with pending, sink := (s.sink.offer (before ++ text)).2 } := by
      simp only [writeLine, Sink.offer, haccepts]
    rw [bind_of_ok hwrite]
    exact .printed howner hvoid
  | false =>
    have hwrite : writeLine (before ++ text) { s with pending } =
        .error .sinkFull { s with pending, sink := (s.sink.offer (before ++ text)).2 } := by
      simp only [writeLine, Sink.offer, haccepts]
    rw [bind_of_error hwrite]
    exact .untaken howner haccepts

theorem ends_phases (b : Builtin) (args : List Value) :
    Phases (m := Call) (n := Call) b args fun K c _ => ∀ s, K s → Ends b.method s (c s) where
  receiver method hf s hs := by
    cases args with
    | nil => exact .refused trivial
    | cons v rest =>
      cases v with
      | obj o =>
        by_cases ho : s.classOf? o = some b.owner
        · rw [bind_of_ok (receiver_of_class ho method)]
          exact hf o rfl s ⟨ho, hs⟩
        · rw [bind_of_error (receiver_foreign ho method)]
          exact .refused trivial
      | _ => exact .refused trivial
  argument method hv hf s hs := by
    rw [argument_of_some hv]
    exact hf s hs
  refuse _ _ _ _ _ _ := .refused trivial
  stored _ hf s hs := hf _ s hs
  done hv _ _ := .given hv
  line o text howner hvoid s _ := ends_line howner hvoid o text s
  print _ _ howner hvoid _ _ := .printed howner hvoid
  cleared _ ho hvoid s hs := .built (ho s hs) fun h => absurd (h.symm.trans hvoid) (by decide)
  built o text ho hargs s hs := by
    rw [argument_of_some hargs]
    exact .built (ho s hs) fun _ => rfl

/-! Properties of all the parts. -/

section Closed
variable {P : (α : Type) → Call α → Prop} {α β : Type}

def reading (read : Store → Except Library.Error α) : Call α := fun s =>
  match read s with
  | .ok x => .ok x s
  | .error e => .error e s

def Deaf (read : Store → α) : Prop := ∀ s pending sink, read { s with pending, sink } = read s

/-- A property that the parts of a call have, and calls that are put together from such. Of the
printed text nothing is read but what is pending for an object. -/
structure Closed (P : (α : Type) → Call α → Prop) : Prop where
  pure : ∀ {α : Type} (x : α), P α (pure x)
  throw : ∀ {α : Type} (e : Library.Error), P α (throw e)
  bind : ∀ {α β : Type} {c : Call α} {f : α → Call β}, P α c → (∀ x, P β (f x)) → P β (c >>= f)
  reading : ∀ {α : Type} {read : Store → Except Library.Error α}, Deaf read → P α (reading read)
  setBuilderText : ∀ o text, P Unit (setBuilderText o text)
  takePending : ∀ o, P Bytes (takePending o)
  addPending : ∀ o text, P Unit (addPending o text)
  writeLine : ∀ line, P Unit (writeLine line)

namespace Closed

theorem receiver (h : Closed P) {owner : ClassId} {args : List Value} {f : ObjectId → Call β}
    (method : String) (hf : ∀ o, args[0]? = some (.obj o) → P β (f o)) :
    P β (receiver owner method args >>= f) := by
  have hrefused (got : Value) : P β (Native.reading fun s =>
      .error (.receiver (s.className owner) (utf8 method) got.kind (s.text got))) :=
    h.reading fun s pending sink => rfl
  cases args with
  | nil => exact hrefused .void
  | cons v rest =>
    cases v with
    | obj o =>
      let read (s : Store) : Except Library.Error Unit :=
        if s.classOf? o = some owner then .ok ()
        else .error (.receiver (s.className owner) (utf8 method) .object (s.text (.obj o)))
      -- the object is known, and all that is read is whether it is one of the class
      have heq : Native.receiver owner method (.obj o :: rest) >>= f =
          Native.reading read >>= fun _ => f o := by
        funext s
        by_cases ho : s.classOf? o = some owner
        · have hread : Native.reading read s = .ok () s := by
            simp only [Native.reading, read, if_pos ho]
          rw [bind_of_ok (receiver_of_class ho method), bind_of_ok hread]
        · have hread : Native.reading read s =
              .error (.receiver (s.className owner) (utf8 method) .object (s.text (.obj o))) s := by
            simp only [Native.reading, read, if_neg ho]
          rw [bind_of_error (receiver_foreign ho method), bind_of_error hread]
      rw [heq]
      exact h.bind (h.reading fun s pending sink => rfl) fun _ => hf o rfl
    | _ => exact hrefused _

theorem phases (h : Closed P) (b : Builtin) (args : List Value) :
    Phases (m := Call) (n := Call) b args fun _ c _ => P Value c where
  receiver method hf := h.receiver method hf
  argument method hv hf := by
    rw [argument_of_some hv]
    exact hf
  refuse _ _ _ _ := h.throw _
  stored {_ f _} o hf := by
    change P Value (Native.reading (fun s => .ok (builderText s o)) >>= f)
    exact h.bind (h.reading fun s pending sink => rfl) hf
  done _ := h.pure _
  line o text _ _ := h.bind (h.takePending o) fun _ => h.bind (h.writeLine _) fun _ => h.pure _
  print o text _ _ := h.bind (h.addPending o text) fun _ => h.pure _
  cleared o _ _ := h.bind (h.setBuilderText o []) fun _ => h.pure _
  built o text _ hargs := by
    rw [argument_of_some hargs]
    exact h.bind (h.setBuilderText o text) fun _ => h.pure _

theorem flushEach (h : Closed P) (os : List ObjectId) : P Unit (flushEach os) := by
  induction os with
  | nil => exact h.pure ()
  | cons o os ih =>
    refine h.bind (h.takePending o) fun text => ?_
    by_cases ht : text ≠ []
    · rw [if_pos ht]
      exact h.bind (h.writeLine text) fun _ => ih
    · rw [if_neg ht]
      exact ih

theorem invoke (h : Closed P) (m : Method) (args : List Value)
    (hrun : args.length = m.arity → P Value (m.run args)) : P Value (m.invoke args) := by
  rw [Method.invoke, Method.invokeWith]
  by_cases hargs : args.length = m.arity
  · rw [if_neg (not_not_intro hargs)]
    exact h.bind (hrun hargs) fun v => h.pure _
  · rw [if_pos hargs]
    have hread : Deaf fun s : Store => (.error (.arity (s.className m.owner) m.key args.length
        m.arity) : Except Library.Error Value) := fun s pending sink => rfl
    exact h.reading hread

end Closed

end Closed

end Native

namespace Registry
open Native
variable {m : Method}

theorem standardMethods_ends (hm : m ∈ standardMethods) {args : List Value}
    (hargs : args.length = m.arity) (s : Store) : Ends m s (m.run args s) := by
  obtain ⟨b, hb, rfl⟩ := List.mem_map.1 (mem_standardMethods_iff.1 hm)
  exact builtins_phases hb hargs (ends_phases b args) s trivial

theorem standardMethods_closed {P : (α : Type) → Call α → Prop} (h : Closed P)
    (hm : m ∈ standardMethods) (args : List Value) : P Value (m.invoke args) := by
  obtain ⟨b, hb, rfl⟩ := List.mem_map.1 (mem_standardMethods_iff.1 hm)
  exact h.invoke _ args fun hargs => builtins_phases hb hargs (h.phases b args)

theorem printStream_methods_iff : m ∈ standardMethods ∧ m.owner = printStreamClass ↔
    m = native printStreamClass false "println" ["Ljava/lang/String;"] "V"
        (printlnString printStreamClass) ∨
      m = native printStreamClass false "println" ["I"] "V" (printlnInt printStreamClass) ∨
      m = native printStreamClass false "println" [] "V" (printlnEmpty printStreamClass) ∨
      m = native printStreamClass false "print" ["Ljava/lang/String;"] "V"
        (printString printStreamClass) := by
  have hmethods : (builtins.map Builtin.method).filter (fun m => m.owner = printStreamClass) =
      [native printStreamClass false "println" ["Ljava/lang/String;"] "V"
          (printlnString printStreamClass),
        native printStreamClass false "println" ["I"] "V" (printlnInt printStreamClass),
        native printStreamClass false "println" [] "V" (printlnEmpty printStreamClass),
        native printStreamClass false "print" ["Ljava/lang/String;"] "V"
          (printString printStreamClass)] := rfl
  rw [mem_standardMethods_owner_iff, hmethods]
  simp only [List.mem_cons, List.not_mem_nil, or_false]

end Registry

end ClassMachine
