import ClassMachine.Machine.Session
import ClassMachine.Proofs.Library.Indexing
import ClassMachine.Proofs.Library.Tables
import ClassMachine.Proofs.Machine.Effects
import ClassMachine.Proofs.Machine.Operands

/-! Runs, with arrays that are indexed: the stack, the local variables, the operands of the
instructions, the pool, the arguments of native methods and the methods of the class. An access is
made without a second look at the length; where the machine looks at a length before it, so does
this one. It comes to the same end as the machine (`runBytes_eq`), so that no access is out of
range (`no_access_out_of_range`). -/
namespace ClassMachine.Indexing
open Machine (Program Activation Effect Control Cause Executing Listing)
variable {α β : Type}

section Frames

/-- The stack as an array, the top last. -/
def array (f : Frame) : List Value := f.stack.reverse

def restack (array : List Value) : Effect Unit := fun a => .ok () (a.withStack array.reverse)

def frame : OptionT Effect Frame := OptionT.lift (Effect.ofFrame .ok)

def pop : OptionT Effect Value := do
  let f ← frame
  let n := (array f).length
  if n = 0 then fail (.stackUnderflow f.pc 1 0)
  else
    let v ← within (at? (array f) (n - 1))
    restack (← within (slice? (array f) 0 (n - 1)))
    pure v

def popN (n : Nat) : OptionT Effect (List Value) := do
  let f ← frame
  let depth := (array f).length
  if depth < n then fail (.stackUnderflow f.pc n depth)
  else
    let args ← within (slice? (array f) (depth - n) depth)
    restack (← within (slice? (array f) 0 (depth - n)))
    pure args

def peek : OptionT Effect Value := do
  let f ← frame
  let n := (array f).length
  if n = 0 then fail (.stackUnderflow f.pc 1 0)
  else within (at? (array f) (n - 1))

def getLocal (slot : Nat) : OptionT Effect Value := do
  let f ← frame
  if f.locals.length ≤ slot then fail (.localIndex f.pc slot f.locals.length)
  else within (at? f.locals slot)

def setLocal (slot : Nat) (v : Value) : OptionT Effect Unit := do
  let f ← frame
  if f.locals.length ≤ slot then fail (.localIndex f.pc slot f.locals.length)
  else
    let locals ← within (set? f.locals slot v)
    OptionT.lift fun a => .ok () { a with frame := { a.frame with locals } }

theorem agrees_frame {f : Frame → OptionT Effect β} {q : Effect β}
    (h : ∀ a : Activation, (f a.frame).run a = reached (q a)) : Agrees (frame >>= f) q := by
  refine agrees_iff.2 fun a => Eq.trans ?_ (h a)
  rw [OptionT.run_bind]
  rfl

section Stack
variable {stack : List Value} {n : Nat}

theorem at?_top (v : Value) (stack : List Value) :
    at? (v :: stack).reverse ((v :: stack).reverse.length - 1) = some v := by
  have hlast : ((v :: stack).reverse.length : Int) - 1 = (stack.reverse.length : Nat) := by simp
  rw [hlast, List.reverse_cons]
  exact at?_middle

theorem cut_eq (h : n ≤ stack.length) :
    (stack.reverse.length : Int) - n = (stack.length - n : Nat) := by
  rw [List.length_reverse]
  omega

theorem slice?_below (h : n ≤ stack.length) :
    slice? stack.reverse 0 (stack.reverse.length - n) = some (stack.drop n).reverse := by
  rw [cut_eq h, slice?_take (by simp), List.reverse_drop]

theorem slice?_above (h : n ≤ stack.length) :
    slice? stack.reverse (stack.reverse.length - n) stack.reverse.length =
      some (stack.take n).reverse := by
  rw [cut_eq h, slice?_drop (by simp), List.reverse_take]

end Stack

theorem agrees_pop : Agrees pop Effect.pop := by
  refine agrees_frame fun a => ?_
  cases hs : a.frame.stack with
  | nil =>
    dsimp only [array]
    rw [hs, if_pos (by simp)]
    simp only [Effect.pop, Effect.takeFrame, Frame.pop, hs]
    rfl
  | cons v vs =>
    have hbelow : slice? (v :: vs).reverse 0 ((v :: vs).reverse.length - 1) = some vs.reverse :=
      slice?_below (n := 1) (by simp)
    dsimp only [array]
    rw [hs, if_neg (by simp), within_some (at?_top v vs), within_some hbelow,
      Machine.pop_of_cons hs]
    change EStateM.Result.ok _ (a.withStack vs.reverse.reverse) = _
    rw [List.reverse_reverse]
    rfl

theorem agrees_popN (n : Nat) : Agrees (popN n) (Effect.popN n) := by
  refine agrees_frame fun a => ?_
  have hlen : (array a.frame).length = a.frame.stack.length := List.length_reverse
  by_cases hn : a.frame.stack.length < n
  · rw [if_pos (hlen ▸ hn), Machine.popN_of_lt hn, hlen]
    rfl
  · have hle : n ≤ a.frame.stack.length := Nat.le_of_not_lt hn
    rw [if_neg (hlen ▸ hn), Machine.popN_of_le hle, array, within_some (slice?_above hle),
      within_some (slice?_below hle)]
    change EStateM.Result.ok _ (a.withStack (a.frame.stack.drop n).reverse.reverse) = _
    rw [List.reverse_reverse]
    rfl

theorem agrees_peek : Agrees peek Effect.peek := by
  refine agrees_frame fun a => ?_
  cases hs : a.frame.stack with
  | nil =>
    dsimp only [array]
    rw [hs, if_pos (by simp)]
    simp only [Effect.peek, Effect.ofFrame, Frame.peek, hs]
    rfl
  | cons v vs =>
    dsimp only [array]
    rw [hs, if_neg (by simp), at?_top, Machine.peek_of_cons hs]
    rfl

theorem agrees_getLocal (slot : Nat) : Agrees (getLocal slot) (Effect.getLocal slot) := by
  refine agrees_frame fun a => ?_
  by_cases hslot : a.frame.locals.length ≤ slot
  · rw [if_pos hslot]
    simp only [Effect.getLocal, Effect.ofFrame, Frame.getLocal, List.getElem?_eq_none hslot]
    rfl
  · have hget := List.getElem?_eq_getElem (Nat.lt_of_not_le hslot)
    rw [if_neg hslot, at?_natCast, hget, Machine.getLocal_of_some hget]
    rfl

theorem agrees_setLocal (slot : Nat) (v : Value) :
    Agrees (setLocal slot v) (Effect.setLocal slot v) := by
  refine agrees_frame fun a => ?_
  by_cases hslot : a.frame.locals.length ≤ slot
  · rw [if_pos hslot]
    simp only [Effect.setLocal, Effect.onFrame, Frame.setLocal, if_neg (Nat.not_lt.2 hslot)]
    rfl
  · have hlt := Nat.lt_of_not_le hslot
    rw [if_neg hslot, within_some (set?_natCast hlt v), Machine.setLocal_of_lt hlt]
    rfl

end Frames

/-! Instructions. -/

section Instructions

def link (x : OptionT (Except ClassFile.Error) α) : OptionT Effect α :=
  OptionT.mk (Effect.link x.run)

def native? (c : ClassId) (isStatic : Bool) (ref : MemberRef) : Option (Method × Body) :=
  natives.find? fun found => found.1.place = ⟨c, isStatic, Method.keyOf ref.name ref.descriptor⟩

def findNative (c : ClassId) (isStatic : Bool) (ref : MemberRef) : OptionT Effect (Method × Body) :=
  OptionT.lift (Effect.ofStore fun store =>
    match native? c isStatic ref with
    | some found => .ok found
    | none => .error (.methodNotFound isStatic (store.className c) ref.name ref.descriptor))

def onStore (x : Call α) : Effect α := fun a =>
  match x a.store with
  | .ok v store => .ok v { a with store }
  | .error e store => .error (.library e) { a with store }

instance : Executing (OptionT (Except ClassFile.Error)) (Method × Body) (OptionT Effect) where
  pop := pop
  popN := popN
  peek := peek
  getLocal := getLocal
  setLocal := setLocal
  link := link
  findMethod _ := findNative
  arity found := found.1.arity
  call found args := OptionT.mk (onStore (found.1.invokeWith found.2 args).run)

/-- The effect of an instruction, with the methods of the standard library. -/
def execute (pool : Pool) (raw : Raw) : OptionT Effect Control := do
  let i ← within raw.instruction?
  Executing.execute { pool, methods := Registry.standardMethods } i

variable {op : UInt8} {program : Program}

theorem agrees_popInt : Agrees (m := Effect) (Machine.popInt op) (Machine.popInt op) := by
  refine agrees_bind agrees_pop fun v => ?_
  cases v with
  | int n => exact agrees_pure n
  | _ => exact agrees_lift _

theorem agrees_popInts : Agrees (m := Effect) (Machine.popInts op) (Machine.popInts op) := by
  refine agrees_bind (agrees_lift _) fun f => agrees_ite (fun _ => agrees_lift _) fun _ => ?_
  exact agrees_bind agrees_popInt fun b => agrees_bind agrees_popInt fun a => agrees_pure _

theorem agrees_popRef : Agrees (m := Effect) (Machine.popRef op) (Machine.popRef op) :=
  agrees_bind agrees_pop fun v => agrees_ite (fun _ => agrees_pure v) fun _ => agrees_lift _

theorem agrees_loadSlot (kind : SlotKind) (slot : Nat) :
    Agrees (m := Effect) (Machine.loadSlot op kind slot) (Machine.loadSlot op kind slot) := by
  refine agrees_bind (agrees_getLocal slot) fun v => ?_
  exact agrees_bind (agrees_lift _) fun _ => agrees_lift _

theorem agrees_storeSlot (kind : SlotKind) (slot : Nat) :
    Agrees (m := Effect) (Machine.storeSlot op kind slot) (Machine.storeSlot op kind slot) := by
  refine agrees_bind agrees_pop fun v => ?_
  exact agrees_bind (agrees_lift _) fun _ => agrees_setLocal slot v

theorem agrees_holds (test : Test) :
    Agrees (m := Effect) (Machine.holds op test) (Machine.holds op test) := by
  cases test with
  | eqZero => exact agrees_bind agrees_popInt fun n => agrees_pure _
  | neZero => exact agrees_bind agrees_popInt fun n => agrees_pure _
  | less => exact agrees_bind agrees_popInts fun p => agrees_pure _
  | greaterEq => exact agrees_bind agrees_popInts fun p => agrees_pure _
  | always => exact agrees_pure true

theorem agrees_link {x : OptionT (Except ClassFile.Error) α} {y : Except ClassFile.Error α}
    (h : Agrees x y) : Agrees (link x) (Effect.link y) := by
  rw [Agrees, link, OptionT.run_mk, h]
  cases y <;> rfl

theorem agrees_loadConstant (index : UInt16) : Agrees (m := Effect)
    (Machine.loadConstant program op index) (Machine.loadConstant program op index) := by
  refine agrees_bind (agrees_link agrees_kindAt) fun kind => ?_
  refine agrees_ite (fun _ => ?_) fun _ => agrees_ite (fun _ => ?_) fun _ => ?_
  · exact agrees_bind (agrees_link agrees_stringValue) fun text => agrees_lift _
  · exact agrees_bind (agrees_link (agrees_fetch _ _)) fun _ => agrees_pure ()
  · exact agrees_bind (agrees_lift _) fun pc => agrees_lift _

theorem agrees_call {m : Method} {body : Body} (h : (m, body) ∈ natives) (args : List Value) :
    Agrees (OptionT.mk (onStore (m.invokeWith body args).run)) (Effect.call m args) := by
  refine agrees_iff.2 fun a => ?_
  have hinvoke := agrees_iff.1 (agrees_invoke h args) a.store
  simp only [OptionT.run_mk, onStore, hinvoke, Effect.call]
  cases m.invoke args a.store <;> rfl

variable (hmethods : program.methods = Registry.standardMethods)
include hmethods

theorem agrees_findNative {c : ClassId} {isStatic : Bool} {ref : MemberRef}
    {f : Method × Body → OptionT Effect β} {q : Method → Effect β}
    (hf : ∀ m body, (m, body) ∈ natives → Agrees (f (m, body)) (q m)) :
    Agrees (findNative c isStatic ref >>= f)
      (Effect.findMethod program c isStatic ref >>= q) := by
  have hfind : program.methods.find? c isStatic (Method.keyOf ref.name ref.descriptor) =
      (native? c isStatic ref).map Prod.fst := by
    rw [hmethods, Methods.find?, Table.get?, Table.find_eq, Registry.standardMethods, native?,
      natives, List.find?_map, List.find?_map, Option.map_map, Option.map_map]
    rfl
  -- the store is looked at only for the name of a class in which there is no such method
  simp only [findNative, Effect.findMethod, Registry.method, hfind]
  refine agrees_iff.2 fun a => ?_
  rw [OptionT.run_bind]
  cases hnative : native? c isStatic ref with
  | none => rfl
  | some found =>
    obtain ⟨m, body⟩ := found
    exact agrees_iff.1 (hf m body (List.mem_of_find?_eq_some hnative)) a

theorem agrees_invokeMethod (mode : Mode) (index : UInt16) : Agrees (m := Effect)
    (Machine.invokeMethod program mode index) (Machine.invokeMethod program mode index) := by
  refine agrees_bind (agrees_link agrees_method) fun ref => ?_
  refine agrees_bind (agrees_lift _) fun c => ?_
  refine agrees_findNative hmethods fun m body hm => ?_
  refine agrees_bind (agrees_popN m.arity) fun args => ?_
  refine agrees_bind (agrees_call hm args) fun v => ?_
  exact agrees_ite (fun _ => agrees_pure ()) fun _ => agrees_lift _

/-- An instruction finds all that it reaches for. -/
theorem agrees_execute (i : Instruction) :
    Agrees (Executing.execute program i) (Machine.execute program i) := by
  have hnext {g : OptionT Effect Unit} {p : Effect Unit} (h : Agrees g p) :
      Agrees (g >>= fun _ => pure Control.next) (p >>= fun _ => pure Control.next) :=
    agrees_bind h fun _ => agrees_pure _
  cases i with
  | nop => exact agrees_pure _
  | iconst n => exact hnext (agrees_lift _)
  | bipush n => exact hnext (agrees_lift _)
  | sipush n => exact hnext (agrees_lift _)
  | ldc index => exact hnext (agrees_loadConstant _)
  | ldcWide index => exact hnext (agrees_loadConstant index)
  | load kind slot => exact hnext (agrees_loadSlot kind _)
  | loadShort kind slot => exact hnext (agrees_loadSlot kind _)
  | store kind slot => exact hnext (agrees_storeSlot kind _)
  | storeShort kind slot => exact hnext (agrees_storeSlot kind _)
  | pop => exact agrees_bind agrees_pop fun _ => agrees_pure _
  | dup => exact agrees_bind agrees_peek fun v => hnext (agrees_lift _)
  | iadd => exact agrees_bind agrees_popInts fun p => hnext (agrees_lift _)
  | isub => exact agrees_bind agrees_popInts fun p => hnext (agrees_lift _)
  | iinc slot amount =>
    refine agrees_bind (agrees_getLocal slot.toNat) fun v => ?_
    cases v with
    | int n => exact hnext (agrees_setLocal _ _)
    | _ => exact agrees_lift _
  | branch test offset =>
    refine agrees_bind (agrees_holds test) fun taken => agrees_ite (fun _ => ?_) fun _ => ?_
    · exact agrees_lift _
    · exact agrees_pure _
  | ireturn => exact agrees_bind agrees_popInt fun n => agrees_pure _
  | areturn => exact agrees_bind agrees_popRef fun v => agrees_pure _
  | ret => exact agrees_pure _
  | getstatic index =>
    refine agrees_bind (agrees_link (agrees_member _)) fun ref => ?_
    refine agrees_bind (agrees_lift _) fun c => agrees_bind (agrees_lift _) fun v => ?_
    exact hnext (agrees_lift _)
  | invoke mode index => exact hnext (agrees_invokeMethod hmethods mode index)
  | new index =>
    refine agrees_bind (agrees_link agrees_className) fun name => ?_
    exact agrees_bind (agrees_lift _) fun c => hnext (agrees_lift _)

end Instructions

/-! Runs. -/

section Runs
open Machine (Setting State Running)

instance : Running (OptionT Id) where
  execute program i a := settledAt (Executing.execute program i) a

variable {setting : Setting}

theorem agrees_count (s : State) (i : Instruction) :
    Agrees (m := Id) (Running.count setting s i) (Running.count setting s i) := by
  refine agrees_bind ?_ fun trace => agrees_pure _
  refine agrees_ite (fun _ => ?_) fun _ => agrees_pure _
  exact agrees_bind (agrees_instructionText _ i) fun text => agrees_pure _

variable (hmethods : setting.program.methods = Registry.standardMethods) (s : State)
include hmethods

theorem agrees_advance :
    Agrees (m := Id) (Running.advance setting s) (Running.advance setting s) := by
  refine agrees_bind (agrees_settled (agrees_instructionAt _ s.frame.code)) fun found => ?_
  cases found with
  | error cause => exact agrees_pure _
  | ok i =>
    refine agrees_bind (agrees_count s i) fun s => ?_
    exact agrees_bind (agrees_settledAt (agrees_execute hmethods i) _) fun _ => agrees_pure _

theorem agrees_round : Agrees (m := Id) (Running.round setting s) (Running.round setting s) := by
  refine agrees_ite (fun _ => agrees_pure _) fun _ => agrees_ite (fun _ => ?_) fun _ => ?_
  · exact agrees_ite (fun _ => agrees_pure _) fun _ => agrees_advance hmethods _
  · exact agrees_advance hmethods s

/-- A run reaches no place outside of an array, however many rounds it takes. -/
theorem agrees_run (n : Nat) :
    Agrees (m := Id) (Running.run setting n s) (Running.run setting n s) := by
  induction n generalizing s with
  | zero => exact agrees_pure _
  | succ n ih =>
    refine agrees_bind (agrees_round hmethods s) fun p => ?_
    obtain ⟨next, outcome⟩ := p
    cases outcome with
    | none => exact ih next
    | some outcome => exact agrees_pure _

end Runs

/-! Methods of a class file. -/

section Methods
open Machine (Failure Entering Launching Options Report)

def seek (members : List Member) (test : Member → OptionT Id Bool) :
    Nat → Nat → OptionT Id (Option Member)
  | 0, _ => pure none
  | n + 1, i => do
    let member ← within (at? members i)
    if ← test member then pure (some member) else seek members test n (i + 1)

instance : Searching (OptionT (Except ClassFile.Error)) (OptionT Id) where
  resolvesTo found wanted := do
    match ← settled found with
    | .ok text => pure (text == wanted)
    | .error _ => pure false
  first members test := seek members test members.length 0

instance : Entering (OptionT (Except ClassFile.Error)) (OptionT (Except Failure)) where
  resolve x := refailing .link x
  search c name descriptor := within (Searching.entry c name descriptor : OptionT Id _).run

instance : Launching (OptionT Id) where
  parse major data := within (parse major data)
  find c name descriptor := settled (Entering.find c name descriptor)

/-- Runs a method; there is nothing if an access is out of range, and no report if the run takes
more rounds. -/
def runBytes (rounds : Nat) (options : Options) (major : UInt16) (store : Store) (data : Bytes)
    (name descriptor : Bytes) (args : List Value) : Option (Option Report) :=
  (Launching.runBytes rounds options major store data name descriptor args :
    OptionT Id (Option Report))

variable {c : ClassFile} {name descriptor : Bytes}

theorem agrees_resolvesTo {found : OptionT (Except ClassFile.Error) Bytes}
    {text : Except ClassFile.Error Bytes} (h : Agrees found text) (wanted : Bytes) :
    Agrees (m := Id) (Searching.resolvesTo found wanted) (Searching.resolvesTo text wanted) := by
  have hsettled : settled found = pure text := agrees_settled h
  cases text with
  | ok text => exact congrArg (· >>= _) hsettled
  | error e => exact congrArg (· >>= _) hsettled

theorem agrees_seek {members : List Member} {test : Member → OptionT Id Bool}
    {test' : Member → Id Bool} (htest : ∀ x, Agrees (test x) (test' x)) {n i : Nat}
    (h : i + n = members.length) :
    Agrees (m := Id) (seek members test n i) (pure ((members.drop i).find? test')) := by
  induction n generalizing i with
  | zero =>
    rw [List.drop_eq_nil_of_le (by omega)]
    exact agrees_pure none
  | succ n ih =>
    have hlt : i < members.length := by omega
    have hmember : at? members i = some members[i] :=
      (at?_natCast members i).trans (List.getElem?_eq_getElem hlt)
    have htested : test members[i] = pure (test' members[i]) := htest _
    rw [seek, within_some hmember, htested, pure_bind, List.drop_eq_getElem_cons hlt,
      List.find?_cons]
    cases test' members[i] with
    | true => exact agrees_pure _
    | false => exact ih (by omega)

theorem agrees_first {members : List Member} {test : Member → OptionT Id Bool}
    {test' : Member → Id Bool} (htest : ∀ x, Agrees (test x) (test' x)) :
    Agrees (m := Id) (Searching.first members test) (Searching.first members test') :=
  agrees_seek htest (Nat.zero_add _)

theorem agrees_entry : Agrees (m := Id) (Searching.entry c name descriptor)
    (Searching.entry c name descriptor) := by
  refine agrees_ite (fun _ => ?_) fun _ => ?_
  · exact agrees_first fun member => agrees_resolvesTo agrees_text name
  · refine agrees_first fun member => ?_
    refine agrees_bind (agrees_resolvesTo agrees_text name) fun named => ?_
    exact agrees_ite (fun _ => agrees_resolvesTo agrees_text descriptor) fun _ => agrees_pure _

theorem agrees_find : Agrees (m := Except Failure) (Entering.find c name descriptor)
    (Entering.find c name descriptor) := by
  refine agrees_bind (agrees_refailing _ agrees_className) fun className => ?_
  refine agrees_bind (agrees_within agrees_entry) fun found => ?_
  cases found with
  | none => exact agrees_throw _
  | some m =>
    refine agrees_bind (agrees_refailing _ agrees_text) fun actual => ?_
    cases m.code? with
    | none => exact agrees_throw _
    | some code => exact agrees_pure _

theorem agrees_runMethod (rounds : Nat) (options : Options) (store : Store) (args : List Value) :
    Agrees (m := Id) (Launching.runMethod rounds options store c name descriptor args)
      (Launching.runMethod rounds options store c name descriptor args) := by
  refine agrees_bind (agrees_settled agrees_find) fun found => ?_
  cases found with
  | error failure => exact agrees_pure _
  | ok entry =>
    exact agrees_bind (agrees_run rfl _ rounds) fun _ => agrees_pure _

theorem runBytes_eq (rounds : Nat) (options : Options) (major : UInt16) (store : Store)
    (data : Bytes) (args : List Value) :
    runBytes rounds options major store data name descriptor args =
      some (Machine.runBytes rounds options major store data name descriptor args) := by
  have hagrees : Agrees (m := Id)
      (Launching.runBytes rounds options major store data name descriptor args)
      (Launching.runBytes rounds options major store data name descriptor args) := by
    refine agrees_bind (agrees_within (parse_eq major data)) fun parsed => ?_
    obtain ⟨result, diagnostics⟩ := parsed
    cases result with
    | error e => exact agrees_pure _
    | ok c => exact agrees_bind (agrees_runMethod rounds options store args) fun _ => agrees_pure _
  exact hagrees

end Methods

/-! No access is out of range. -/

section Safety
variable {pool : Pool}

theorem reads_of_decode {code : Bytes} {pc : Int} {raw : Raw}
    (h : (decode code pc).run = .ok (some raw)) :
    (instructionText pool raw).isSome ∧ ∀ a b, (execute pool raw).run a ≠ .ok none b := by
  rw [decode_run] at h
  cases hi : Machine.decode code pc with
  | error cause =>
    rw [hi] at h
    cases h
  | ok i =>
    rw [hi] at h
    obtain rfl := Option.some.inj (Except.ok.inj h)
    constructor
    · have htext : (Listing.instructionText pool pc i : OptionT Id Bytes) =
          some (Machine.instructionText pool pc i) := agrees_instructionText pc i
      rw [instructionText, instruction?_of, Option.bind_eq_bind, Option.bind_some]
      exact Option.isSome_iff_exists.2 ⟨_, htext⟩
    · rw [execute, within_some (instruction?_of pc i)]
      exact ne_none_of_agrees (agrees_execute rfl i)

theorem mem_builtins {m : Method} {body : Body} (h : (m, body) ∈ natives) :
    m ∈ Registry.builtins.map Registry.Builtin.method := by
  obtain ⟨b, hb, heq⟩ := List.mem_map.1 h
  cases heq
  exact List.mem_map_of_mem hb

/-- No access to an array is ever out of range: not in decoding, printing or executing an
instruction, not in a native method or a descriptor, not in a listing, and not in a run of any
method. -/
theorem no_access_out_of_range (pool : Pool) :
    (∀ code pc, (decode code pc).run ≠ .ok none ∧
      ∀ raw, (decode code pc).run = .ok (some raw) →
        (instructionText pool raw).isSome ∧ ∀ a b, (execute pool raw).run a ≠ .ok none b) ∧
    (∀ m body, (m, body) ∈ natives → methodType m.descriptor = some (.ok m.type) ∧
      ∀ args s t, (m.invokeWith body args).run s ≠ .ok none t) ∧
    (∀ code, disassemble pool code = some (Machine.disassemble pool code)) ∧
    ∀ rounds options major store data name descriptor args,
      runBytes rounds options major store data name descriptor args =
        some (Machine.runBytes rounds options major store data name descriptor args) := by
  refine ⟨fun code pc => ⟨?_, fun raw => reads_of_decode⟩, fun m body hm => ⟨?_, fun args => ?_⟩,
    disassemble_eq, fun rounds options major store data name descriptor args => ?_⟩
  · rw [decode_run]
    cases Machine.decode code pc <;> nofun
  · rw [methodType_eq, (Registry.builtins_sound m (mem_builtins hm)).type]
  · exact ne_none_of_agrees (agrees_invoke hm args)
  · exact runBytes_eq rounds options major store data args

/-- An increment has two operands, of which the second one is read after the variable. -/
theorem increment_in_range :
    (decode [0x00, 0x84, 0x01, 0xFF] 1).run = .ok (some ⟨1, 0x84, [0x01, 0xFF]⟩) ∧
    (instructionText {} ⟨1, 0x84, [0x01, 0xFF]⟩).isSome ∧
    (∀ a b, (execute {} ⟨1, 0x84, [0x01, 0xFF]⟩).run a ≠ .ok none b) ∧
    ∃ m body, (m, body) ∈ natives ∧ m.arity = 2 ∧
      ∀ args s t, (m.invokeWith body args).run s ≠ .ok none t := by
  obtain ⟨hdecoded, hnatives, -, -⟩ := no_access_out_of_range {}
  have hdecode : (decode [0x00, 0x84, 0x01, 0xFF] 1).run = .ok (some ⟨1, 0x84, [0x01, 0xFF]⟩) := rfl
  obtain ⟨htext, hexecute⟩ := (hdecoded _ _).2 _ hdecode
  have hmem : natives[2] ∈ natives := List.getElem_mem _
  exact ⟨hdecode, htext, hexecute, _, _, hmem, rfl, (hnatives _ _ hmem).2⟩

end Safety

end ClassMachine.Indexing
