import ClassMachine.Proofs.Indexing
import ClassMachine.Proofs.Library.Descriptors
import ClassMachine.Proofs.Library.Natives

/-! The native methods of the standard library, with arguments that are indexed. A method does not
look how many arguments there are before it takes one of them; that it gets as many as it takes is
checked by the call. How many these are is read off the descriptor, which is indexed too. -/
namespace ClassMachine.Indexing
open Native Registry
variable {α β : Type}

instance : Arguments (OptionT Call) where
  argument _ args i := within (at? args i)

abbrev Body := List Value → OptionT Call Value

def natives : List (Method × Body) := builtins.map fun b => (b.method, b.run)

section Agreement
variable {owner : ClassId} {method : String} {args : List Value}

theorem agrees_argument {i : Nat} {v : Value} (h : args[i]? = some v) :
    Agrees (m := Call) (Arguments.argument method args i) (Arguments.argument method args i) := by
  rw [argument_of_some h]
  exact agrees_within ((at?_natCast args i).trans h)

theorem agrees_receiver :
    Agrees (m := Call) (Native.receiver owner method args) (Native.receiver owner method args) := by
  have hlift (got : Value) := agrees_lift (receive owner method got)
  cases args with
  | nil => exact agrees_bind (agrees_pure _) hlift
  | cons v rest => exact agrees_bind (agrees_argument rfl) hlift

theorem getElem?_of_receiver {o : ObjectId} {s t : Store}
    (h : (Native.receiver owner method args : Call ObjectId) s = .ok o t) :
    args[0]? = some (.obj o) := by
  cases args with
  | nil => cases h
  | cons v rest =>
    cases v with
    | obj o' =>
      by_cases ho : s.classOf? o' = some owner
      · rw [receiver_of_class ho] at h
        cases h
        rfl
      · rw [receiver_foreign ho] at h
        cases h
    | _ => cases h

theorem agrees_phases (b : Builtin) (args : List Value) :
    Phases (m := OptionT Call) (n := Call) b args fun _ g p => Agrees g p where
  receiver _ hf := agrees_bind_ok agrees_receiver fun _ o _ ho => hf o (getElem?_of_receiver ho)
  argument {_ f f' _ v} method hv hf := by
    refine agrees_bind_ok (agrees_argument hv) fun s w t hw => ?_
    rw [argument_of_some hv] at hw
    cases hw
    exact hf
  refuse _ _ _ _ := agrees_bind_ok (agrees_lift _) fun _ _ _ h => by cases h
  stored _ hf := agrees_bind (agrees_lift _) fun _ => hf _
  done _ := agrees_pure _
  line _ _ _ _ := agrees_bind (agrees_lift _) fun _ => agrees_bind (agrees_lift _) fun _ =>
    agrees_pure _
  print _ _ _ _ := agrees_bind (agrees_lift _) fun _ => agrees_pure _
  cleared _ _ _ := agrees_bind (agrees_lift _) fun _ => agrees_pure _
  built _ _ _ hargs := agrees_bind (agrees_lift _) fun _ => agrees_argument hargs

/-- A call finds all the arguments that the body of its method looks for. -/
theorem agrees_invoke {m : Method} {body : Body} (h : (m, body) ∈ natives) (args : List Value) :
    Agrees (m.invokeWith body args) (m.invoke args) := by
  obtain ⟨b, hb, heq⟩ := List.mem_map.1 h
  cases heq
  refine agrees_ite (fun _ => agrees_lift _) fun hargs => ?_
  have hrun := builtins_phases hb (Decidable.of_not_not hargs) (agrees_phases b args)
  exact agrees_bind hrun fun _ => agrees_pure _

end Agreement

/-! Descriptors. -/

section Descriptors
open MethodType (FieldError)

instance : Slicing (OptionT Id) where
  byte s i := within (at? s i)
  slice s lo hi := within (slice? s lo hi)

def methodType (d : Bytes) : Option (Except MethodType.Error MethodType) :=
  (Slicing.methodType d : ExceptT MethodType.Error (OptionT Id) MethodType).run

variable {ε : Type} {s : Bytes}

theorem agrees_byte {i : Nat} (h : i < s.length) :
    Agrees (Slicing.byte s i : ExceptT ε (OptionT Id) UInt8).run
      (Slicing.byte s i : ExceptT ε Id UInt8).run := by
  have hat : at? s i = some (s.getD i 0) := by
    rw [at?_natCast]
    simp [h]
  refine agrees_result_lift (p := s.getD i 0) ?_
  exact agrees_within hat

theorem agrees_slice {lo hi : Nat} (h : lo ≤ hi) (hhi : hi ≤ s.length) :
    Agrees (Slicing.slice s lo hi : ExceptT ε (OptionT Id) Bytes).run
      (Slicing.slice s lo hi : ExceptT ε Id Bytes).run := by
  refine agrees_result_lift (p := (s.take hi).drop lo) ?_
  exact agrees_within (slice?_natCast h hhi)

theorem agrees_skipBrackets {n i : Nat} (h : i + n = s.length) :
    Agrees (Slicing.skipBrackets s n i : ExceptT ε (OptionT Id) Nat).run
      (Slicing.skipBrackets s n i : ExceptT ε Id Nat).run := by
  induction n generalizing i with
  | zero => exact agrees_pure _
  | succ n ih =>
    refine agrees_result_bind (agrees_byte (by omega)) fun b _ => ?_
    exact agrees_result_ite (fun _ => ih (by omega)) fun _ => agrees_pure _

theorem agrees_elementEnd {i : Nat} (h : i < s.length) :
    Agrees (Slicing.elementEnd s i : ExceptT FieldError (OptionT Id) Nat).run
      (Slicing.elementEnd s i : ExceptT FieldError Id Nat).run := by
  refine agrees_result_bind (agrees_byte h) fun letter _ => ?_
  refine agrees_result_ite (fun _ => agrees_pure _) fun _ => ?_
  refine agrees_result_ite (fun _ => ?_) fun _ => agrees_pure _
  refine agrees_result_bind (agrees_slice (Nat.le_of_lt h) (Nat.le_refl _)) fun rest _ => ?_
  cases rest.idxOf? 59 with
  | none => exact agrees_pure _
  | some n => exact agrees_result_ite (fun _ => agrees_pure _) fun _ => agrees_pure _

theorem agrees_fieldLength (s : Bytes) :
    Agrees (Slicing.fieldLength s : ExceptT FieldError (OptionT Id) Nat).run
      (Slicing.fieldLength s : ExceptT FieldError Id Nat).run := by
  refine agrees_result_bind (agrees_skipBrackets (Nat.zero_add _)) fun i _ => ?_
  exact agrees_result_ite (fun _ => agrees_pure _) fun h => agrees_elementEnd (Nat.lt_of_not_le h)

theorem agrees_fieldTypes (n : Nat) (s : Bytes) :
    Agrees (Slicing.fieldTypes n s : ExceptT FieldError (OptionT Id) (List Bytes)).run
      (Slicing.fieldTypes n s : ExceptT FieldError Id (List Bytes)).run := by
  induction n generalizing s with
  | zero => exact agrees_pure _
  | succ n ih =>
    refine agrees_result_ite (fun _ => agrees_pure _) fun _ => ?_
    refine agrees_result_bind (agrees_fieldLength s) fun k hk => ?_
    have hle : k ≤ s.length := by
      obtain ⟨f, rest, rfl, rfl⟩ := MethodType.fieldLength_ok_iff.1 hk
      simp
    refine agrees_result_bind (agrees_slice (Nat.zero_le k) hle) fun t _ => ?_
    refine agrees_result_bind (agrees_slice hle (Nat.le_refl _)) fun rest _ => ?_
    exact agrees_result_bind (ih rest) fun more _ => agrees_pure _

theorem agrees_isField (s : Bytes) : Agrees (m := Id) (Slicing.isField s) (Slicing.isField s) := by
  refine agrees_bind (agrees_fieldLength s) fun found => ?_
  cases found <;> exact agrees_pure _

/-- Reading a descriptor reaches no place outside of it. -/
theorem methodType_eq (d : Bytes) : methodType d = some (MethodType.parse d) := by
  have hagrees :
      Agrees (Slicing.methodType d : ExceptT MethodType.Error (OptionT Id) MethodType).run
        (Slicing.methodType d : ExceptT MethodType.Error Id MethodType).run := by
    refine agrees_result_ite (fun _ => agrees_pure _) fun hopen => ?_
    rw [not_not] at hopen
    cases hstop : d.idxOf? 41 with
    | none => exact agrees_pure _
    | some stop =>
      -- the closing parenthesis is behind the opening one
      obtain ⟨before, after, rfl, -, rfl⟩ := MethodType.idxOf?_eq_some_iff.1 hstop
      have hpos : 1 ≤ before.length := by
        cases before with
        | nil => cases hopen
        | cons b before => simp
      refine agrees_result_bind (agrees_slice hpos (by simp)) fun params _ => ?_
      have htypes := agrees_result_adapt (MethodType.Error.badParameter (before ++ 41 :: after))
        (agrees_fieldTypes params.length params)
      refine agrees_result_bind htypes fun types _ => ?_
      refine agrees_result_bind (agrees_slice (by simp) (Nat.le_refl _)) fun ret _ => ?_
      refine agrees_result_ite (fun _ => agrees_pure _) fun _ => ?_
      refine agrees_result_bind (agrees_result_lift (agrees_isField ret)) fun field _ => ?_
      exact agrees_result_ite (fun _ => agrees_pure _) fun _ => agrees_pure _
  exact hagrees

end Descriptors

end ClassMachine.Indexing
