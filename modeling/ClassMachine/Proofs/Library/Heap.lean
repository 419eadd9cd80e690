import ClassMachine.Proofs.Library.Calls

/-! The classes and objects that calls work on. A method of the standard library changes nothing of
them but the text of a string builder, and only if it is called on one: a property of stores that
survives this survives every call (`standardMethods_settled`). So the objects that were there before
any string builder was made keep their fields (`Grown`), and on them no method is of use
(`invoke_foreign`). -/
namespace ClassMachine
open Fallible Native

namespace Store

/-- The classes of the standard library come first, and can be looked up by name. Behind them there
may be others, which cannot. -/
structure Standard (s : Store) : Prop where
  registered : s.registered = (Registry.standardStore {}).registered
  classes : (Registry.standardStore {}).classes <+: s.classes

variable {s t : Store}

theorem Standard.lookup_lt (hs : s.Standard) {name : Bytes} {c : ClassId}
    (h : s.lookup name = .ok c) : c < Registry.standardNames.length := by
  simp only [lookup, hs.registered] at h
  cases hfind : (Registry.standardStore {}).registered.get? name with
  | none =>
    rw [hfind] at h
    cases h
  | some c' =>
    rw [hfind] at h
    cases h
    obtain ⟨i, hi, heq⟩ := List.mem_mapIdx.1 (Table.mem_of_find hfind)
    cases heq
    exact hi

/-- The one static field that can be found is `System.out`. -/
theorem Standard.staticField (hs : s.Standard) {name field : Bytes} {c : ClassId} {v : Value}
    (hc : s.lookup name = .ok c) (hv : s.staticField c field = .ok v) :
    v = .obj Registry.systemOut := by
  have hstatics : ∀ cls ∈ (Registry.standardStore {}).classes, ∀ e ∈ cls.statics.entries,
      e.2 = .obj Registry.systemOut := by decide
  have hlt : c < (Registry.standardStore {}).classes.length := hs.lookup_lt hc
  obtain ⟨others, hclasses⟩ := hs.classes
  rw [Store.staticField, ← hclasses, List.getElem?_append_left hlt, List.getElem?_eq_getElem hlt,
    Option.bind_some] at hv
  cases hget : (Registry.standardStore {}).classes[c].statics.get? field with
  | none =>
    rw [hget] at hv
    cases hv
  | some w =>
    rw [hget] at hv
    cases hv
    exact hstatics _ (List.getElem_mem hlt) _ (Table.mem_of_find hget)

theorem Standard.of_sameClasses (hs : s.Standard) (h : s.SameClasses t) : t.Standard where
  registered := h.2.trans hs.registered
  classes := h.1.symm ▸ hs.classes

end Store

/-! Calls. -/

/-- A property of stores that does not depend on anything printed, nor on the texts of string
builders. -/
structure Store.Settled (S : Store → Prop) : Prop where
  printed : ∀ s pending sink, S s → S { s with pending, sink }
  built : ∀ s o text, S s → s.classOf? o = some Registry.stringBuilderClass →
    S (s.setField o textField (.str text))

namespace Native
variable {α β : Type} {S : Store → Prop}

abbrev Saves (S : Store → Prop) (c : Call α) : Prop := Triple S c (fun _ => S) fun _ => S

theorem saves_takePending (hS : Store.Settled S) (o : ObjectId) : Saves S (takePending o) := by
  intro s hs
  simp only [takePending]
  cases s.pending.get? o with
  | some text => exact hS.printed s _ s.sink hs
  | none => exact hs

theorem saves_writeLine (hS : Store.Settled S) (line : Bytes) : Saves S (writeLine line) := by
  intro s hs
  simp only [writeLine]
  cases s.sink.offer line with
  | mk taken sink => cases taken <;> exact hS.printed s s.pending sink hs

theorem saves_flushEach (hS : Store.Settled S) (os : List ObjectId) : Saves S (flushEach os) := by
  induction os with
  | nil => exact triple_pure fun _ hs => hs
  | cons o os ih =>
    refine triple_bind (saves_takePending hS o) fun text => ?_
    by_cases ht : text ≠ []
    · rw [if_pos ht]
      exact triple_bind (saves_writeLine hS text) fun _ => ih
    · rw [if_neg ht]
      exact ih

theorem triple_invoke {J : Store → Prop} {m : Method} {args : List Value}
    (h : args.length = m.arity → Triple S (m.run args) (fun _ => J) fun _ => S) :
    Triple S (m.invoke args) (fun _ => J) fun _ => S := by
  intro s hs
  by_cases hargs : args.length = m.arity
  · have hrun := h hargs s hs
    rw [Method.invoke_eq, if_neg (not_not_intro hargs)]
    revert hrun
    cases m.run args s with
    | ok v t => exact id
    | error e t => exact id
  · rw [Method.invoke_eq, if_pos hargs]
    exact hs

end Native

theorem Registry.standardMethods_settled {S : Store → Prop} (hS : Store.Settled S) {m : Method}
    (hm : m ∈ standardMethods) (args : List Value) : Saves S (m.invoke args) := by
  refine triple_invoke fun hargs s hs => ?_
  have hends := standardMethods_ends hm hargs s
  generalize m.run args s = r at hends
  cases hends with
  | refused _ => exact hs
  | given _ => exact hs
  | printed _ _ => exact hS.printed s _ _ hs
  | untaken _ _ => exact hS.printed s _ _ hs
  | built ho _ => exact hS.built s _ _ hs ho

/-! Objects. -/

/-- An object that was made of a class of the library. Only a string builder has a field, and that
is its text. -/
structure Object.Made (library : Store) (ob : Object) : Prop where
  registered : ∃ name, library.lookup name = .ok ob.cls
  fields : ob.fields.entries = [] ∨ ob.cls = Registry.stringBuilderClass ∧
    ∃ text, ob.fields.entries = [(textField, .str text)]

/-- The objects of `s` are in `t` as they were, and all others were made since. -/
structure Store.Grown (s t : Store) : Prop where
  classes : s.SameClasses t
  kept : ∀ {o : ObjectId} {ob}, s.objects[o]? = some ob → t.objects[o]? = some ob
  made : ∀ {o : ObjectId} {ob}, s.objects[o]? = none → t.objects[o]? = some ob → ob.Made s

namespace Store
variable {s t : Store}

theorem Grown.refl (s : Store) : s.Grown s where
  classes := SameClasses.refl s
  kept := id
  made hnone hsome := by
    rw [hnone] at hsome
    cases hsome

theorem Grown.newObject (h : s.Grown t) {name : Bytes} {c : ClassId}
    (hc : t.lookup name = .ok c) : s.Grown (t.newObject c).2 where
  classes := h.classes
  kept hob := by
    have hlt := (List.getElem?_eq_some_iff.1 (h.kept hob)).1
    rw [Store.newObject, List.getElem?_append_left hlt]
    exact h.kept hob
  made {o ob} hnone hsome := by
    rw [Store.newObject] at hsome
    by_cases hlt : o < t.objects.length
    · rw [List.getElem?_append_left hlt] at hsome
      exact h.made hnone hsome
    · rw [List.getElem?_append_right (Nat.le_of_not_lt hlt)] at hsome
      have hnew := List.mem_singleton.1 (List.mem_of_getElem? hsome)
      subst hnew
      rw [lookup, h.classes.2] at hc
      exact ⟨⟨name, hc⟩, Or.inl rfl⟩

theorem put_textField {ob : Object} (h : ob.Made s) (text : Bytes) :
    (ob.fields.set textField (.str text)).entries = [(textField, .str text)] := by
  rw [Table.set]
  obtain hnone | ⟨-, before, hsome⟩ := h.fields
  · rw [hnone]
    rfl
  · rw [hsome, Table.put, if_pos rfl]

/-- If there are no string builders to begin with, no call changes what was there. -/
theorem Grown.settled (hs : ∀ ob ∈ s.objects, ob.cls ≠ Registry.stringBuilderClass) :
    Settled s.Grown where
  printed _ _ _ h := ⟨h.classes, h.kept, h.made⟩
  built t o text h ho := by
    obtain ⟨builder, hbuilder, hcls⟩ := Option.map_eq_some_iff.1 ho
    refine ⟨h.classes, ?_, ?_⟩
    · intro j ob hob
      have hne : o ≠ j := by
        rintro rfl
        rw [h.kept hob] at hbuilder
        cases hbuilder
        exact hs _ (List.mem_of_getElem? hob) hcls
      simp only [setField, List.getElem?_modify, if_neg hne, h.kept hob]
      rfl
    · intro j ob hnone hob
      simp only [setField, List.getElem?_modify, Option.map_eq_map, Option.map_eq_some_iff] at hob
      obtain ⟨before, hbefore, rfl⟩ := hob
      have hmade := h.made hnone hbefore
      by_cases hj : o = j
      · subst hj
        rw [hbefore] at hbuilder
        cases hbuilder
        rw [if_pos rfl]
        exact ⟨hmade.registered, Or.inr ⟨hcls, text, put_textField hmade text⟩⟩
      · rw [if_neg hj]
        exact hmade

theorem Standard.settled : Settled Standard where
  printed _ _ _ h := ⟨h.registered, h.classes⟩
  built _ _ _ h _ := ⟨h.registered, h.classes⟩

end Store

/-! Objects of other classes. -/

namespace Registry
variable {s : Store} {o : ObjectId} {rest : List Value}

/-- What a method of the library says of a receiver that is no object of its class, and what
`println` says first if its argument is wrong. -/
def Refuses (m : Method) (s : Store) (o : ObjectId) (rest : List Value) : Prop :=
  m.invoke (.obj o :: rest) s =
      .error (.receiver (s.className m.owner) m.name .object (s.text (.obj o))) s ∨
    m.name = utf8 "println" ∧ ∃ v want, rest = [v] ∧
      m.invoke (.obj o :: rest) s = .error (.argument "println" 1 v.kind want) s

theorem textArgument_result (method : String) {args : List Value} {i : Nat} {v : Value}
    (h : args[i]? = some v) : (∃ x, (textArgument method args i : Call Bytes) s = .ok x s) ∨
      (textArgument method args i : Call Bytes) s =
        .error (.argument method i v.kind .string) s := by
  rw [textArgument, argument_of_some h]
  cases v with
  | str t => exact Or.inl ⟨t, rfl⟩
  | _ => exact Or.inr rfl

theorem intArgument_result (method : String) {args : List Value} {i : Nat} {v : Value}
    (h : args[i]? = some v) : (∃ x, (intArgument method args i : Call Int32) s = .ok x s) ∨
      (intArgument method args i : Call Int32) s = .error (.argument method i v.kind .int) s := by
  rw [intArgument, argument_of_some h]
  cases v with
  | int n => exact Or.inl ⟨n, rfl⟩
  | _ => exact Or.inr rfl

section Foreign
variable {m : Method}

theorem invoke_of_error {e : Library.Error} (hargs : rest.length + 1 = m.arity)
    (h : m.run (.obj o :: rest) s = .error e s) :
    m.invoke (.obj o :: rest) s = .error e s := by
  rw [Method.invoke_eq, List.length_cons, if_neg (not_not_intro hargs), h]

theorem refuses_receiver {method : String} {f : ObjectId → Call Value}
    (hargs : rest.length + 1 = m.arity) (ho : s.classOf? o ≠ some m.owner)
    (hname : m.name = utf8 method)
    (hrun : m.run (.obj o :: rest) = receiver m.owner method (.obj o :: rest) >>= f) :
    Refuses m s o rest := by
  refine Or.inl (invoke_of_error hargs ?_)
  rw [hrun, bind_of_error (receiver_foreign ho method), hname]

theorem refuses_argument {α : Type} {argument : Call α} {text : α → Bytes} {v : Value}
    {want : ValueKind} (hargs : rest.length + 1 = m.arity) (ho : s.classOf? o ≠ some m.owner)
    (hname : m.name = utf8 "println") (hrest : rest = [v])
    (hrun : m.run (.obj o :: rest) =
      argument >>= fun x => printLine m.owner (.obj o :: rest) (text x))
    (harg : (∃ x, argument s = .ok x s) ∨
      argument s = .error (.argument "println" 1 v.kind want) s) : Refuses m s o rest := by
  obtain ⟨x, hx⟩ | hwrong := harg
  · refine Or.inl (invoke_of_error hargs ?_)
    rw [hrun, bind_of_ok hx, printLine, bind_of_error (receiver_foreign ho "println"), hname]
  · refine Or.inr ⟨hname, v, want, hrest, invoke_of_error hargs ?_⟩
    rw [hrun, bind_of_error hwrong]

end Foreign

/-- No method but the constructor of `Object` can be called on an object of another class. -/
theorem invoke_foreign {m : Method} (hm : m ∈ standardMethods) (hinstance : m.isStatic = false)
    (hinit : ¬ (m.owner = objectClass ∧ m.name = constructorName))
    (ho : s.classOf? o ≠ some m.owner) (hargs : rest.length + 1 = m.arity) :
    Refuses m s o rest := by
  have hone (h : rest.length + 1 = 2) : ∃ v, rest = [v] := List.length_eq_one_iff.1 (by omega)
  simp only [mem_standardMethods_iff, builtins, List.map_cons, List.map_nil, List.mem_cons,
    List.not_mem_nil, or_false] at hm
  obtain rfl | rfl | rfl | rfl | rfl | rfl | rfl | rfl | rfl | rfl | rfl | rfl := hm
  · exact absurd ⟨rfl, rfl⟩ hinit
  · obtain ⟨v, rfl⟩ := hone hargs
    exact refuses_argument hargs ho rfl rfl rfl (textArgument_result "println" rfl)
  · obtain ⟨v, rfl⟩ := hone hargs
    exact refuses_argument hargs ho rfl rfl rfl (intArgument_result "println" rfl)
  · exact refuses_receiver hargs ho rfl rfl
  · exact refuses_receiver hargs ho rfl rfl
  · exact refuses_receiver hargs ho rfl rfl
  · exact refuses_receiver hargs ho rfl rfl
  · exact refuses_receiver hargs ho rfl rfl
  · exact refuses_receiver hargs ho rfl rfl
  · exact refuses_receiver hargs ho rfl rfl
  · cases hinstance
  · cases hinstance

end Registry

end ClassMachine
