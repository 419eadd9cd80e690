import Mathlib.Data.List.Induction
import ClassMachine.Proofs.Library.Descriptors
import ClassMachine.Proofs.Library.Heap

/-! The tables of classes and methods. A registry changes by making a class, adding a method,
setting a static field and registering a class. A change that is refused leaves it as it was
(`eq_of_refused`), and what the others do is said by `apply_does`. So in every registry that is
built from the standard one the methods are sound and at their own places (`sound_build`), and what
it had before it still has (`grows_build`). -/
namespace ClassMachine
open Fallible
open Library (Error Refusal)

namespace Method

/-- The type is that of the descriptor, and a constructor is a void instance method. -/
structure Sound (m : Method) : Prop where
  type : MethodType.parse m.descriptor = .ok m.type
  constructor : m.name = constructorName → m.isStatic = false ∧ m.type.void = true

theorem Sound.arity {m : Method} (h : m.Sound) :
    ∃ e : MethodType.Descriptor, m.descriptor = e.methodType.text ∧
      m.arity = e.params.length + if m.isStatic then 0 else 1 := by
  obtain ⟨htext, e, he⟩ := MethodType.parse_ok_iff.1 h.type
  refine ⟨e, he ▸ htext, ?_⟩
  have hparams : m.type.params.length = e.params.length := by
    rw [← he]
    exact List.length_map _
  rw [Method.arity, hparams]
  split_ifs <;> rfl

end Method

namespace Store

theorem className_eq (s : Store) (c : ClassId) :
    s.className c = ((s.classes.map Class.name)[c]?).getD [] := by
  rw [className, List.getElem?_map]
  cases s.classes[c]? <;> rfl

theorem lookup_ok_iff {s : Store} {name : Bytes} {c : ClassId} :
    s.lookup name = .ok c ↔ s.registered.get? name = some c := by
  rw [lookup]
  cases s.registered.get? name <;> simp

theorem names_setStaticField (s : Store) (c : ClassId) (field : Bytes) (v : Value) :
    (s.setStaticField c field v).classes.map Class.name = s.classes.map Class.name := by
  refine List.ext_getElem? fun i => ?_
  rw [setStaticField, List.getElem?_map, List.getElem?_map, List.getElem?_modify]
  cases s.classes[i]? with
  | none => rfl
  | some cls => by_cases hi : c = i <;> simp [hi]

theorem className_mono {s t : Store} {c : ClassId}
    (h : s.classes.map Class.name <+: t.classes.map Class.name) (hc : s.className c ≠ []) :
    t.className c = s.className c := by
  rw [className_eq] at hc ⊢
  rw [className_eq]
  cases hname : (s.classes.map Class.name)[c]? with
  | none =>
    rw [hname] at hc
    exact absurd rfl hc
  | some name =>
    obtain ⟨more, hmore⟩ := h
    rw [← hmore, List.getElem?_append_left (List.getElem?_eq_some_iff.1 hname).1, hname]

end Store

namespace Registry

inductive Change
  | newClass (name : Bytes)
  | define (c : ClassId) (isStatic : Bool) (name descriptor : Bytes) (run : Option Native)
  | setStaticField (c : ClassId) (field : Bytes) (v : Value)
  | register (c : Option ClassId)

def Change.apply : Change → Update Unit
  | newClass name => modify fun r => { r with store := (r.store.newClass name).2 }
  | define c isStatic name descriptor run => Update.define c isStatic name descriptor run
  | setStaticField c field v => modify fun r => { r with store := r.store.setStaticField c field v }
  | register c => Update.register c

/-- The registry after a change, refused or not. -/
def change (r : Registry) (x : Change) : Registry := Fallible.final (x.apply r)

def build (r : Registry) (xs : List Change) : Registry := xs.foldl change r

def definition (m : Method) : Change :=
  .define m.owner m.isStatic m.name m.descriptor (some m.run)

section Steps
variable {r r' : Registry} {x : Change}

theorem checkMethod_ok_iff {m : Method} :
    r.checkMethod m.owner m.isStatic m.name m.descriptor = .ok m.type ↔
      r.methods.get? m.place = none ∧ m.Sound := by
  have hfind : r.methods.find? m.owner m.isStatic (Method.keyOf m.name m.descriptor) =
      r.methods.get? m.place := rfl
  rw [checkMethod, hfind]
  cases r.methods.get? m.place with
  | some other => simp
  | none =>
    rw [if_neg (by simp)]
    cases hparse : MethodType.parse m.descriptor with
    | error e =>
      simp only [reduceCtorEq, false_iff, not_and]
      intro _ hsound
      cases hparse.symm.trans hsound.type
    | ok type =>
      by_cases hinit : m.name = constructorName ∧ (m.isStatic ∨ ¬ type.void)
      · simp only [if_pos hinit, reduceCtorEq, false_iff, not_and]
        intro _ hsound
        obtain ⟨hstatic, hvoid⟩ := hsound.constructor hinit.1
        cases hparse.symm.trans hsound.type
        simp [hstatic, hvoid] at hinit
      · simp only [if_neg hinit, Except.ok.injEq]
        constructor
        · rintro rfl
          refine ⟨trivial, hparse, fun hname => ?_⟩
          simpa [hname] using hinit
        · rintro ⟨-, hsound⟩
          exact Except.ok.inj (hparse.symm.trans hsound.type)

theorem get_eq (r : Registry) : (get : Update Registry) r = .ok r r := rfl

section Definition
variable {c : ClassId} {isStatic : Bool} {name descriptor : Bytes}

theorem update_define_refused {reason : Refusal}
    (h : r.checkMethod c isStatic name descriptor = .error reason) (run : Native) :
    Update.define c isStatic name descriptor (some run) r =
      .error (.registration (r.store.className c) (Method.keyOf name descriptor) reason) r := by
  rw [Update.define, bind_of_ok (get_eq r)]
  simp only [h]
  rfl

theorem update_define_checked {type : MethodType}
    (h : r.checkMethod c isStatic name descriptor = .ok type) (run : Native) :
    Update.define c isStatic name descriptor (some run) r =
      .ok () { r with
        methods := r.methods.set ⟨c, isStatic, Method.keyOf name descriptor⟩
          { owner := c, isStatic, name, descriptor, type, run } } := by
  rw [Update.define, bind_of_ok (get_eq r)]
  simp only [h]
  rfl

end Definition

theorem apply_definition {m : Method} (hfree : r.methods.get? m.place = none) (hm : m.Sound) :
    (definition m).apply r = .ok () { r with methods := r.methods.set m.place m } :=
  update_define_checked (checkMethod_ok_iff.2 ⟨hfree, hm⟩) m.run

theorem update_define_cases (c : ClassId) (isStatic : Bool) (name descriptor : Bytes)
    (run : Option Native) (r : Registry) :
    (∃ e, Update.define c isStatic name descriptor run r = .error e r) ∨
      ∃ m, Change.define c isStatic name descriptor run = definition m ∧ m.Sound ∧
        r.methods.get? m.place = none := by
  cases run with
  | none => exact Or.inl ⟨_, rfl⟩
  | some f =>
    cases hcheck : r.checkMethod c isStatic name descriptor with
    | error reason => exact Or.inl ⟨_, update_define_refused hcheck f⟩
    | ok type =>
      let m : Method := { owner := c, isStatic, name, descriptor, type, run := f }
      obtain ⟨hfree, hm⟩ := (checkMethod_ok_iff (m := m)).1 hcheck
      exact Or.inr ⟨m, rfl, hm, hfree⟩

/-- What a change can do: it is refused and does nothing, or it sets what was free in one of the
tables, or it leaves them as they are and at most makes room for a class. -/
inductive Does (r : Registry) : Change → EStateM.Result Error Registry Unit → Prop
  | refused {x : Change} (e : Error) : Does r x (.error e r)
  | defined {m : Method} (sound : m.Sound) (free : r.methods.get? m.place = none) :
      Does r (definition m) (.ok () { r with methods := r.methods.set m.place m })
  | registered {x : Change} {id : ClassId} (named : r.store.className id ≠ [])
      (free : r.store.registered.get? (r.store.className id) = none) :
      Does r x (.ok () { r with store := { r.store with
        registered := r.store.registered.set (r.store.className id) id } })
  | stored {x : Change} {r' : Registry} (methods : r'.methods = r.methods)
      (classes : r'.store.registered = r.store.registered)
      (names : r.store.classes.map Class.name <+: r'.store.classes.map Class.name) :
      Does r x (.ok () r')

theorem update_register_does (c : Option ClassId) (r : Registry) :
    r.Does (.register c) (Update.register c r) := by
  cases c with
  | none => exact .refused _
  | some id =>
    rw [Update.register, bind_of_ok (get_eq r)]
    dsimp only
    by_cases hname : (r.store.className id).isEmpty
    · rw [if_pos hname]
      exact .refused _
    · rw [if_neg hname]
      by_cases htaken : r.store.registered.contains (r.store.className id)
      · rw [if_pos htaken]
        exact .refused _
      · rw [if_neg htaken]
        exact .registered (by simpa using hname) (by simpa [Table.contains] using htaken)

theorem apply_does (x : Change) (r : Registry) : r.Does x (x.apply r) := by
  cases x with
  | define c isStatic name descriptor run =>
    rcases update_define_cases c isStatic name descriptor run r with ⟨e, hx⟩ | ⟨m, hx, hm, hfree⟩
    · rw [Change.apply, hx]
      exact .refused e
    · rw [hx, apply_definition hfree hm]
      exact .defined hm hfree
  | register c => exact update_register_does c r
  | newClass name => exact .stored rfl rfl (by simp [Store.newClass])
  | setStaticField c field v =>
    refine .stored rfl rfl ⟨[], ?_⟩
    rw [List.append_nil, Store.names_setStaticField]

theorem eq_of_refused {e : Error} (h : x.apply r = .error e r') : r' = r := by
  have hdoes := apply_does x r
  rw [h] at hdoes
  cases hdoes
  rfl

theorem build_induction {P : Registry → Prop} (hr : P r)
    (h : ∀ (r : Registry) (x : Change), P r → P (r.change x)) (xs : List Change) :
    P (r.build xs) := by
  induction xs generalizing r with
  | nil => exact hr
  | cons x xs ih => exact ih (h r x hr)

end Steps

/-- Classes are registered under their own names, and methods are sound and at their own places. -/
structure Sound (r : Registry) : Prop where
  registered : ∀ name c, r.store.registered.get? name = some c →
    name ≠ [] ∧ r.store.className c = name
  methods : ∀ place m, r.methods.get? place = some m → m.place = place ∧ m.Sound

structure Grows (r r' : Registry) : Prop where
  methods : ∀ place m, r.methods.get? place = some m → r'.methods.get? place = some m
  registered : ∀ name c, r.store.registered.get? name = some c →
    r'.store.registered.get? name = some c
  names : r.store.classes.map Class.name <+: r'.store.classes.map Class.name

section Runs
variable {r : Registry} {x : Change}

theorem Sound.change (hr : r.Sound) (x : Change) : (r.change x).Sound := by
  have hdoes := apply_does x r
  rw [Registry.change]
  generalize x.apply r = result at hdoes
  cases hdoes with
  | refused e => exact hr
  | defined sound free =>
    refine ⟨hr.registered, fun place other hget => ?_⟩
    rw [final, Table.get?_set] at hget
    split_ifs at hget with heq
    · cases hget
      exact ⟨heq, sound⟩
    · exact hr.methods place other hget
  | registered named free =>
    refine ⟨fun name c hget => ?_, hr.methods⟩
    rw [final, Table.get?_set] at hget
    split_ifs at hget with heq
    · cases hget
      exact ⟨heq ▸ named, heq⟩
    · exact hr.registered name c hget
  | stored methods classes names =>
    refine ⟨fun name c hget => ?_, methods ▸ hr.methods⟩
    rw [final, classes] at hget
    obtain ⟨hname, hclass⟩ := hr.registered name c hget
    exact ⟨hname, (Store.className_mono names (hclass ▸ hname)).trans hclass⟩

theorem Grows.refl (r : Registry) : r.Grows r :=
  ⟨fun _ _ h => h, fun _ _ h => h, List.prefix_rfl⟩

theorem Grows.change {start : Registry} (hr : start.Grows r) (x : Change) :
    start.Grows (r.change x) := by
  have hdoes := apply_does x r
  rw [Registry.change]
  generalize x.apply r = result at hdoes
  cases hdoes with
  | refused e => exact hr
  | defined sound free =>
    refine ⟨fun place m hget => ?_, hr.registered, hr.names⟩
    exact Table.get?_set_of_free free (hr.methods place m hget)
  | registered named free =>
    refine ⟨hr.methods, fun name c hget => ?_, hr.names⟩
    exact Table.get?_set_of_free free (hr.registered name c hget)
  | stored methods classes names =>
    exact ⟨methods ▸ hr.methods, classes ▸ hr.registered, hr.names.trans names⟩

theorem sound_build (hr : r.Sound) (xs : List Change) : (r.build xs).Sound :=
  build_induction hr (fun _ x hr => hr.change x) xs

theorem grows_build (r : Registry) (xs : List Change) : r.Grows (r.build xs) :=
  build_induction (Grows.refl r) (fun _ x hr => hr.change x) xs

theorem methods_change_iff {place : Method.Place} {m : Method} :
    (r.change x).methods.get? place = some m ↔ r.methods.get? place = some m ∨
      x = definition m ∧ m.place = place ∧ m.Sound ∧ r.methods.get? m.place = none := by
  constructor
  · intro h
    have hdoes := apply_does x r
    rw [change] at h
    generalize x.apply r = result at h hdoes
    cases hdoes with
    | refused e => exact Or.inl h
    | defined sound free =>
      rw [final, Table.get?_set] at h
      split_ifs at h with hplace
      · cases h
        exact Or.inr ⟨rfl, hplace, sound, free⟩
      · exact Or.inl h
    | registered named free => exact Or.inl h
    | stored methods classes names => exact Or.inl (methods ▸ h)
  · rintro (h | ⟨rfl, rfl, hm, hfree⟩)
    · exact ((Grows.refl r).change x).methods place m h
    · rw [change, apply_definition hfree hm, final, Table.get?_set, if_pos rfl]

theorem build_snoc (r : Registry) (xs : List Change) (x : Change) :
    r.build (xs ++ [x]) = (r.build xs).change x := by
  rw [build, List.foldl_append]
  rfl

/-- The methods are those from the start, and those that were added when it was their turn. -/
theorem methods_build_iff {xs : List Change} {place : Method.Place} {m : Method} :
    (r.build xs).methods.get? place = some m ↔ r.methods.get? place = some m ∨
      ∃ before, before ++ [definition m] <+: xs ∧ m.place = place ∧ m.Sound ∧
        (r.build before).methods.get? m.place = none := by
  induction xs using List.reverseRecOn with
  | nil => simp [build]
  | append_singleton xs x ih =>
    rw [build_snoc, methods_change_iff, ih]
    simp only [List.prefix_concat_iff]
    constructor
    · rintro ((hm | ⟨before, hbefore, hadded⟩) | ⟨rfl, hadded⟩)
      · exact Or.inl hm
      · exact Or.inr ⟨before, Or.inr hbefore, hadded⟩
      · exact Or.inr ⟨xs, Or.inl rfl, hadded⟩
    · rintro (hm | ⟨before, hlast | hbefore, hadded⟩)
      · exact Or.inl (Or.inl hm)
      · obtain ⟨rfl, hx⟩ := List.append_inj' hlast rfl
        exact Or.inr ⟨(List.singleton_inj.1 hx).symm, hadded⟩
      · exact Or.inl (Or.inr ⟨before, hbefore, hadded⟩)

end Runs

/-! The standard library. -/

theorem builtins_sound : ∀ m ∈ builtins.map Builtin.method, m.Sound := by
  have hall : ∀ m ∈ builtins.map Builtin.method,
      (MethodType.parse m.descriptor).toOption = some m.type ∧
      (m.name = constructorName → m.isStatic = false ∧ m.type.void = true) := by decide
  intro m hm
  obtain ⟨htype, hinit⟩ := hall m hm
  refine ⟨?_, hinit⟩
  cases hparse : MethodType.parse m.descriptor with
  | error e =>
    rw [hparse] at htype
    cases htype
  | ok type =>
    rw [hparse] at htype
    exact congrArg Except.ok (Option.some.inj htype)

theorem standard_sound (sink : Sink) : (standard sink).Sound where
  registered name c hget := by
    have hnames : ∀ e ∈ (standardStore {}).registered.entries,
        e.1 ≠ [] ∧ (standardStore {}).className e.2 = e.1 := by decide
    exact hnames (name, c) (Table.mem_of_find hget)
  methods place m hget := by
    obtain ⟨b, hb, heq⟩ := List.mem_map.1 (Table.mem_of_find hget)
    cases heq
    exact ⟨rfl, builtins_sound _ (List.mem_map_of_mem hb)⟩

/-- A registry built from the standard one has its classes under their own names and its methods,
all sound, at their own places. No change takes one away, and a refused one changes nothing. -/
theorem tables_stay_sound (sink : Sink) (xs : List Change) :
    let r := (standard sink).build xs
    (∀ name c, r.store.lookup name = .ok c → name ≠ [] ∧ r.store.className c = name) ∧
      (∀ c isStatic key m, r.methods.find? c isStatic key = some m →
        m.owner = c ∧ m.isStatic = isStatic ∧ m.key = key ∧ m.Sound ∧
          (m ∈ standardMethods ∨ definition m ∈ xs) ∧
          ∃ e : MethodType.Descriptor, m.descriptor = e.methodType.text ∧
            m.arity = e.params.length + if isStatic then 0 else 1) ∧
      (∀ m ∈ r.methods, r.methods.find? m.owner m.isStatic m.key = some m) ∧
      (∀ ys, (∀ name c, r.store.lookup name = .ok c →
          (r.build ys).store.lookup name = .ok c ∧ (r.build ys).store.className c = name) ∧
        ∀ c isStatic key m, r.methods.find? c isStatic key = some m →
          (r.build ys).methods.find? c isStatic key = some m) ∧
      ∀ (x : Change) (e : Error) (r' : Registry), x.apply r = .error e r' → r' = r := by
  intro r
  have hr : r.Sound := sound_build (standard_sound sink) xs
  refine ⟨?_, ?_, ?_, ?_, ?_⟩
  · intro name c hlookup
    exact hr.registered name c (Store.lookup_ok_iff.1 hlookup)
  · intro c isStatic key m hfind
    obtain ⟨hplace, hm⟩ := hr.methods _ m hfind
    cases hplace
    refine ⟨rfl, rfl, rfl, hm, ?_, hm.arity⟩
    rcases methods_build_iff.1 hfind with hstandard | ⟨before, hbefore, -, -⟩
    · exact Or.inl ⟨_, hstandard⟩
    · exact Or.inr (hbefore.subset (by simp))
  · rintro m ⟨place, hget⟩
    obtain ⟨rfl, -⟩ := hr.methods place m hget
    exact hget
  · intro ys
    have hgrows := grows_build r ys
    have hbuilt : (r.build ys).Sound := sound_build hr ys
    refine ⟨fun name c hlookup => ?_, fun c isStatic key m => hgrows.methods _ m⟩
    have hget := hgrows.registered name c (Store.lookup_ok_iff.1 hlookup)
    exact ⟨Store.lookup_ok_iff.2 hget, (hbuilt.registered name c hget).2⟩
  · intro x e r' h
    exact eq_of_refused h

end Registry

end ClassMachine
