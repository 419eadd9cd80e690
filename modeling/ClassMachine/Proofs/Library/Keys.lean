import ClassMachine.Proofs.Library.Tables

/-! Looking up methods by key. A key is a name and a descriptor with a colon between them, and both
may have colons of their own: so a key says which pair it was made from unless there is a colon in
one of them (`keyOf_inj`, `exists_other_pair`). Hence a table tells methods apart by name and
descriptor exactly if none of them has a colon in either (`exact_iff`). -/
namespace ClassMachine
open Library (Error)

namespace Method
variable {name descriptor name' descriptor' : Bytes}

def colon : UInt8 := 58

theorem keyOf_eq (name descriptor : Bytes) :
    keyOf name descriptor = name ++ colon :: descriptor := by
  rw [keyOf, List.append_assoc]
  rfl

theorem keyOf_inj (hname : colon ∉ name) (hdescriptor : colon ∉ descriptor)
    (h : keyOf name' descriptor' = keyOf name descriptor) :
    name' = name ∧ descriptor' = descriptor := by
  rw [keyOf_eq, keyOf_eq, List.append_eq_append_iff] at h
  rcases h with ⟨more, rfl, h⟩ | ⟨more, rfl, h⟩
  · cases more with
    | nil => exact ⟨(List.append_nil _).symm, (List.cons.inj h).2⟩
    | cons b more =>
      -- the longer name would have the colon
      cases (List.cons.inj h).1
      simp at hname
  · cases more with
    | nil => exact ⟨List.append_nil _, (List.cons.inj h).2.symm⟩
    | cons b more =>
      rw [(List.cons.inj h).2] at hdescriptor
      simp at hdescriptor

/-- A colon in the name or in the descriptor can be taken for the one between them. -/
theorem exists_other_pair (h : colon ∈ name ∨ colon ∈ descriptor) : ∃ name' descriptor',
    keyOf name' descriptor' = keyOf name descriptor ∧ name' ≠ name := by
  rcases h with h | h
  · obtain ⟨front, back, rfl⟩ := List.append_of_mem h
    exact ⟨front, back ++ colon :: descriptor, by simp [keyOf_eq], by simp⟩
  · obtain ⟨front, back, rfl⟩ := List.append_of_mem h
    exact ⟨name ++ colon :: front, back, by simp [keyOf_eq], by simp⟩

end Method

namespace Registry

/-- One of the changes was to define a method of the class with this name and descriptor, and it was
not refused. -/
def Defined (r : Registry) (xs : List Change) (c : ClassId) (isStatic : Bool)
    (name descriptor : Bytes) : Prop :=
  ∃ before run r', before ++ [.define c isStatic name descriptor run] <+: xs ∧
    (r.build before).define c isStatic name descriptor run = .ok r'

/-- The methods of a class are told apart by name and descriptor: just what was defined is found,
under its own name and descriptor, and nothing else is in the way of a definition. -/
structure Exact (r : Registry) (xs : List Change) (c : ClassId) (isStatic : Bool) : Prop where
  found : ∀ name descriptor, (∃ m, (r.build xs).method c isStatic name descriptor = .ok m) ↔
    r.Defined xs c isStatic name descriptor
  named : ∀ name descriptor m, (r.build xs).method c isStatic name descriptor = .ok m →
    m.name = name ∧ m.descriptor = descriptor
  refused : ∀ name descriptor run cls key,
    (r.build xs).define c isStatic name descriptor run =
      .error (.registration cls key .definedTwice) → r.Defined xs c isStatic name descriptor

section Lookup
variable {r : Registry} {c : ClassId} {isStatic : Bool} {name descriptor : Bytes}

theorem method_ok_iff {m : Method} : r.method c isStatic name descriptor = .ok m ↔
    r.methods.find? c isStatic (Method.keyOf name descriptor) = some m := by
  rw [method]
  cases r.methods.find? c isStatic (Method.keyOf name descriptor) <;> simp

theorem checkMethod_twice_iff : r.checkMethod c isStatic name descriptor = .error .definedTwice ↔
    ∃ m, r.method c isStatic name descriptor = .ok m := by
  simp only [method_ok_iff, ← Option.isSome_iff_exists]
  rw [checkMethod]
  by_cases htaken : (r.methods.find? c isStatic (Method.keyOf name descriptor)).isSome
  · simp [htaken]
  · rw [if_neg htaken]
    cases MethodType.parse descriptor with
    | error e => simp [htaken]
    | ok type =>
      dsimp only
      split_ifs <;> simp [htaken]

theorem define_ok_iff {run : Option Native} :
    (∃ r', r.define c isStatic name descriptor run = .ok r') ↔
      ∃ m, Change.define c isStatic name descriptor run = definition m ∧ m.Sound ∧
        r.methods.get? m.place = none := by
  constructor
  · rintro ⟨r', h⟩
    rcases update_define_cases c isStatic name descriptor run r with ⟨e, hrefused⟩ | hdefined
    · rw [define, Update.result, hrefused] at h
      cases h
    · exact hdefined
  · rintro ⟨m, hx, hm, hfree⟩
    cases hx
    have happly : Update.define m.owner m.isStatic m.name m.descriptor (some m.run) r = _ :=
      apply_definition hfree hm
    rw [define, Update.result, happly]
    exact ⟨_, rfl⟩

/-- Whether the key is taken is asked before the descriptor is looked at. -/
theorem define_twice_iff {run : Option Native} :
    (∃ cls key, r.define c isStatic name descriptor run =
      .error (.registration cls key .definedTwice)) ↔
      run.isSome ∧ ∃ m, r.method c isStatic name descriptor = .ok m := by
  rw [← checkMethod_twice_iff]
  cases run with
  | none =>
    have hnone : r.define c isStatic name descriptor none = .error (.registration
        (r.store.className c) (Method.keyOf name descriptor) .noImplementation) := rfl
    simp [hnone]
  | some f =>
    cases hcheck : r.checkMethod c isStatic name descriptor with
    | error reason => simp [define, Update.result, update_define_refused hcheck f]
    | ok type => simp [define, Update.result, update_define_checked hcheck f]

end Lookup

section Tables
variable {r : Registry} {xs : List Change} {c : ClassId} {isStatic : Bool}
  {name descriptor : Bytes} (hc : ∀ isStatic key, r.methods.find? c isStatic key = none)

theorem method_of_defined (h : r.Defined xs c isStatic name descriptor) :
    ∃ m, (r.build xs).method c isStatic name descriptor = .ok m ∧ m.name = name ∧
      m.descriptor = descriptor := by
  obtain ⟨before, run, r', hbefore, hdefine⟩ := h
  obtain ⟨m, hx, hm, hfree⟩ := define_ok_iff.1 ⟨r', hdefine⟩
  cases hx
  have hget := methods_build_iff.2 (Or.inr ⟨before, hbefore, rfl, hm, hfree⟩)
  exact ⟨m, method_ok_iff.2 hget, rfl, rfl⟩

include hc

theorem defined_of_method {m : Method}
    (h : (r.build xs).method c isStatic name descriptor = .ok m) :
    r.Defined xs c isStatic m.name m.descriptor ∧ m.key = Method.keyOf name descriptor := by
  rcases methods_build_iff.1 (method_ok_iff.1 h) with hold | ⟨before, hbefore, hplace, hm, hfree⟩
  · cases (hc isStatic (Method.keyOf name descriptor)).symm.trans hold
  · simp only [Method.place, Method.Place.mk.injEq] at hplace
    obtain ⟨rfl, rfl, hkey⟩ := hplace
    obtain ⟨r', hdefine⟩ := define_ok_iff.2 ⟨m, rfl, hm, hfree⟩
    exact ⟨⟨before, some m.run, r', hbefore, hdefine⟩, hkey⟩

theorem exists_method_iff_defined :
    (∃ m, (r.build xs).method c isStatic name descriptor = .ok m) ↔
      ∃ name' descriptor', r.Defined xs c isStatic name' descriptor' ∧
        Method.keyOf name' descriptor' = Method.keyOf name descriptor := by
  constructor
  · rintro ⟨m, h⟩
    exact ⟨m.name, m.descriptor, defined_of_method hc h⟩
  · rintro ⟨name', descriptor', hdefined, hkey⟩
    obtain ⟨m, hm, -, -⟩ := method_of_defined hdefined
    exact ⟨m, method_ok_iff.2 (hkey ▸ method_ok_iff.1 hm)⟩

/-- A table is exact as long as there is no colon in the names and descriptors of its methods. -/
theorem exact_iff : r.Exact xs c isStatic ↔ ∀ name descriptor,
    r.Defined xs c isStatic name descriptor →
      Method.colon ∉ name ∧ Method.colon ∉ descriptor := by
  constructor
  · intro h name descriptor hdefined
    by_contra hcolon
    rw [← not_or, not_not] at hcolon
    obtain ⟨name', descriptor', hkey, hne⟩ := Method.exists_other_pair hcolon
    -- the same method is found under both pairs
    obtain ⟨m, hm⟩ := (h.found name descriptor).2 hdefined
    have hm' : (r.build xs).method c isStatic name' descriptor' = .ok m := by
      rwa [method_ok_iff, hkey, ← method_ok_iff]
    exact hne ((h.named name' descriptor' m hm').1.symm.trans (h.named name descriptor m hm).1)
  · intro h
    have hpair {name descriptor name' descriptor' : Bytes}
        (hdefined : r.Defined xs c isStatic name' descriptor')
        (hkey : Method.keyOf name' descriptor' = Method.keyOf name descriptor) :
        name = name' ∧ descriptor = descriptor' :=
      Method.keyOf_inj (h _ _ hdefined).1 (h _ _ hdefined).2 hkey.symm
    have hfound (name descriptor : Bytes) :
        (∃ m, (r.build xs).method c isStatic name descriptor = .ok m) ↔
          r.Defined xs c isStatic name descriptor := by
      rw [exists_method_iff_defined hc]
      constructor
      · rintro ⟨name', descriptor', hdefined, hkey⟩
        obtain ⟨rfl, rfl⟩ := hpair hdefined hkey
        exact hdefined
      · intro hdefined
        exact ⟨name, descriptor, hdefined, rfl⟩
    refine ⟨hfound, fun name descriptor m hm => ?_, fun name descriptor run cls key hrefused => ?_⟩
    · obtain ⟨hdefined, hkey⟩ := defined_of_method hc hm
      obtain ⟨hname, hdescriptor⟩ := hpair hdefined hkey
      exact ⟨hname.symm, hdescriptor.symm⟩
    · exact (hfound name descriptor).1 (define_twice_iff.1 ⟨cls, key, hrefused⟩).2

/-- Methods of a class that was made without any are found by key, so that names and descriptors are
told apart exactly as long as no method has a colon in either. -/
theorem methods_found_by_key :
    (∀ name descriptor, (∃ m, (r.build xs).method c isStatic name descriptor = .ok m) ↔
      ∃ name' descriptor', r.Defined xs c isStatic name' descriptor' ∧
        Method.keyOf name' descriptor' = Method.keyOf name descriptor) ∧
    (∀ name descriptor m, (r.build xs).method c isStatic name descriptor = .ok m →
      r.Defined xs c isStatic m.name m.descriptor ∧ m.key = Method.keyOf name descriptor) ∧
    (∀ name descriptor run, (∃ cls key, (r.build xs).define c isStatic name descriptor run =
        .error (.registration cls key .definedTwice)) ↔
      run.isSome ∧ ∃ name' descriptor', r.Defined xs c isStatic name' descriptor' ∧
        Method.keyOf name' descriptor' = Method.keyOf name descriptor) ∧
    (r.Exact xs c isStatic ↔ ∀ name descriptor, r.Defined xs c isStatic name descriptor →
      Method.colon ∉ name ∧ Method.colon ∉ descriptor) := by
  refine ⟨fun name descriptor => exists_method_iff_defined hc,
    fun name descriptor m => defined_of_method hc, fun name descriptor run => ?_, exact_iff hc⟩
  rw [define_twice_iff, exists_method_iff_defined hc]

end Tables

/-- A class whose one method takes a value of the class `x:(Ly`. -/
def clash : List Change :=
  [.newClass (utf8 "demo/C"),
    .define 6 false (utf8 "f") (utf8 "(Lx:(Ly;)V") (some Native.nothing)]

theorem find?_six : ∀ isStatic key, (standard {}).methods.find? 6 isStatic key = none := by
  have howners : ∀ m ∈ builtins.map Builtin.method, m.owner ≠ 6 := by decide
  intro isStatic key
  cases hget : (standard {}).methods.find? 6 isStatic key with
  | none => rfl
  | some m =>
    obtain ⟨hplace, -⟩ := (standard_sound {}).methods _ m hget
    have howner : m.owner = 6 := congrArg Method.Place.cls hplace
    exact absurd howner (howners m (mem_standardMethods_iff.1 ⟨_, hget⟩))

theorem clash_defined : (standard {}).Defined clash 6 false (utf8 "f") (utf8 "(Lx:(Ly;)V") := by
  let m : Method := { owner := 6, isStatic := false, name := utf8 "f",
                      descriptor := utf8 "(Lx:(Ly;)V",
                      type := { params := [utf8 "Lx:(Ly;"], ret := utf8 "V" },
                      run := Native.nothing }
  have hsound : m.Sound := ⟨rfl, fun _ => ⟨rfl, rfl⟩⟩
  have hfree : (standard {}).methods.get? m.place = none := find?_six false m.key
  let made := (standard {}).build [.newClass (utf8 "demo/C")]
  obtain ⟨r', hdefine⟩ := (define_ok_iff (r := made)).2 ⟨m, rfl, hsound, hfree⟩
  exact ⟨[.newClass (utf8 "demo/C")], some Native.nothing, r', List.prefix_rfl, hdefine⟩

/-- Another method, with a descriptor of its own, is taken for the one that is there. -/
theorem clash_found :
    (∀ isStatic key, (standard {}).methods.find? 6 isStatic key = none) ∧
    MethodType.parse (utf8 "(Ly;)V") = .ok { params := [utf8 "Ly;"], ret := utf8 "V" } ∧
    (∃ m, ((standard {}).build clash).method 6 false (utf8 "f:(Lx") (utf8 "(Ly;)V") = .ok m) ∧
    ∃ cls key, ((standard {}).build clash).define 6 false (utf8 "f:(Lx") (utf8 "(Ly;)V")
      (some Native.nothing) = .error (.registration cls key .definedTwice) := by
  obtain ⟨hfound, -, htwice, -⟩ :=
    @methods_found_by_key (standard {}) clash 6 false find?_six
  have hkey : ∃ name' descriptor', (standard {}).Defined clash 6 false name' descriptor' ∧
      Method.keyOf name' descriptor' = Method.keyOf (utf8 "f:(Lx") (utf8 "(Ly;)V") :=
    ⟨_, _, clash_defined, by decide⟩
  exact ⟨find?_six, rfl, (hfound _ _).2 hkey, (htwice _ _ _).2 ⟨rfl, hkey⟩⟩

theorem clash_not_exact : ¬ (standard {}).Exact clash 6 false := by
  intro h
  obtain ⟨-, hcolon⟩ := (exact_iff find?_six).1 h _ _ clash_defined
  exact hcolon (by decide)

end Registry

end ClassMachine
