import ClassMachine.Proofs.Machine.Frames
import ClassMachine.Proofs.Machine.Output

/-! What a run does to classes and objects. A caller may add classes and objects of its own to the
standard library, and pass the objects to a method. Such an object is none of the library's, even if
its class has the name of a class there: no method can be called on it, so a run leaves it alone. -/
namespace ClassMachine

def Registry.hosting (sink : Sink) (classes : List Class) (objects : List Object) : Store :=
  { standardStore sink with
    classes := (standardStore sink).classes ++ classes
    objects := (standardStore sink).objects ++ objects }

namespace Machine
open Fallible Native
variable {s t : Store}

/-- A run from `s` to `t` has done nothing to classes and earlier objects, and no method can be
called on those that are none of the library's, but for the constructor of `Object`. -/
structure Undisturbed (s t : Store) : Prop extends s.Grown t where
  refused : ∀ o ob, s.objects[o]? = some ob → Registry.standardNames.length ≤ ob.cls →
    ∀ m ∈ Registry.standardMethods, m.isStatic = false →
    ¬ (m.owner = Registry.objectClass ∧ m.name = constructorName) →
    ∀ rest : List Value, rest.length + 1 = m.arity → Registry.Refuses m t o rest

theorem owner_lt {m : Method} (hm : m ∈ Registry.standardMethods) :
    m.owner < Registry.standardNames.length := by
  have hall : ∀ m ∈ Registry.builtins.map Registry.Builtin.method,
      m.owner < Registry.standardNames.length := by decide
  exact hall m (Registry.mem_standardMethods_iff.1 hm)

theorem undisturbed_of_grown (h : s.Grown t) : Undisturbed s t where
  toGrown := h
  refused o ob hob hcls m hm hinstance hinit rest hargs := by
    refine Registry.invoke_foreign hm hinstance hinit ?_ hargs
    rw [Store.classOf?, h.kept hob, Option.map_some]
    intro heq
    rw [Option.some.inj heq] at hcls
    exact absurd (owner_lt hm) (Nat.not_lt_of_le hcls)

section Hosting
variable (sink : Sink) (classes : List Class) (objects : List Object)

theorem hosting_standard : (Registry.hosting sink classes objects).Standard :=
  ⟨rfl, List.prefix_append _ _⟩

theorem hosting_builders (h : ∀ ob ∈ objects, Registry.standardNames.length ≤ ob.cls) :
    ∀ ob ∈ (Registry.hosting sink classes objects).objects,
      ob.cls ≠ Registry.stringBuilderClass := by
  intro ob hob hcls
  obtain hown | hob := List.mem_append.1 hob
  · cases List.mem_singleton.1 hown
    cases hcls
  · have hle := h ob hob
    rw [hcls] at hle
    exact absurd hle (by decide)

end Hosting

theorem grown_enduring {program : Program} (hmethods : program.methods = Registry.standardMethods)
    (hstandard : s.Standard) (hs : ∀ ob ∈ s.objects, ob.cls ≠ Registry.stringBuilderClass) :
    Enduring program s.Grown :=
  enduring_of_settled hmethods (fun _ ht => hstandard.of_sameClasses ht.classes)
    (Store.Grown.settled hs) fun _ _ _ ht hc => ht.newObject hc

theorem entry_intact (entry : Entry) (args : List Value) :
    Intact (entry.frame args) (entry.frame args) :=
  ⟨rfl, rfl, rfl, Nat.zero_le _, by simp [Entry.frame], by simp [Entry.frame]⟩

theorem flush_saves {S : Store → Prop} (hS : Store.Settled S) (hs : S s) :
    S (final (flush s)) := by
  have hflush := saves_flushEach hS s.pending.keys s hs
  revert hflush
  rw [flush]
  cases flushEach s.pending.keys s with
  | ok u t => exact id
  | error e t => exact id

/-- In every state of a run and in its report, classes and the caller's objects are as they were, an
object made since has at most the text of a string builder, and methods refuse those objects. -/
theorem run_keeps_heap (options : Options) (sink : Sink) (classes : List Class)
    (objects : List Object) (hforeign : ∀ ob ∈ objects, Registry.standardNames.length ≤ ob.cls)
    (c : ClassFile) (name descriptor : Bytes) (args : List Value) :
    let store := Registry.hosting sink classes objects
    (∀ entry, Entry.find c name descriptor = .ok entry → ∀ n, Undisturbed store
      (State.run (options.setting c) n { frame := entry.frame args, store }).1.store) ∧
    ∀ rounds report, runMethod rounds options store c name descriptor args = some report →
      Undisturbed store report.store := by
  intro store
  have hbuilders := hosting_builders sink classes objects hforeign
  have hS : Enduring (options.setting c).program store.Grown :=
    grown_enduring rfl (hosting_standard sink classes objects) hbuilders
  have hrun (entry : Entry) (n : Nat) :
      store.Grown (State.run (options.setting c) n { frame := entry.frame args, store }).1.store :=
    (run_intact (options.setting c) hS (entry_intact entry args) (Store.Grown.refl store) n).2
  refine ⟨fun entry _ n => undisturbed_of_grown (hrun entry n), fun rounds report h => ?_⟩
  apply undisturbed_of_grown
  cases hfind : Entry.find c name descriptor with
  | error failure =>
    rw [runMethod_of_refused hfind] at h
    cases h
    exact Store.Grown.refl store
  | ok entry =>
    rw [runMethod_of_find hfind] at h
    have hlast := hrun entry rounds
    cases hr : State.run (options.setting c) rounds { frame := entry.frame args, store } with
    | mk last o =>
      rw [hr] at h hlast
      cases o with
      | none => cases h
      | some outcome =>
        cases h
        rw [finish_store]
        exact flush_saves (Store.Grown.settled hbuilders) hlast

/-- A class with a method that makes a string builder and appends to it, and then tries the same
with its argument. -/
def appender : ClassFile where
  pool := {
    count := 17
    entries := [.utf8 (utf8 "Appender"), .cls 1, .utf8 (utf8 "main"),
      .utf8 (utf8 "(Ljava/lang/StringBuilder;)V"), .utf8 (utf8 "java/lang/StringBuilder"), .cls 5,
      .utf8 (utf8 "<init>"), .utf8 (utf8 "()V"), .nameAndType 7 8, .ref .method 6 9,
      .utf8 (utf8 "append"), .utf8 (utf8 "(Ljava/lang/String;)Ljava/lang/StringBuilder;"),
      .nameAndType 11 12, .ref .method 6 13, .utf8 (utf8 "a"), .string 15] }
  thisClass := 2
  methods := [
    { flags := ⟨9⟩, nameIndex := 3, descriptorIndex := 4, attributes := [
        .code 0 2 1 [0xBB, 0x00, 0x06, 0x59, 0xB7, 0x00, 0x0A, 0x12, 0x10, 0xB6, 0x00, 0x0E, 0x57,
          0x2A, 0x12, 0x10, 0xB6, 0x00, 0x0E, 0xB1] []] }]

/-- An object with a field, of a class that a caller has named after the string builders. -/
def impostor : Object where
  cls := 6
  fields := ⟨[(utf8 "str", .int 5)]⟩

theorem impostor_left_alone :
    ∃ report, runMethod 20 {} (Registry.hosting {} [{ name := utf8 "java/lang/StringBuilder" }]
        [impostor]) appender (utf8 "main") [] [.obj 1] = some report ∧
      report.failure.map Failure.message = some (utf8 ("Appender.main:" ++
        "(Ljava/lang/StringBuilder;)V: pc 16 (invokevirtual): java/lang/StringBuilder.append: " ++
        "receiver is object java/lang/StringBuilder@ADDR, not a java/lang/StringBuilder")) ∧
      report.store.objects[1]? = some impostor ∧
      ∃ ob, report.store.objects[2]? = some ob ∧ ob.Made (Registry.hosting {}
        [{ name := utf8 "java/lang/StringBuilder" }] [impostor]) := by
  let store := Registry.hosting {} [{ name := utf8 "java/lang/StringBuilder" }] [impostor]
  have hkept := (run_keeps_heap {} {} [{ name := utf8 "java/lang/StringBuilder" }] [impostor]
    (by simp [impostor, Registry.standardNames]) appender (utf8 "main") [] [.obj 1]).2 20
  have hends : (runMethod 20 {} store appender (utf8 "main") [] [.obj 1]).any
      (fun report => report.store.objects.length = 3) = true := by decide +kernel
  have hfails : ((runMethod 20 {} store appender (utf8 "main") [] [.obj 1]).bind fun report =>
      report.failure.map Failure.message) = some (utf8 ("Appender.main:" ++
        "(Ljava/lang/StringBuilder;)V: pc 16 (invokevirtual): java/lang/StringBuilder.append: " ++
        "receiver is object java/lang/StringBuilder@ADDR, not a java/lang/StringBuilder")) := by
    decide +kernel
  cases hrun : runMethod 20 {} store appender (utf8 "main") [] [.obj 1] with
  | none =>
    rw [hrun] at hends
    cases hends
  | some report =>
    rw [hrun] at hends hfails
    have hgrown := hkept report hrun
    have hlength : report.store.objects.length = 3 := of_decide_eq_true hends
    refine ⟨report, rfl, hfails, hgrown.kept rfl, ?_⟩
    obtain ⟨ob, hob⟩ : ∃ ob, report.store.objects[2]? = some ob :=
      ⟨_, List.getElem?_eq_getElem (by omega)⟩
    exact ⟨ob, hob, hgrown.made rfl hob⟩

end Machine

end ClassMachine
