import ClassMachine.Proofs.Library.Natives

/-! Calls of the standard library. A call leaves the classes as they are; a method that is not void
gives a reference, and a call that gets as many values as its method takes fails only because of
the receiver, of an argument or of the sink. -/
namespace ClassMachine
open Fallible

/-- The classes, their static fields and the names they are found by are the same. -/
def Store.SameClasses (s t : Store) : Prop :=
  t.classes = s.classes ∧ t.registered = s.registered

theorem Store.SameClasses.refl (s : Store) : s.SameClasses s := ⟨rfl, rfl⟩

theorem Store.SameClasses.trans (s t u : Store) (h : s.SameClasses t) (h' : t.SameClasses u) :
    s.SameClasses u := ⟨h'.1.trans h.1, h'.2.trans h.2⟩

abbrev Native.Tame {α : Type} (P : α → Prop) (c : Call α) : Prop :=
  Keeps Store.SameClasses P Library.Error.Raised c

def MethodType.Admits (type : MethodType) (v : Value) : Prop :=
  if type.void then v = .void else v.isReference = true

theorem MethodType.admits_result {type : MethodType} {v : Value}
    (h : type.void = false → v.isReference = true) :
    type.Admits (if type.void then .void else v) := by
  cases hvoid : type.void with
  | true => simp [Admits, hvoid]
  | false => simpa [Admits, hvoid] using h hvoid

/-- Methods that behave, if they get as many values as they take. -/
def Methods.Tame (ms : Methods) : Prop :=
  ∀ m ∈ ms, ∀ args : List Value, args.length = m.arity →
    Native.Tame m.type.Admits (m.invoke args)

theorem Registry.standardMethods_tame : standardMethods.Tame := by
  intro m hm args hargs
  refine keeps_of_result fun s => ?_
  have hends := standardMethods_ends hm hargs s
  rw [Method.invoke_eq, if_neg (not_not_intro hargs)]
  generalize m.run args s = r at hends
  cases hends with
  | refused he => exact ⟨Store.SameClasses.refl s, he⟩
  | given hv => exact ⟨Store.SameClasses.refl s, MethodType.admits_result hv⟩
  | printed _ hvoid => exact ⟨⟨rfl, rfl⟩, MethodType.admits_result (by simp [hvoid])⟩
  | untaken _ _ => exact ⟨⟨rfl, rfl⟩, trivial⟩
  | built _ hv => exact ⟨⟨rfl, rfl⟩, MethodType.admits_result hv⟩

end ClassMachine
