import Mathlib.Data.List.Forall2
import ClassMachine.Machine.Decode
import ClassMachine.Machine.Execute

/-! Typings of code. A typing says for some offsets of the code which kinds of values are on the
stack and in the local variables whenever the instruction there is executed. It is consistent when
every instruction finds what it needs, and leaves what the typing says of its successors. -/
namespace ClassMachine

/-- What a load or store can move a value as; nothing can be done with void and alien values. -/
def Value.slotKind? : Value → Option SlotKind
  | .int _ => some .int
  | .str _ | .null | .obj _ => some .reference
  | .void | .alien _ => none

theorem Value.eq_int_of_slotKind? {v : Value} (h : v.slotKind? = some .int) : ∃ n, v = .int n := by
  cases v with
  | int n => exact ⟨n, rfl⟩
  | _ => simp [Value.slotKind?] at h

theorem Value.slotKind?_eq_reference_iff (v : Value) :
    v.slotKind? = some .reference ↔ v.isReference = true := by
  cases v <;> simp [Value.slotKind?, Value.isReference]

def Test.operands : Test → List SlotKind
  | .eqZero | .neZero => [.int]
  | .less | .greaterEq => [.int, .int]
  | .always => []

def Instruction.successors (i : Instruction) (pc : Int) : List Int :=
  match i with
  | .branch .always offset => [pc + offset.toInt]
  | .branch _ offset => [pc + i.length, pc + offset.toInt]
  | .ireturn | .areturn | .ret => []
  | i => [pc + i.length]

theorem Instruction.target_mem_successors (test : Test) (offset : Int16) (pc : Int) :
    pc + offset.toInt ∈ (Instruction.branch test offset).successors pc := by
  cases test with
  | always => exact List.mem_cons_self
  | _ => exact List.mem_cons_of_mem _ List.mem_cons_self

theorem Instruction.next_mem_successors {test : Test} (h : test ≠ .always) (offset : Int16)
    (pc : Int) : pc + (Instruction.branch test offset).length ∈
      (Instruction.branch test offset).successors pc := by
  cases test with
  | always => exact absurd rfl h
  | _ => exact List.mem_cons_self

def Instruction.Returns (i : Instruction) (v : Value) : Prop :=
  match i with
  | .ireturn => v.slotKind? = some .int
  | .areturn => v.slotKind? = some .reference
  | .ret => v = .void
  | _ => False

namespace Machine

/-- The kinds of the values on the stack, the top first, and in the local variables; a variable
without a kind is unset. -/
structure FrameType where
  stack : List SlotKind
  locals : List (Option SlotKind)
deriving DecidableEq

/-- Whether a variable of one kind may be taken for one of another kind. Where ways through the
code join, a lax typing may forget what a variable holds. -/
def Fits (lax : Bool) (kind wanted : Option SlotKind) : Prop :=
  kind = wanted ∨ lax = true ∧ wanted = none

variable {lax : Bool}

theorem Fits.refl (lax : Bool) (kind : Option SlotKind) : Fits lax kind kind := Or.inl rfl

theorem Fits.trans {a b c : Option SlotKind} (h : Fits lax a b) (h' : Fits lax b c) :
    Fits lax a c := by
  rcases h' with rfl | h'
  · exact h
  · exact Or.inr h'

theorem Fits.eq_some {a : Option SlotKind} {kind : SlotKind} (h : Fits lax a (some kind)) :
    a = some kind := by
  rcases h with h | ⟨-, h⟩
  · exact h
  · cases h

namespace FrameType

structure Describes (lax : Bool) (t : FrameType) (f : Frame) : Prop where
  stack : List.Forall₂ (fun v kind => v.slotKind? = some kind) f.stack t.stack
  locals : List.Forall₂ (fun v kind => Fits lax v.slotKind? kind) f.locals t.locals

def Joins (lax : Bool) (t u : FrameType) : Prop :=
  t.stack = u.stack ∧ List.Forall₂ (Fits lax) t.locals u.locals

theorem Joins.refl (lax : Bool) (t : FrameType) : t.Joins lax t :=
  ⟨rfl, List.forall₂_same.2 fun kind _ => Fits.refl lax kind⟩

theorem Describes.depth {t : FrameType} {f : Frame} (h : t.Describes lax f) :
    f.stack.length = t.stack.length := h.stack.length_eq

theorem fits_joined {vs : List Value} {ls ls' : List (Option SlotKind)}
    (h : List.Forall₂ (fun v kind => Fits lax v.slotKind? kind) vs ls)
    (h' : List.Forall₂ (Fits lax) ls ls') :
    List.Forall₂ (fun v kind => Fits lax v.slotKind? kind) vs ls' := by
  induction h generalizing ls' with
  | nil =>
    cases h'
    exact List.Forall₂.nil
  | cons hv _ ih =>
    cases h' with
    | cons hk hrest => exact List.Forall₂.cons (hv.trans hk) (ih hrest)

theorem Describes.joins {t u : FrameType} {f : Frame} (h : t.Describes lax f)
    (htu : t.Joins lax u) : u.Describes lax f :=
  ⟨htu.1 ▸ h.stack, fits_joined h.locals htu.2⟩

theorem describes_initial (f : Frame) (h : f.stack = []) :
    (FrameType.mk [] (f.locals.map Value.slotKind?)).Describes lax f where
  stack := h ▸ List.Forall₂.nil
  locals := by
    rw [List.forall₂_map_right_iff, List.forall₂_same]
    intro v _
    exact Fits.refl lax _

variable {f : Frame} {kind : SlotKind} {ks : List SlotKind} {ls : List (Option SlotKind)}

theorem Describes.uncons (h : (FrameType.mk (kind :: ks) ls).Describes lax f) :
    ∃ v vs, f.stack = v :: vs ∧ v.slotKind? = some kind ∧
      (FrameType.mk ks ls).Describes lax { f with stack := vs } := by
  obtain ⟨v, vs, hv, hvs, hf⟩ := List.forall₂_cons_right_iff.1 h.stack
  exact ⟨v, vs, hf, hv, hvs, h.locals⟩

theorem Describes.push {v : Value} (h : (FrameType.mk ks ls).Describes lax f)
    (hv : v.slotKind? = some kind) :
    (FrameType.mk (kind :: ks) ls).Describes lax { f with stack := v :: f.stack } :=
  ⟨List.Forall₂.cons hv h.stack, h.locals⟩

theorem Describes.localValue {slot : Nat} (h : (FrameType.mk ks ls).Describes lax f)
    (hslot : ls[slot]? = some (some kind)) :
    ∃ v, f.locals[slot]? = some v ∧ v.slotKind? = some kind := by
  obtain ⟨hlt, hget⟩ := List.getElem?_eq_some_iff.1 hslot
  have hlt' : slot < f.locals.length := h.locals.length_eq ▸ hlt
  have hfits := h.locals.get hlt' hlt
  simp only [List.get_eq_getElem, hget] at hfits
  exact ⟨f.locals[slot], List.getElem?_eq_getElem hlt', hfits.eq_some⟩

theorem Describes.setLocal {slot : Nat} {v : Value} (h : (FrameType.mk ks ls).Describes lax f)
    (hv : v.slotKind? = some kind) : (FrameType.mk ks (ls.set slot (some kind))).Describes lax
      { f with locals := f.locals.set slot v } where
  stack := h.stack
  locals := by
    have hl := h.locals
    rw [List.forall₂_iff_get] at hl ⊢
    refine ⟨by simp [hl.1], ?_⟩
    intro i hi hi'
    simp only [List.get_eq_getElem, List.getElem_set]
    by_cases hslot : slot = i
    · simp only [if_pos hslot, hv]
      exact Fits.refl lax _
    · simp only [if_neg hslot]
      exact hl.2 i (by simpa using hi) (by simpa using hi')

end FrameType

/-- An instruction that finds a frame of one type leaves a frame of the other. What it refers to has
to exist and be of the right sort. -/
inductive HasType (program : Program) (store : Store) : Instruction → FrameType → FrameType → Prop
  | nop {t} : HasType program store .nop t t
  | iconst {n ks ls} : HasType program store (.iconst n) ⟨ks, ls⟩ ⟨.int :: ks, ls⟩
  | bipush {n ks ls} : HasType program store (.bipush n) ⟨ks, ls⟩ ⟨.int :: ks, ls⟩
  | sipush {n ks ls} : HasType program store (.sipush n) ⟨ks, ls⟩ ⟨.int :: ks, ls⟩
  | ldc {index text ks ls} (htext : program.pool.stringValue index.toUInt16 = .ok text) :
      HasType program store (.ldc index) ⟨ks, ls⟩ ⟨.reference :: ks, ls⟩
  | ldcWide {index text ks ls} (htext : program.pool.stringValue index = .ok text) :
      HasType program store (.ldcWide index) ⟨ks, ls⟩ ⟨.reference :: ks, ls⟩
  | load {kind slot ks ls} (hslot : ls[slot.toNat]? = some (some kind)) :
      HasType program store (.load kind slot) ⟨ks, ls⟩ ⟨kind :: ks, ls⟩
  | loadShort {kind slot ks ls} (hslot : ls[slot.val]? = some (some kind)) :
      HasType program store (.loadShort kind slot) ⟨ks, ls⟩ ⟨kind :: ks, ls⟩
  | store {kind slot ks ls} (hslot : slot.toNat < ls.length) :
      HasType program store (.store kind slot) ⟨kind :: ks, ls⟩ ⟨ks, ls.set slot.toNat (some kind)⟩
  | storeShort {kind slot ks ls} (hslot : slot.val < ls.length) :
      HasType program store (.storeShort kind slot) ⟨kind :: ks, ls⟩
        ⟨ks, ls.set slot.val (some kind)⟩
  | pop {k ks ls} : HasType program store .pop ⟨k :: ks, ls⟩ ⟨ks, ls⟩
  | dup {k ks ls} : HasType program store .dup ⟨k :: ks, ls⟩ ⟨k :: k :: ks, ls⟩
  | iadd {ks ls} : HasType program store .iadd ⟨.int :: .int :: ks, ls⟩ ⟨.int :: ks, ls⟩
  | isub {ks ls} : HasType program store .isub ⟨.int :: .int :: ks, ls⟩ ⟨.int :: ks, ls⟩
  | iinc {slot amount ks ls} (hslot : ls[slot.toNat]? = some (some .int)) :
      HasType program store (.iinc slot amount) ⟨ks, ls⟩ ⟨ks, ls⟩
  | branch {test offset ls} (ks) :
      HasType program store (.branch test offset) ⟨test.operands ++ ks, ls⟩ ⟨ks, ls⟩
  | ireturn {ks ls} : HasType program store .ireturn ⟨.int :: ks, ls⟩ ⟨ks, ls⟩
  | areturn {ks ls} : HasType program store .areturn ⟨.reference :: ks, ls⟩ ⟨ks, ls⟩
  | ret {t} : HasType program store .ret t t
  | getstatic {index ref c v kind ks ls} (href : program.pool.field index = .ok ref)
      (hclass : store.lookup ref.className = .ok c) (hfield : store.staticField c ref.name = .ok v)
      (hkind : v.slotKind? = some kind) :
      HasType program store (.getstatic index) ⟨ks, ls⟩ ⟨kind :: ks, ls⟩
  | invoke {mode index ref c m ls} (args ks) (href : program.pool.method index = .ok ref)
      (hclass : store.lookup ref.className = .ok c)
      (hmethod : Registry.method ⟨store, program.methods⟩ c (mode == .static) ref.name
        ref.descriptor = .ok m) (hargs : args.length = m.arity) :
      HasType program store (.invoke mode index) ⟨args ++ ks, ls⟩
        ⟨if mode = .special ∨ m.type.void then ks else .reference :: ks, ls⟩
  | new {index name c ks ls} (hname : program.pool.className index = .ok name)
      (hclass : store.lookup name = .ok c) :
      HasType program store (.new index) ⟨ks, ls⟩ ⟨.reference :: ks, ls⟩

abbrev Typing := Int → Option FrameType

/-- The typing starts from the given local variables and an empty stack; every instruction that it
reaches has a type, fits the given depth, and leads on to frames that the typing allows. -/
structure Typing.Consistent (T : Typing) (lax : Bool) (program : Program) (store : Store)
    (code : Bytes) (maxStack : Nat) (locals : List Value) : Prop where
  entry : T 0 = some ⟨[], locals.map Value.slotKind?⟩
  step : ∀ pc t, T pc = some t → ∃ i u, decode code pc = .ok i ∧ HasType program store i t u ∧
    u.stack.length ≤ maxStack ∧ ∀ next ∈ i.successors pc, ∃ v, T next = some v ∧ u.Joins lax v

end Machine

end ClassMachine
